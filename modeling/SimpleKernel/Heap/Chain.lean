import SimpleKernel.Heap.BlockList

/-!
# The block list in memory

`Links m p q bs` is the list segment of `bs` from the pointer `p` up to the pointer `q`.
Each walk of `heap.c` over a list that memory holds does to it what `BlockList` says,
and changes nothing but headers.
-/

namespace SimpleKernel.Heap
set_option autoImplicit false
open Lib

/-- The bytes of the header at `b`. -/
def headerBytes (b a : Nat) : Prop := b ≤ a ∧ a < b + 24

/-- The bytes of the size and the link of the header at `b`. -/
def linkBytes (b a : Nat) : Prop := b ≤ a ∧ a < b + 16

theorem linkBytes.header {b a : Nat} (h : linkBytes b a) : headerBytes b a := by
  unfold linkBytes at h
  unfold headerBytes
  omega

/-! ## Fields after a store -/

section

variable (m : Mem) (b v : Nat) (f : BitVec 8)

theorem pow_256_8 : 256 ^ 8 = 2 ^ 64 := by decide

@[simp] theorem blockSize_setSize : blockSize (setSize m b v) b = u64 v := by
  rw [blockSize, setSize, loadLE_storeLE_same, pow_256_8, u64]

@[simp] theorem blockNext_setSize : blockNext (setSize m b v) b = blockNext m b :=
  loadLE_storeLE_apart (by omega)

@[simp] theorem blockFree_setSize : blockFree (setSize m b v) b = blockFree m b := by
  rw [blockFree, setSize, storeLE_out (by omega), blockFree]

@[simp] theorem blockSize_setNext : blockSize (setNext m b v) b = blockSize m b :=
  loadLE_storeLE_apart (by omega)

@[simp] theorem blockNext_setNext : blockNext (setNext m b v) b = u64 v := by
  rw [blockNext, setNext, loadLE_storeLE_same, pow_256_8, u64]

@[simp] theorem blockFree_setNext : blockFree (setNext m b v) b = blockFree m b := by
  rw [blockFree, setNext, storeLE_out (by omega), blockFree]

@[simp] theorem blockSize_setFree : blockSize (setFree m b f) b = blockSize m b :=
  loadLE_storeByte_apart (by omega)

@[simp] theorem blockNext_setFree : blockNext (setFree m b f) b = blockNext m b :=
  loadLE_storeByte_apart (by omega)

@[simp] theorem blockFree_setFree : blockFree (setFree m b f) b = (f != 0) := by
  rw [blockFree, setFree, storeByte_self]

theorem setSize_links : SameOutside (linkBytes b) m (setSize m b v) :=
  (storeLE_same_outside m b 8 v).mono fun x hx => ⟨hx.1, by omega⟩

theorem setNext_links : SameOutside (linkBytes b) m (setNext m b v) :=
  (storeLE_same_outside m (b + 8) 8 v).mono fun x hx => ⟨by omega, by omega⟩

theorem setSize_outside : SameOutside (headerBytes b) m (setSize m b v) :=
  (setSize_links m b v).mono fun _ => linkBytes.header

theorem setNext_outside : SameOutside (headerBytes b) m (setNext m b v) :=
  (setNext_links m b v).mono fun _ => linkBytes.header

theorem setFree_outside : SameOutside (headerBytes b) m (setFree m b f) :=
  (storeByte_same_outside m (b + 16) f).mono fun x hx => ⟨by omega, by omega⟩

/-- A whole header written. -/
theorem header_outside (next : Nat) :
    SameOutside (headerBytes b) m (setFree (setNext (setSize m b v) b next) b f) :=
  ((setSize_outside m b v).trans (setNext_outside _ b next)).trans (setFree_outside _ b f)

end

theorem blockNext_lt (m : Mem) (b : Nat) : blockNext m b < 2 ^ 64 := pow_256_8 ▸ loadLE_lt m (b + 8) 8

/-- A header apart from what changed reads the same. -/
theorem header_congr {P : Nat → Prop} {m m' : Mem} {b : Nat} (h : SameOutside P m m')
    (apart : ∀ a, headerBytes b a → ¬ P a) :
    blockSize m' b = blockSize m b ∧ blockNext m' b = blockNext m b ∧ blockFree m' b = blockFree m b := by
  refine ⟨h.loadLE_eq fun a lo hi => apart a ⟨by omega, by omega⟩,
    h.loadLE_eq fun a lo hi => apart a ⟨by omega, by omega⟩, ?_⟩
  rw [blockFree, blockFree, h (b + 16) (apart _ ⟨by omega, by omega⟩)]

/-! ## List segments -/

/-- The blocks from the pointer `p` up to the pointer `q`. -/
def Links (m : Mem) : Nat → Nat → List Block → Prop
  | p, q, [] => p = q
  | p, q, b :: bs =>
    p = b.addr ∧ blockSize m b.addr = b.size ∧ blockFree m b.addr = b.free ∧ Links m (blockNext m b.addr) q bs

theorem links_append {m : Mem} {p q : Nat} {xs ys : List Block} :
    Links m p q (xs ++ ys) ↔ ∃ r, Links m p r xs ∧ Links m r q ys := by
  induction xs generalizing p with
  | nil => simp [Links]
  | cons x xs ih =>
    simp only [List.cons_append, Links, ih]
    constructor
    · intro h
      obtain ⟨start, size, free, r, hx, hy⟩ := h
      exact ⟨r, ⟨start, size, free, hx⟩, hy⟩
    · intro h
      obtain ⟨r, ⟨start, size, free, hx⟩, hy⟩ := h
      exact ⟨start, size, free, r, hx, hy⟩

/-- A segment whose headers are apart from what changed is still there. -/
theorem Links.congr {P : Nat → Prop} {m m' : Mem} {p q : Nat} {bs : List Block} (h : Links m p q bs)
    (same : SameOutside P m m') (apart : ∀ b ∈ bs, ∀ a, headerBytes b.addr a → ¬ P a) : Links m' p q bs := by
  induction bs generalizing p with
  | nil => exact h
  | cons b bs ih =>
    obtain ⟨start, size, free, rest⟩ := h
    obtain ⟨size', next', free'⟩ := header_congr same (apart b List.mem_cons_self)
    refine ⟨start, size'.trans size, free'.trans free, ?_⟩
    rw [next']
    exact ih rest fun c hc => apart c (List.mem_cons_of_mem _ hc)

/-- The pointer to the first block, `0` at the end of the list. -/
def firstAddr : List Block → Nat
  | [] => 0
  | b :: _ => b.addr

theorem Links.first {m : Mem} {p : Nat} {bs : List Block} (h : Links m p 0 bs) : p = firstAddr bs := by
  cases bs with
  | nil => exact h
  | cons b bs => exact h.1

/-- The segment around one block. -/
theorem links_middle {m : Mem} {p : Nat} {pre post : List Block} {b : Block} :
    Links m p 0 (pre ++ b :: post) ↔ Links m p b.addr pre ∧ blockSize m b.addr = b.size ∧
      blockFree m b.addr = b.free ∧ Links m (blockNext m b.addr) 0 post := by
  rw [links_append]
  constructor
  · intro h
    obtain ⟨r, before, rfl, rest⟩ := h
    exact ⟨before, rest⟩
  · intro h
    exact ⟨b.addr, h.1, rfl, h.2⟩

/-- Put blocks for one block, when memory changes inside its span only. -/
theorem Links.replace {regions : List Seg} {m m' : Mem} {p : Nat} {pre post new : List Block} {b : Block}
    (h : Links m p 0 (pre ++ b :: post)) (layout : Layout regions (pre ++ b :: post))
    (same : SameOutside (fun a => b.addr ≤ a ∧ a < b.fin) m m')
    (now : Links m' b.addr (blockNext m b.addr) new) : Links m' p 0 (pre ++ new ++ post) := by
  obtain ⟨before, size, free, after⟩ := links_middle.1 h
  have ordered := List.pairwise_append.1 layout.ordered
  rw [List.append_assoc, links_append]
  refine ⟨b.addr, before.congr same fun c hc a ha => ?_, links_append.2 ⟨blockNext m b.addr, now,
    after.congr same fun c hc a ha => ?_⟩⟩
  · have le := ordered.2.2 c hc b List.mem_cons_self
    unfold headerBytes at ha
    unfold Block.fin at *
    omega
  · have le := (List.pairwise_cons.1 ordered.2.1).1 c hc
    unfold headerBytes at ha
    omega

/-! ## `heap_coalesce` -/

/-- Blocks in order and inside the first GiB. -/
structure Bounded (bs : List Block) : Prop where
  ordered : bs.Pairwise fun b c => b.fin ≤ c.addr
  positive : ∀ b ∈ bs, 0 < b.addr
  bound : ∀ b ∈ bs, b.fin ≤ 2 ^ 30

theorem Layout.bounded {regions : List Seg} {bs : List Block} (h : Layout regions bs) : Bounded bs :=
  ⟨h.ordered, fun _ => h.addr_pos, fun _ => h.fin_le⟩

theorem Bounded.tail {b : Block} {bs : List Block} (h : Bounded (b :: bs)) : Bounded bs :=
  ⟨(List.pairwise_cons.1 h.ordered).2, fun c hc => h.positive c (List.mem_cons_of_mem _ hc),
    fun c hc => h.bound c (List.mem_cons_of_mem _ hc)⟩

/-- The merged block still ends before the rest of the list. -/
theorem Bounded.merge {g c : Block} {cs : List Block} (h : Bounded (g :: c :: cs)) : Bounded (merge g c :: cs) := by
  obtain ⟨next, ordered⟩ := List.pairwise_cons.1 h.ordered
  obtain ⟨after, ordered⟩ := List.pairwise_cons.1 ordered
  have le := next c List.mem_cons_self
  have fin : (Heap.merge g c).fin ≤ c.fin := by
    unfold Heap.merge Block.fin at *
    dsimp only
    omega
  refine ⟨List.pairwise_cons.2 ⟨fun x hx => fin.trans (after x hx), ordered⟩, fun x hx => ?_, fun x hx => ?_⟩
  · rcases List.mem_cons.1 hx with rfl | hx
    · exact h.positive g List.mem_cons_self
    · exact h.positive x (by simp [hx])
  · rcases List.mem_cons.1 hx with rfl | hx
    · exact fin.trans (h.bound c (by simp))
    · exact h.bound x (by simp [hx])

/-- The size at a header is at least `size`, and the block still ends inside the first GiB. -/
def HasRoom (m : Mem) (b size : Nat) : Prop := size ≤ blockSize m b ∧ b + 24 + blockSize m b ≤ 2 ^ 30

theorem hasRoom_block {m : Mem} {b : Block} (size : blockSize m b.addr = b.size) (fin : b.fin ≤ 2 ^ 30) :
    HasRoom m b.addr b.size := by
  unfold Block.fin at fin
  exact ⟨by omega, by omega⟩

/-- Absorbing blocks grow, and the headers of the absorbed stay as they were. -/
theorem coalesceLoop_spec {m : Mem} {g : Block} {cs : List Block} {fuel : Nat} (links : Links m g.addr 0 (g :: cs))
    (bounded : Bounded (g :: cs)) (enough : cs.length < fuel) :
    ∃ m', coalesceLoop fuel m g.addr = some m' ∧ Links m' g.addr 0 (coalesceFrom g cs) ∧
      SameOutside (fun a => ∃ b ∈ g :: cs, linkBytes b.addr a) m m' ∧ ∀ b ∈ g :: cs, HasRoom m' b.addr b.size := by
  induction cs generalizing m g fuel with
  | nil =>
    obtain ⟨fuel, rfl⟩ : ∃ n, fuel = n + 1 := ⟨fuel - 1, by omega⟩
    obtain ⟨-, size, free, last⟩ := links
    have stop : ¬ (g.addr ≠ 0 ∧ blockNext m g.addr ≠ 0) := fun h => h.2 last
    have room := hasRoom_block size (bounded.bound g List.mem_cons_self)
    refine ⟨m, ?_, ⟨rfl, size, free, last⟩, .refl _ _, List.forall_mem_cons.2 ⟨room, by simp⟩⟩
    rw [coalesceLoop, if_neg stop]
  | cons c cs ih =>
    obtain ⟨fuel, rfl⟩ : ∃ n, fuel = n + 1 := ⟨fuel - 1, by omega⟩
    rw [List.length_cons] at enough
    obtain ⟨-, size, free, next, sizec, freec, rest⟩ := links
    have gpos := bounded.positive g List.mem_cons_self
    have cpos := bounded.positive c (by simp)
    have gc := (List.pairwise_cons.1 bounded.ordered).1 c List.mem_cons_self
    have cfin := bounded.bound c (by simp)
    unfold Block.fin at gc cfin
    have go : g.addr ≠ 0 ∧ blockNext m g.addr ≠ 0 := ⟨by omega, by rw [next]; omega⟩
    have test : (blockFree m g.addr ∧ blockFree m c.addr ∧
        u64 (u64 (g.addr + sizeofHeapBlock) + alignUp (blockSize m g.addr)) = c.addr) ↔ absorbs g c := by
      rw [size, free, freec, sizeofHeapBlock_eq, absorbs, alignUp_of_lt (by omega),
        u64_of_lt (n := g.addr + 24) (by omega), u64_of_lt (by omega)]
    rw [coalesceLoop, if_pos go, coalesceFrom]
    dsimp only
    rw [next]
    by_cases absorb : absorbs g c
    · rw [if_pos absorb, if_pos (test.2 absorb), size, sizec, sizeofHeapBlock_eq, u64_of_lt (by omega)]
      have before := bounded.merge
      have sized := setSize_links m g.addr (g.size + (24 + c.size))
      have sameC := header_congr (b := c.addr) sized fun a ha => by unfold headerBytes linkBytes at *; omega
      have linked := setNext_links (setSize m g.addr (g.size + (24 + c.size))) g.addr (blockNext m c.addr)
      have both := sized.trans linked
      rw [sameC.2.1]
      have links' : Links (setNext (setSize m g.addr (g.size + (24 + c.size))) g.addr (blockNext m c.addr))
          (merge g c).addr 0 (merge g c :: cs) := by
        refine ⟨rfl, ?_, ?_, ?_⟩
        · rw [merge, blockSize_setNext, blockSize_setSize, u64_of_lt (by omega)]
        · rw [merge, blockFree_setNext, blockFree_setSize, free]
        · rw [merge, blockNext_setNext, u64_of_lt (blockNext_lt m c.addr)]
          refine rest.congr both fun b hb a ha => ?_
          have after := (List.pairwise_cons.1 before.ordered).1 b hb
          unfold headerBytes linkBytes at *
          unfold merge Block.fin at after
          dsimp only at after
          omega
      obtain ⟨m', run, now, same, room⟩ := @ih _ (merge g c) fuel links' before (by omega)
      obtain ⟨roomG, roomCs⟩ := List.forall_mem_cons.1 room
      have untouched := header_congr (b := c.addr) same fun a ha hit => by
        obtain ⟨b, hb, hit⟩ := hit
        rcases List.mem_cons.1 hb with rfl | hb
        · unfold headerBytes linkBytes merge at *
          dsimp only at hit
          omega
        · have after := (List.pairwise_cons.1 bounded.tail.ordered).1 b hb
          unfold headerBytes linkBytes Block.fin at *
          omega
      have roomC : HasRoom m' c.addr c.size := by
        have header := header_congr (b := c.addr) both fun a ha => by unfold headerBytes linkBytes at *; omega
        exact hasRoom_block (untouched.1.trans (header.1.trans sizec)) (bounded.bound c (by simp))
      have roomG' : HasRoom m' g.addr g.size := ⟨Nat.le_trans (Nat.le_add_right _ _) roomG.1, roomG.2⟩
      refine ⟨m', run, now, (both.mono fun a ha => ⟨g, List.mem_cons_self, ha⟩).trans (same.mono fun a ha => ?_),
        List.forall_mem_cons.2 ⟨roomG', List.forall_mem_cons.2 ⟨roomC, roomCs⟩⟩⟩
      obtain ⟨b, hb, ha⟩ := ha
      rcases List.mem_cons.1 hb with rfl | hb
      · exact ⟨g, List.mem_cons_self, ha⟩
      · exact ⟨b, by simp [hb], ha⟩
    · rw [if_neg absorb, if_neg (fun h => absorb (test.1 h))]
      obtain ⟨m', run, now, same, room⟩ := @ih m c fuel ⟨rfl, sizec, freec, rest⟩ bounded.tail (by omega)
      have sameG := header_congr (b := g.addr) same fun a ha h => by
        obtain ⟨b, hb, hit⟩ := h
        have after := (List.pairwise_cons.1 bounded.ordered).1 b hb
        unfold Block.fin headerBytes linkBytes at *
        omega
      have roomG := hasRoom_block (sameG.1.trans size) (bounded.bound g List.mem_cons_self)
      refine ⟨m', run, ⟨rfl, sameG.1.trans size, sameG.2.2.trans free, ?_⟩, same.mono fun a ha => ?_,
        List.forall_mem_cons.2 ⟨roomG, room⟩⟩
      · rw [sameG.2.1, next]
        exact now
      · obtain ⟨b, hb, ha⟩ := ha
        exact ⟨b, List.mem_cons_of_mem _ hb, ha⟩

/-- The state's list is `bs`, laid out over `regions`. -/
structure Represents (s : Machine) (regions : List Seg) (bs : List Block) : Prop where
  links : Links s.mem s.heapHead 0 bs
  layout : Layout regions bs

/-- **`heap_coalesce`** coalesces the list and changes sizes and links only. -/
theorem heapCoalesce_spec {s : Machine} {regions : List Seg} {bs : List Block} (h : Represents s regions bs) :
    ∃ m, heapCoalesce s = some { s with mem := m } ∧
      Represents { s with mem := m } regions (coalesce bs) ∧
      SameOutside (fun a => ∃ b ∈ bs, linkBytes b.addr a) s.mem m ∧ ∀ b ∈ bs, HasRoom m b.addr b.size := by
  have layout := (merges_coalesce h.layout).layout h.layout
  have bounded := h.layout.bounded
  have enough := h.layout.length_lt
  have links := h.links
  cases bs with
  | nil =>
    have head : s.heapHead = 0 := links
    have stop : coalesceLoop walkFuel s.mem s.heapHead = some s.mem := by
      obtain ⟨n, eq⟩ : ∃ n, walkFuel = n + 1 := ⟨2 ^ 64 - 1, by decide⟩
      rw [eq, coalesceLoop, if_neg fun h => h.1 head]
    exact ⟨s.mem, by rw [heapCoalesce, stop]; rfl, ⟨links, layout⟩, .refl _ _, by simp⟩
  | cons g cs =>
    have start := links.1
    rw [start] at links
    obtain ⟨m, run, now, same, room⟩ := coalesceLoop_spec links bounded ((Nat.lt_succ_self _).trans enough)
    refine ⟨m, by rw [heapCoalesce, start, run]; rfl, ⟨?_, layout⟩, same, room⟩
    rw [start]
    exact now

/-! ## The search of `kmalloc` -/

/-- The test of the search. -/
def fits (size : Nat) (b : Block) : Bool := b.free && decide (size ≤ b.size)

theorem findFree_spec {m : Mem} {size p fuel : Nat} {bs : List Block} (links : Links m p 0 bs) (bounded : Bounded bs)
    (enough : bs.length < fuel) :
    findFree m size fuel p = some (((bs.find? (fits size)).map Block.addr).getD 0) := by
  induction bs generalizing p fuel with
  | nil =>
    obtain ⟨fuel, rfl⟩ : ∃ n, fuel = n + 1 := ⟨fuel - 1, by omega⟩
    have start : p = 0 := links
    rw [findFree, if_neg (by omega)]
    rfl
  | cons b bs ih =>
    obtain ⟨fuel, rfl⟩ : ∃ n, fuel = n + 1 := ⟨fuel - 1, by omega⟩
    obtain ⟨rfl, sizeb, freeb, rest⟩ := links
    have pos := bounded.positive b List.mem_cons_self
    rw [findFree, if_pos (by omega), sizeb, freeb]
    by_cases hit : b.free = true ∧ size ≤ b.size
    · have found : fits size b = true := by simp [fits, hit.1, hit.2]
      rw [if_pos hit, List.find?_cons_of_pos found]
      rfl
    · have missed : ¬ fits size b = true := by simpa [fits] using hit
      rw [if_neg hit, List.find?_cons_of_neg missed]
      rw [List.length_cons] at enough
      exact ih rest bounded.tail (by omega)

theorem Represents.findFree {s : Machine} {regions : List Seg} {bs : List Block}
    (h : Represents s regions bs) (size : Nat) :
    findFree s.mem size walkFuel s.heapHead = some (((bs.find? (fits size)).map Block.addr).getD 0) :=
  findFree_spec h.links h.layout.bounded h.layout.length_lt

theorem Represents.missing {s : Machine} {regions : List Seg} {bs : List Block}
    (h : Represents s regions bs) {size : Nat} (missing : bs.find? (fits size) = none) :
    Heap.findFree s.mem size walkFuel s.heapHead = some 0 := by
  rw [h.findFree, missing]
  rfl

/-- The first block that fits, with what lies before it. -/
theorem find_split {size : Nat} {bs : List Block} {b : Block} (found : bs.find? (fits size) = some b) :
    ∃ pre post, bs = pre ++ b :: post ∧ b.free = true ∧ size ≤ b.size ∧ ∀ c ∈ pre, fits size c = false := by
  obtain ⟨hit, pre, post, rfl, before⟩ := List.find?_eq_some_iff_append.1 found
  unfold fits at hit
  rw [Bool.and_eq_true, decide_eq_true_eq] at hit
  exact ⟨pre, post, rfl, hit.1, hit.2, fun c hc => by simpa using before c hc⟩

theorem find_first {size : Nat} {pre post : List Block} {b : Block} (free : b.free = true) (fit : size ≤ b.size)
    (before : ∀ c ∈ pre, fits size c = false) : (pre ++ b :: post).find? (fits size) = some b := by
  have hit : fits size b = true := by simp [fits, free, fit]
  exact List.find?_eq_some_iff_append.2 ⟨hit, pre, post, rfl, fun c hc => by simpa using before c hc⟩

/-! ## Taking a block -/

/-- The stores of `heap_split_block` when there is enough to split off. -/
theorem splitMem_links {m : Mem} {b : Block} {need : Nat} (size : blockSize m b.addr = b.size)
    (room : ¬ b.size < need + 24 + 32) (fin : b.fin ≤ 2 ^ 30) :
    let next := b.addr + 24 + need
    let m₁ := setSize m next (b.size - need - 24)
    let m₃ := setFree (setNext m₁ next (blockNext m₁ b.addr)) next 1
    let m₆ := setFree (setNext (setSize m₃ b.addr need) b.addr next) b.addr 0
    Links m₆ b.addr (blockNext m b.addr) [⟨b.addr, need, false⟩, ⟨next, b.size - need - 24, true⟩] ∧
      SameOutside (fun a => b.addr ≤ a ∧ a < b.fin) m m₆ := by
  intro next m₁ m₃ m₆
  unfold Block.fin at *
  have far : ∀ a, headerBytes b.addr a → ¬ headerBytes next a := fun a => by unfold headerBytes; omega
  have out₁ : SameOutside (headerBytes next) m m₁ := setSize_outside _ _ _
  have kept := header_congr out₁ far
  have out₃ : SameOutside (headerBytes next) m₁ m₃ := (setNext_outside _ _ _).trans (setFree_outside _ _ _)
  have out₆ : SameOutside (headerBytes b.addr) m₃ m₆ := header_outside _ _ _ _ _
  have new := header_congr out₆ fun a ha hb => far a hb ha
  refine ⟨⟨rfl, ?_, ?_, ?_⟩, ?_⟩
  · rw [blockSize_setFree, blockSize_setNext, blockSize_setSize, u64_of_lt (by omega)]
  · exact blockFree_setFree _ _ _
  · rw [blockNext_setFree, blockNext_setNext, u64_of_lt (by omega)]
    refine ⟨rfl, ?_, ?_, ?_⟩
    · rw [new.1, blockSize_setFree, blockSize_setNext, blockSize_setSize, u64_of_lt (by omega)]
    · rw [new.2.2]
      exact blockFree_setFree _ _ _
    · rw [new.2.1, blockNext_setFree, blockNext_setNext, kept.2.1, u64_of_lt (blockNext_lt _ _)]
      rfl
  · refine ((out₁.trans out₃).mono fun a ha => ?_).trans (out₆.mono fun a ha => ?_)
    · unfold headerBytes at ha
      omega
    · unfold headerBytes at ha
      omega

/-- **`heap_split_block`** and the mark that `kmalloc` sets afterwards. -/
theorem takeMem_spec {m : Mem} {b : Block} {need : Nat} (size : blockSize m b.addr = b.size) (fin : b.fin ≤ 2 ^ 30)
    (enough : need ≤ b.size) (rounded : need % 16 = 0) :
    Links (setFree (heapSplitBlock m b.addr need) b.addr 0) b.addr (blockNext m b.addr) (carve b need) ∧
      SameOutside (fun a => b.addr ≤ a ∧ a < b.fin) m (setFree (heapSplitBlock m b.addr need) b.addr 0) := by
  have aligned : alignUp need = need := by
    unfold Block.fin at fin
    rw [alignUp_of_lt (by omega)]
    omega
  have bound : need + 56 < 2 ^ 64 := by unfold Block.fin at fin; omega
  unfold heapSplitBlock carve
  simp only [aligned, size, sizeofHeapBlock_eq, heapMinSplit_eq]
  rw [u64_of_lt (n := need + 24) (by omega), u64_of_lt (n := need + 24 + 32) (by omega)]
  by_cases whole : b.size < need + 24 + 32
  · rw [if_pos whole, if_pos whole]
    refine ⟨⟨rfl, ?_, blockFree_setFree _ _ _, ?_⟩, (setFree_outside _ _ _).mono fun a ha => ?_⟩
    · rw [blockSize_setFree, size]
    · rw [blockNext_setFree]
      rfl
    · unfold headerBytes Block.fin at *
      omega
  · have split := splitMem_links size whole fin
    unfold Block.fin at *
    rw [if_neg whole, if_neg whole, u64_of_lt (n := b.addr + 24) (by omega), u64_of_lt (by omega),
      sub64_of_le (a := b.size) (by omega) (by omega), sub64_of_le (by omega) (by omega)]
    exact split

/-- The size that is added to `used_bytes`. -/
def grantedSize (b : Block) (need : Nat) : Nat := if b.size < need + 24 + 32 then b.size else need

theorem usedSum_carve (b : Block) (need : Nat) : usedSum (carve b need) = grantedSize b need := by
  unfold carve grantedSize
  split <;> simp

theorem carve_head (b : Block) (need : Nat) :
    ∃ rest, carve b need = ⟨b.addr, grantedSize b need, false⟩ :: rest ∧ ∀ c ∈ rest, c.free = true := by
  unfold carve grantedSize
  split
  · exact ⟨[], rfl, by simp⟩
  · exact ⟨_, rfl, by simp⟩

theorem takeMem_size {m : Mem} {b : Block} {need : Nat} (size : blockSize m b.addr = b.size) (fin : b.fin ≤ 2 ^ 30)
    (enough : need ≤ b.size) (rounded : need % 16 = 0) :
    blockSize (setFree (heapSplitBlock m b.addr need) b.addr 0) b.addr = grantedSize b need := by
  obtain ⟨links, -⟩ := takeMem_spec size fin enough rounded
  obtain ⟨rest, eq, -⟩ := carve_head b need
  rw [eq] at links
  exact links.2.1

/-- **Taking a block**: `kmalloc` hands out `b`, split if it is large. -/
theorem takeBlock_spec {s : Machine} {regions : List Seg} {pre post : List Block} {b : Block} {need : Nat}
    (h : Represents s regions (pre ++ b :: post)) (enough : need ≤ b.size) (rounded : need % 16 = 0) :
    ∃ m, takeBlock s b.addr need =
        (b.addr + 24, { s with mem := m, usedBytes := u64 (s.usedBytes + grantedSize b need) }) ∧
      Links m s.heapHead 0 (pre ++ carve b need ++ post) ∧
      SameOutside (fun a => b.addr ≤ a ∧ a < b.fin) s.mem m := by
  obtain ⟨-, size, -, -⟩ := links_middle.1 h.links
  have fin := h.layout.fin_le (b := b) (by simp)
  obtain ⟨links, same⟩ := takeMem_spec size fin enough rounded
  have granted := takeMem_size size fin enough rounded
  refine ⟨_, ?_, h.links.replace h.layout same links, same⟩
  unfold takeBlock
  dsimp only
  rw [granted, sizeofHeapBlock_eq, u64_of_lt (by unfold Block.fin at fin; omega)]

/-! ## Growing the heap -/

/-- The pointer `prev` after the blocks `bs`. -/
def lastAddr (prev : Nat) : List Block → Nat
  | [] => prev
  | b :: bs => lastAddr b.addr bs

theorem lastAddr_append (prev : Nat) (bs : List Block) (b : Block) : lastAddr prev (bs ++ [b]) = b.addr := by
  induction bs generalizing prev with
  | nil => rfl
  | cons c bs ih => exact ih c.addr

theorem findPlace_spec {m : Mem} {target prev p fuel : Nat} {pre post : List Block} (links : Links m p 0 (pre ++ post))
    (positive : ∀ x ∈ pre, 0 < x.addr) (below : ∀ x ∈ pre, x.addr < target) (above : ∀ y ∈ post, target ≤ y.addr)
    (enough : pre.length < fuel) : findPlace m target fuel prev p = some (lastAddr prev pre, firstAddr post) := by
  induction pre generalizing prev p fuel with
  | nil =>
    obtain ⟨fuel, rfl⟩ : ∃ n, fuel = n + 1 := ⟨fuel - 1, by omega⟩
    obtain rfl := links.first
    have stop : ¬ (firstAddr post ≠ 0 ∧ firstAddr post < target) := by
      cases post with
      | nil => exact fun h => h.1 rfl
      | cons y post =>
        have := above y List.mem_cons_self
        intro h
        rw [firstAddr] at h
        omega
    rw [findPlace]
    exact if_neg stop
  | cons b pre ih =>
    obtain ⟨fuel, rfl⟩ : ∃ n, fuel = n + 1 := ⟨fuel - 1, by omega⟩
    rw [List.length_cons] at enough
    obtain ⟨rfl, -, -, rest⟩ := links
    have pos := positive b List.mem_cons_self
    have low := below b List.mem_cons_self
    rw [findPlace, if_pos (by omega)]
    exact ih rest (fun x hx => positive x (List.mem_cons_of_mem _ hx)) (fun x hx => below x (List.mem_cons_of_mem _ hx))
      (by omega)

/-- **`heap_append_block`** puts the block in at its place. -/
theorem heapAppendBlock_spec {s : Machine} {bs : List Block} {b : Block} (links : Links s.mem s.heapHead 0 bs)
    (bounded : Bounded bs) (enough : bs.length < walkFuel) (size : blockSize s.mem b.addr = b.size)
    (free : blockFree s.mem b.addr = b.free) (next : blockNext s.mem b.addr = 0) (bound : b.addr < 2 ^ 64)
    (apart : ∀ c ∈ bs, c.addr + 24 ≤ b.addr ∨ b.addr + 24 ≤ c.addr) :
    ∃ m head, heapAppendBlock s b.addr = some { s with mem := m, heapHead := head } ∧
      Links m head 0 (insertBlock b bs) ∧
      SameOutside (fun a => headerBytes b.addr a ∨ ∃ c ∈ bs, headerBytes c.addr a) s.mem m := by
  have start := links.first
  by_cases empty : s.heapHead = 0
  · have nil : bs = [] := by
      cases bs with
      | nil => rfl
      | cons c bs =>
        have := bounded.positive c List.mem_cons_self
        rw [firstAddr] at start
        omega
    subst nil
    refine ⟨s.mem, b.addr, by rw [heapAppendBlock, if_pos empty], ⟨rfl, size, free, next⟩, .refl _ _⟩
  · obtain ⟨pre, post, rfl, below, above⟩ := exists_place bounded.ordered b.addr
    rw [List.length_append] at enough
    have place := @findPlace_spec s.mem b.addr 0 s.heapHead walkFuel pre post links
      (fun x hx => bounded.positive x (by simp [hx])) below above (by omega)
    rw [heapAppendBlock, if_neg empty, place, insertBlock_eq below above]
    dsimp only
    obtain ⟨r, before, after⟩ := links_append.1 links
    obtain rfl := after.first
    have small : firstAddr post < 2 ^ 64 := by
      cases post with
      | nil => exact Nat.two_pow_pos 64
      | cons y post =>
        have := bounded.bound y (by simp)
        unfold Block.fin at this
        rw [firstAddr]
        omega
    have out₁ := setNext_outside s.mem b.addr (firstAddr post)
    have clear₁ : ∀ c ∈ pre ++ post, ∀ a, headerBytes c.addr a → ¬ headerBytes b.addr a := by
      intro c hc a
      have := apart c hc
      unfold headerBytes
      omega
    rcases List.eq_nil_or_concat' pre with rfl | ⟨pre, x, rfl⟩
    · refine ⟨_, b.addr, if_pos rfl, ⟨rfl, ?_, ?_, ?_⟩, out₁.mono fun a ha => .inl ha⟩
      · rw [blockSize_setNext, size]
      · rw [blockFree_setNext, free]
      · rw [blockNext_setNext, u64_of_lt small]
        exact after.congr out₁ clear₁
    · have pos := bounded.positive x (by simp)
      rw [lastAddr_append, if_neg (by omega)]
      have out₂ := setNext_outside (setNext s.mem b.addr (firstAddr post)) x.addr b.addr
      have farB := header_congr (b := b.addr) out₂ fun a ha hx => clear₁ x (by simp) a hx ha
      have farX := header_congr (b := x.addr) out₁ fun a ha => clear₁ x (by simp) a ha
      have both := (out₁.mono (Q := fun a => headerBytes b.addr a ∨ headerBytes x.addr a) fun a ha => .inl ha).trans
        (out₂.mono fun a ha => .inr ha)
      obtain ⟨beforeX, afterX, cross⟩ := List.pairwise_append.1 bounded.ordered
      have underX := (List.pairwise_append.1 beforeX).2.2
      obtain ⟨r, links₀, rfl, sizeX, freeX, -⟩ := links_append.1 before
      refine ⟨_, s.heapHead, rfl, ?_, both.mono fun a ha => ?_⟩
      · refine links_append.2 ⟨b.addr, links_append.2 ⟨x.addr, ?_, rfl, ?_, ?_, ?_⟩, rfl, ?_, ?_, ?_⟩
        · refine links₀.congr both fun c hc a ha h => ?_
          rcases h with hb | hx
          · exact clear₁ c (by simp [hc]) a ha hb
          · have := underX c hc x (by simp)
            unfold headerBytes Block.fin at *
            omega
        · rw [blockSize_setNext, farX.1, sizeX]
        · rw [blockFree_setNext, farX.2.2, freeX]
        · exact (blockNext_setNext _ _ _).trans (u64_of_lt bound)
        · rw [farB.1, blockSize_setNext, size]
        · rw [farB.2.2, blockFree_setNext, free]
        · rw [farB.2.1, blockNext_setNext, u64_of_lt small]
          refine after.congr both fun c hc a ha h => ?_
          rcases h with hb | hx
          · exact clear₁ c (by simp [hc]) a ha hb
          · have := cross x (by simp) c hc
            unfold headerBytes Block.fin at *
            omega
      · rcases ha with hb | hx
        · exact .inl hb
        · exact .inr ⟨x, by simp, hx⟩

/-- The block that `heap_expand` makes of a region. -/
def regionBlock (region pages : Nat) : Block := ⟨region, pages * 4096 - 24, true⟩

/-- The region. -/
def regionSeg (region pages : Nat) : Seg := ⟨region, region + pages * 4096⟩

theorem newBlock_spec (m : Mem) {region pages : Nat} (positive : 0 < pages) (bound : pages * 4096 < 2 ^ 64) :
    blockSize (newBlock m region pages) region = pages * 4096 - 24 ∧
      blockFree (newBlock m region pages) region = true ∧ blockNext (newBlock m region pages) region = 0 ∧
      SameOutside (headerBytes region) m (newBlock m region pages) := by
  refine ⟨?_, blockFree_setFree _ _ _, ?_, ?_⟩
  · rw [newBlock, blockSize_setFree, blockSize_setNext, blockSize_setSize, heapPageSize_eq, sizeofHeapBlock_eq,
      u64_of_lt bound, sub64_of_le (by omega) bound, u64_of_lt (by omega)]
  · rw [newBlock, blockNext_setFree, blockNext_setNext]
    rfl
  · exact header_outside _ _ _ _ _

/-- **`heap_expand`** when the frame allocator has no run. -/
theorem heapExpand_failed {s : Machine} {size : Nat} (none : (Pmm.pmmAllocFrames s.pmm (expandPages size)).1 = 0) :
    heapExpand s size = some (0, { s with pmm := (Pmm.pmmAllocFrames s.pmm (expandPages size)).2 }) := by
  unfold heapExpand
  dsimp only
  rw [if_pos none]

/-- **`heap_expand`** with the region it got: the region's block goes to its place and the
list is coalesced. -/
theorem heapExpand_spec {s : Machine} {regions : List Seg} {bs : List Block} (h : Represents s regions bs)
    {size region : Nat} {pmm : Pmm.State} (got : Pmm.pmmAllocFrames s.pmm (expandPages size) = (region, pmm))
    (some' : region ≠ 0) (positive : 0 < expandPages size)
    (pages : Pages (regionSeg region (expandPages size) :: regions))
    (apart : ∀ a, (regionSeg region (expandPages size)).Has a → ¬ Cover regions a) :
    ∃ m head, heapExpand s size = some (region, { s with
        mem := m, heapHead := head, totalBytes := u64 (s.totalBytes + (expandPages size * 4096 - 24)), pmm }) ∧
      Represents { s with
        mem := m, heapHead := head, totalBytes := u64 (s.totalBytes + (expandPages size * 4096 - 24)), pmm }
        (regionSeg region (expandPages size) :: regions)
        (coalesce (insertBlock (regionBlock region (expandPages size)) bs)) ∧
      Layout (regionSeg region (expandPages size) :: regions)
        (insertBlock (regionBlock region (expandPages size)) bs) ∧
      SameOutside (fun a => Cover (regionSeg region (expandPages size) :: regions) a) s.mem m ∧
      HasRoom m region (expandPages size * 4096 - 24) := by
  generalize eq : expandPages size = n at *
  have inside : region + n * 4096 ≤ 2 ^ 30 := pages.bound _ List.mem_cons_self
  obtain ⟨size₁, free₁, next₁, out₁⟩ := @newBlock_spec s.mem region n positive (by omega)
  have covered : ∀ c ∈ bs, ∀ a, headerBytes c.addr a → Cover regions a := fun c hc a ha => by
    refine (h.layout.tiles.cover a).1 ⟨c.seg, List.mem_map_of_mem hc, ?_⟩
    unfold headerBytes at ha
    unfold Block.seg Block.fin Seg.Has
    dsimp only
    omega
  have own : ∀ a, headerBytes region a → (regionSeg region n).Has a := fun a ha => by
    unfold headerBytes at ha
    unfold regionSeg Seg.Has
    dsimp only
    omega
  have far : ∀ c ∈ bs, ∀ a, headerBytes c.addr a → ¬ headerBytes region a :=
    fun c hc a ha hr => apart a (own a hr) (covered c hc a ha)
  have layout : Layout (regionSeg region n :: regions) (insertBlock (regionBlock region n) bs) := by
    obtain ⟨pre, post, rfl, below, above⟩ := exists_place h.layout.ordered region
    rw [insertBlock_eq below above]
    refine h.layout.inserted pages ?_ apart below above
    unfold regionBlock regionSeg Block.seg Block.fin
    simp only [Seg.mk.injEq, true_and]
    omega
  have links₁ := h.links.congr out₁ far
  obtain ⟨m₂, head, append, links₂, out₂⟩ := heapAppendBlock_spec (b := regionBlock region n) (s := { s with
      mem := newBlock s.mem region n, totalBytes := u64 (s.totalBytes + (n * 4096 - 24)), pmm })
    links₁ h.layout.bounded h.layout.length_lt size₁ free₁ next₁ (by unfold regionBlock; dsimp only; omega)
    (fun c hc => by
      by_contra overlap
      refine far c hc (max c.addr region) ?_ ?_
      · unfold headerBytes regionBlock at *
        dsimp only at *
        omega
      · unfold headerBytes regionBlock at *
        dsimp only at *
        omega)
  obtain ⟨m₃, run, now, out₃, room⟩ := heapCoalesce_spec (s := { s with
      mem := m₂, heapHead := head, totalBytes := u64 (s.totalBytes + (n * 4096 - 24)), pmm }) ⟨links₂, layout⟩
  have member : regionBlock region n ∈ insertBlock (regionBlock region n) bs := by
    unfold insertBlock
    simp
  refine ⟨m₃, head, ?_, now, layout, ?_, room _ member⟩
  · have block : blockSize (newBlock s.mem region n) region = n * 4096 - 24 := size₁
    have append' : heapAppendBlock _ region = _ := append
    simp only [heapExpand, eq, got, if_neg some', block, append', run, Option.map_some]
  · have cover : ∀ c ∈ insertBlock (regionBlock region n) bs, ∀ a, headerBytes c.addr a →
        Cover (regionSeg region n :: regions) a := fun c hc a ha => by
      refine (layout.tiles.cover a).1 ⟨c.seg, List.mem_map_of_mem hc, ?_⟩
      unfold headerBytes at ha
      unfold Block.seg Block.fin Seg.Has
      dsimp only
      omega
    refine ((out₁.mono fun a ha => ?_).trans (out₂.mono fun a ha => ?_)).trans (out₃.mono fun a ha => ?_)
    · rw [cover_cons]
      exact .inl (own a ha)
    · rw [cover_cons]
      rcases ha with ha | ⟨c, hc, ha⟩
      · exact .inl (own a ha)
      · exact .inr (covered c hc a ha)
    · obtain ⟨c, hc, ha⟩ := ha
      exact cover c hc a ha.header

end SimpleKernel.Heap
