import SimpleKernel.Heap.Chain
import SimpleKernel.Pmm.Ledger

/-!
# Well-formed heaps

The representation invariant of `heap.c`: the list in memory tiles the regions and
`used_bytes` is the sum of the sizes handed out. Requests served from the list and
`kfree` of a live pointer keep it and leave the other live payloads alone.
-/

namespace SimpleKernel.Heap
set_option autoImplicit false
open Lib

/-- The representation invariant. -/
structure WellFormed (s : Machine) (regions : List Seg) (bs : List Block) : Prop extends Represents s regions bs where
  used : s.usedBytes = usedSum bs

/-- `kmalloc(size)` finds a block on the list. -/
def Served (bs : List Block) (size : Nat) : Prop := size ≠ 0 ∧ ∃ b ∈ bs, b.free = true ∧ alignUp size ≤ b.size

/-- The block marked free again. -/
def Block.freed (b : Block) : Block := { b with free := true }

/-- A live payload is apart from the span of another block. -/
theorem Layout.payload_apart {regions : List Seg} {bs : List Block} {b c : Block} (layout : Layout regions bs)
    (hb : b ∈ bs) (hc : c ∈ bs) (ne : c ≠ b) {a : Nat} (lo : c.addr + 24 ≤ a) (hi : a < c.fin) :
    ¬ (b.addr ≤ a ∧ a < b.fin) := by
  have := layout.apart hc hb ne
  unfold Block.fin at *
  omega

/-- No payload has a byte of a header. -/
theorem Layout.payload_not_header {regions : List Seg} {bs : List Block} {c : Block} (layout : Layout regions bs)
    (hc : c ∈ bs) {a : Nat} (lo : c.addr + 24 ≤ a) (hi : a < c.fin) : ¬ ∃ b ∈ bs, headerBytes b.addr a := by
  intro hit
  obtain ⟨b, hb, ha⟩ := hit
  by_cases same : c = b
  · subst same
    unfold headerBytes at ha
    omega
  · refine layout.payload_apart hb hc same lo hi ?_
    unfold headerBytes at ha
    unfold Block.fin
    omega

/-- **`kmalloc` served from the list**: the first block that fits is carved. -/
theorem kmalloc_found {s : Machine} {regions : List Seg} {pre post : List Block} {b : Block} {size : Nat}
    (h : WellFormed s regions (pre ++ b :: post)) (nonzero : size ≠ 0) (free : b.free = true)
    (fit : alignUp size ≤ b.size) (before : ∀ c ∈ pre, fits (alignUp size) c = false) :
    ∃ s', kmalloc s size = some (b.addr + 24, s') ∧ WellFormed s' regions (pre ++ carve b (alignUp size) ++ post) ∧
      s'.pmm = s.pmm ∧ s'.totalBytes = s.totalBytes ∧
      SameOutside (fun a => b.addr ≤ a ∧ a < b.fin) s.mem s'.mem := by
  have bounded := h.layout.bounded
  have pos := bounded.positive b (by simp)
  have search := h.findFree (alignUp size)
  rw [find_first free fit before] at search
  obtain ⟨m, take, links, same⟩ := takeBlock_spec h.toRepresents fit (alignUp_mod size)
  have layout := h.layout.carved (alignUp size)
  have sum := layout.usedSum_le
  rw [usedSum_append, usedSum_append, usedSum_carve] at sum
  refine ⟨{ s with mem := m, usedBytes := u64 (s.usedBytes + grantedSize b (alignUp size)) }, ?_,
    ⟨⟨links, layout⟩, ?_⟩, rfl, rfl, same⟩
  · rw [kmalloc, if_neg nonzero]
    dsimp only
    rw [search]
    dsimp only [Option.map_some, Option.getD_some]
    rw [if_pos (by omega), take]
  · dsimp only
    rw [h.used, usedSum_append, usedSum_cons, free, usedSum_append, usedSum_append, usedSum_carve, if_pos rfl,
      u64_of_lt (by omega)]
    omega

theorem found_of_served {bs : List Block} {size : Nat} (served : Served bs size) :
    ∃ b, bs.find? (fits (alignUp size)) = some b := by
  obtain ⟨-, b, hb, free, enough⟩ := served
  refine Option.isSome_iff_exists.1 (List.find?_isSome.2 ⟨b, hb, ?_⟩)
  simp [fits, free, enough]

/-- The bytes that `kfree` of the block `b` may write. -/
def kfreeBytes (bs : List Block) (b : Block) (a : Nat) : Prop := a = b.addr + 16 ∨ ∃ c ∈ bs, linkBytes c.addr a

theorem kfreeBytes.header {bs : List Block} {b : Block} {a : Nat} (h : kfreeBytes bs b a) (member : b ∈ bs) :
    ∃ c ∈ bs, headerBytes c.addr a := by
  rcases h with rfl | ⟨c, hc, ha⟩
  · exact ⟨b, member, by unfold headerBytes; omega⟩
  · exact ⟨c, hc, ha.header⟩

/-- **`kfree` of a live pointer.** -/
theorem kfree_live {s : Machine} {regions : List Seg} {pre post : List Block} {b : Block}
    (h : WellFormed s regions (pre ++ b :: post)) (live : b.free = false) :
    ∃ s', kfree s (b.addr + 24) = some s' ∧ WellFormed s' regions (coalesce (pre ++ b.freed :: post)) ∧
      Merges (pre ++ b.freed :: post) (coalesce (pre ++ b.freed :: post)) ∧ s'.pmm = s.pmm ∧
      s'.totalBytes = s.totalBytes ∧ SameOutside (kfreeBytes (pre ++ b :: post) b) s.mem s'.mem ∧
      blockFree s'.mem b.addr = true := by
  obtain ⟨-, size, free, -⟩ := links_middle.1 h.links
  have fin := h.layout.fin_le (b := b) (by simp)
  have layout : Layout regions (pre ++ b.freed :: post) := h.layout.remark true
  have merges := merges_coalesce layout
  have block : sub64 (b.addr + 24) sizeofHeapBlock = b.addr := by
    unfold Block.fin at fin
    rw [sizeofHeapBlock_eq, sub64_of_le (by omega) (by omega)]
    omega
  have out : SameOutside (fun a => a = b.addr + 16) s.mem (setFree s.mem b.addr 1) := storeByte_same_outside _ _ _
  have links : Links (setFree s.mem b.addr 1) s.heapHead 0 (pre ++ [b.freed] ++ post) := by
    refine h.links.replace h.layout (out.mono fun a ha => ?_) ⟨rfl, ?_, blockFree_setFree _ _ _, ?_⟩
    · unfold Block.fin
      omega
    · exact (blockSize_setFree _ _ _).trans size
    · exact blockNext_setFree _ _ _
  rw [List.append_assoc, List.singleton_append] at links
  have le : b.size ≤ s.usedBytes := by
    rw [h.used, usedSum_append, usedSum_cons, live]
    simp
    omega
  have sum := h.layout.usedSum_le
  obtain ⟨m, run, now, same, -⟩ := heapCoalesce_spec (s := { s with
    mem := setFree s.mem b.addr 1, usedBytes := sub64 s.usedBytes b.size }) ⟨links, layout⟩
  refine ⟨_, ?_, ⟨now, ?_⟩, merges, rfl, rfl, (out.mono fun a ha => .inl ha).trans (same.mono fun a ha => ?_), ?_⟩
  · rw [kfree, if_neg (by omega)]
    dsimp only
    rw [block, if_pos (free.trans live), size, run]
  · dsimp only
    rw [merges.usedSum_eq, usedSum_append, usedSum_cons, sub64_of_le le (by rw [h.used]; omega), h.used, usedSum_append,
      usedSum_cons, live]
    simp [Block.freed]
    omega
  · obtain ⟨c, hc, ha⟩ := ha
    simp only [List.mem_append, List.mem_cons] at hc
    rcases hc with hc | rfl | hc
    · exact .inr ⟨c, by simp [hc], ha⟩
    · exact .inr ⟨b, by simp, ha⟩
    · exact .inr ⟨c, by simp [hc], ha⟩
  · have kept := same (b.addr + 16) fun hit => by
      obtain ⟨c, hc, ha⟩ := hit
      unfold linkBytes at ha
      by_cases self : c = b.freed
      · rw [self, Block.freed] at ha
        dsimp only at ha
        omega
      · have apart := layout.apart hc (c := b.freed) (by simp) self
        unfold Block.fin Block.freed at apart
        dsimp only at apart
        omega
    rw [blockFree]
    dsimp only at kept ⊢
    rw [kept]
    exact blockFree_setFree _ _ _

/-- **The block-list invariant.** A request served from the list and `kfree` of a live
pointer keep the heap well formed over the same regions, with every other live block as
it was; coalescing joins touching blocks only. -/
theorem block_list_invariant (s : Machine) (regions : List Seg) (bs : List Block) (h : WellFormed s regions bs) :
    (∀ size, size < 2 ^ 64 → Served bs size → ∃ p s' bs', kmalloc s size = some (p, s') ∧ p ≠ 0 ∧
      s'.pmm = s.pmm ∧ WellFormed s' regions bs' ∧
      ∀ c ∈ bs, c.free = false → c ∈ bs' ∧ ∀ a, c.addr + 24 ≤ a → a < c.fin → s'.mem a = s.mem a) ∧
    (∀ pre b post, bs = pre ++ b :: post → b.free = false → ∃ s' bs', kfree s (b.addr + 24) = some s' ∧
      WellFormed s' regions bs' ∧ Merges (pre ++ b.freed :: post) bs' ∧
      ∀ c ∈ bs, c.free = false → c ≠ b → c ∈ bs' ∧ ∀ a, c.addr + 24 ≤ a → a < c.fin → s'.mem a = s.mem a) := by
  constructor
  · intro size _ served
    obtain ⟨b, found⟩ := found_of_served served
    obtain ⟨pre, post, rfl, free, fit, before⟩ := find_split found
    obtain ⟨s', run, well, pmm, -, same⟩ := kmalloc_found h served.1 free fit before
    refine ⟨b.addr + 24, s', _, run, by omega, pmm, well, fun c hc live => ?_⟩
    have ne : c ≠ b := fun eq => by rw [eq, free] at live; cases live
    refine ⟨?_, fun a lo hi => same a (h.layout.payload_apart (by simp) hc ne lo hi)⟩
    simp only [List.mem_append, List.mem_cons, ne, false_or] at hc
    simp only [List.mem_append]
    tauto
  · intro pre b post eq live
    subst eq
    obtain ⟨s', run, well, merges, -, -, same, -⟩ := kfree_live h live
    refine ⟨s', _, run, well, merges, fun c hc liveC ne => ?_⟩
    refine ⟨(merges.used_iff liveC).2 ?_, fun a lo hi => same a fun hit =>
      h.layout.payload_not_header hc lo hi (hit.header (by simp))⟩
    simp only [List.mem_append, List.mem_cons, ne, false_or] at hc ⊢
    tauto

/-- A heap of one page at 1 MiB, nothing handed out. -/
def pageHeap : Machine where
  mem := newBlock (fun _ => 0) 0x100000 1
  heapHead := 0x100000
  totalBytes := 4072
  usedBytes := 0
  pmm := Pmm.bss

theorem pageHeap_wellFormed : WellFormed pageHeap [⟨0x100000, 0x101000⟩] [⟨0x100000, 4072, true⟩] := by
  obtain ⟨size, free, next, -⟩ := @newBlock_spec (fun _ => 0) 0x100000 1 (by decide) (by decide)
  refine ⟨⟨⟨rfl, size, free, next⟩, ⟨⟨?_, ?_, ?_⟩, ⟨?_, ?_, fun a => Iff.rfl⟩⟩⟩, rfl⟩
  · simp
  · simp
  · simp
  · simp [Block.fin]
  · simp

theorem block_list_invariant_page : ∃ p s' bs', kmalloc pageHeap 64 = some (p, s') ∧ p ≠ 0 ∧
    WellFormed s' [⟨0x100000, 0x101000⟩] bs' := by
  have served : Served [⟨0x100000, 4072, true⟩] 64 := ⟨by decide, _, List.mem_singleton_self _, rfl, by decide⟩
  obtain ⟨p, s', bs', run, block, -, well, -⟩ :=
    (block_list_invariant _ _ _ pageHeap_wellFormed).1 64 (by decide) served
  exact ⟨p, s', bs', run, block, well⟩

end SimpleKernel.Heap
