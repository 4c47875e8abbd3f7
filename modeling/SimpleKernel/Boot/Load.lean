import SimpleKernel.Boot.Stage2
import Mathlib.Tactic.Common

/-!
# `load_kernel`

The kernel is read in chunks of at most 127 sectors; what is left, the segment and the block
address are kept in variables behind the code. The segment is a word, so the chunk from
sector 2032 on does not go where it should: `load_kernel` is right for kernels up to that
size (`nextChunk_ends`). Addresses are linear and the firmware stores wherever it is asked to.
-/

namespace SimpleKernel.Boot
set_option autoImplicit false
open Lib

/-! ## The loader -/

/-- The variables of `load_kernel` follow `memory_map_count`, and stage 2 ends with them. -/
structure DiskLabels extends Labels where
  reach : memoryMapCount + 30 ≤ 0x10000

namespace DiskLabels

def kernelSectorsLeft (v : DiskLabels) : Nat := v.memoryMapCount + 2
def kernelSegment (v : DiskLabels) : Nat := v.memoryMapCount + 4
def kernelLbaLow (v : DiskLabels) : Nat := v.memoryMapCount + 6
def kernelLbaHigh (v : DiskLabels) : Nat := v.memoryMapCount + 10
def packetCount (v : DiskLabels) : Nat := v.memoryMapCount + 16
def packetOffset (v : DiskLabels) : Nat := v.memoryMapCount + 18
def packetSegment (v : DiskLabels) : Nat := v.memoryMapCount + 20
def packetLbaLow (v : DiskLabels) : Nat := v.memoryMapCount + 22
def packetLbaHigh (v : DiskLabels) : Nat := v.memoryMapCount + 26
def top (v : DiskLabels) : Nat := v.memoryMapCount + 30

theorem places (v : DiskLabels) : v.kernelSectorsLeft = v.memoryMapCount + 2 ∧ v.kernelSegment = v.memoryMapCount + 4 ∧
    v.kernelLbaLow = v.memoryMapCount + 6 ∧ v.kernelLbaHigh = v.memoryMapCount + 10 ∧
    v.packetCount = v.memoryMapCount + 16 ∧ v.packetLbaLow = v.memoryMapCount + 22 ∧ v.top = v.memoryMapCount + 30 :=
  ⟨rfl, rfl, rfl, rfl, rfl, rfl, rfl⟩

end DiskLabels

def kernelLoadSegment : Nat := 0x1000

/-- The bytes of each sector. -/
abbrev Disk := Nat → Nat → BitVec 8

/-- What `disk_packet` asks for. -/
structure DiskRead where
  count : Nat
  offset : Nat
  segment : Nat
  lba : Nat

def DiskRead.address (r : DiskRead) : Nat := r.segment * 16 + r.offset

/-- The read goes to bytes of stage 2. -/
def DiskRead.Overwrites (v : DiskLabels) (r : DiskRead) : Prop := r.address < v.top ∧ 0x8000 < r.address + 512 * r.count

instance (v : DiskLabels) (r : DiskRead) : Decidable (r.Overwrites v) := inferInstanceAs (Decidable (_ ∧ _))

/-- `.next_chunk` up to the call. -/
def fillPacket (v : DiskLabels) (m : Mem) : Mem :=
  let ax := loadLE m v.kernelSectorsLeft 2
  let ax := if ax ≤ 127 then ax else 127
  let m := storeLE m v.packetCount 2 ax
  let m := storeLE m v.packetOffset 2 0
  let m := storeLE m v.packetSegment 2 (loadLE m v.kernelSegment 2)
  let m := storeDword m v.packetLbaLow (loadLE m v.kernelLbaLow 4)
  storeDword m v.packetLbaHigh (loadLE m v.kernelLbaHigh 4)

def diskPacket (v : DiskLabels) (m : Mem) : DiskRead where
  count := loadLE m v.packetCount 2
  offset := loadLE m v.packetOffset 2
  segment := loadLE m v.packetSegment 2
  lba := loadLE m v.packetLbaLow 4 + 2 ^ 32 * loadLE m v.packetLbaHigh 4

/-- `int 0x13` with `ah = 0x42`, when it succeeds. -/
def transfer (disk : Disk) (r : DiskRead) (m : Mem) : Mem := fun x =>
  if r.address ≤ x ∧ x < r.address + 512 * r.count then disk (r.lba + (x - r.address) / 512) ((x - r.address) % 512)
  else m x

/-- The variables after a read; `mov` leaves the carry of the addition to `adc`. -/
def advanceChunk (v : DiskLabels) (m : Mem) : Mem :=
  let eax := loadLE m v.packetCount 2
  let m := storeLE m v.kernelSectorsLeft 2 (loadLE m v.kernelSectorsLeft 2 + 2 ^ 16 - eax)
  let m := storeLE m v.kernelSegment 2 (loadLE m v.kernelSegment 2 + eax * 32)
  let eax := loadLE m v.packetLbaLow 4
  let ecx := loadLE m v.packetCount 2
  let m := storeDword m v.kernelLbaLow (eax + ecx)
  storeDword m v.kernelLbaHigh (loadLE m v.kernelLbaHigh 4 + (eax + ecx) / 2 ^ 32)

/-- How `load_kernel` ends. Once a read has replaced code or variables of stage 2, its source
does not say what happens; no read gets to the stack before one gets here. -/
inductive Loading where
  | loadError
  | returned (mem : Mem) (reads : List DiskRead)
  | overwritten

/-- `.next_chunk`, a chunk a unit of fuel. The firmware fails the read after `n` others if
`refuses n`. -/
def nextChunk (v : DiskLabels) (disk : Disk) (refuses : Nat → Bool) : Nat → List DiskRead → Mem → Option Loading
  | 0, _, _ => none
  | fuel + 1, reads, m =>
    if loadLE m v.kernelSectorsLeft 2 = 0 then some (.returned m reads)
    else
      let m := fillPacket v m
      let r := diskPacket v m
      if refuses reads.length then some .loadError
      else if r.Overwrites v then some .overwritten
      else nextChunk v disk refuses fuel (reads ++ [r]) (advanceChunk v (transfer disk r m))

/-- `kernelStartLba` is `KERNEL_START_LBA`. -/
def loadKernel (k : Build) (kernelStartLba : BitVec 32) (v : DiskLabels) (disk : Disk)
    (refuses : Nat → Bool) (fuel : Nat) (m : Mem) : Option Loading :=
  let m := storeDword m v.kernelLbaLow kernelStartLba.toNat
  let m := storeDword m v.kernelLbaHigh 0
  let m := storeLE m v.kernelSectorsLeft 2 k.kernelSectors
  let m := storeLE m v.kernelSegment 2 kernelLoadSegment
  nextChunk v disk refuses fuel [] m

/-! ## One chunk -/

section

variable {v : DiskLabels} {m : Mem}

theorem fillPacket_outside : SameOutside (fun x => v.packetCount ≤ x ∧ x < v.top) m (fillPacket v m) := by
  unfold fillPacket storeDword DiskLabels.top DiskLabels.packetCount DiskLabels.packetOffset DiskLabels.packetSegment
    DiskLabels.packetLbaLow DiskLabels.packetLbaHigh
  intro x outside
  rw [storeLE_out (by omega), storeLE_out (by omega), storeLE_out (by omega), storeLE_out (by omega),
    storeLE_out (by omega)]

theorem diskPacket_fillPacket : diskPacket v (fillPacket v m) =
    { count := min (loadLE m v.kernelSectorsLeft 2) 127, offset := 0, segment := loadLE m v.kernelSegment 2,
      lba := loadLE m v.kernelLbaLow 4 + 2 ^ 32 * loadLE m v.kernelLbaHigh 4 } := by
  have segment := loadLE_lt m (v.memoryMapCount + 4) 2
  have low := loadLE_lt m (v.memoryMapCount + 6) 4
  have high := loadLE_lt m (v.memoryMapCount + 10) 4
  have count : (if loadLE m (v.memoryMapCount + 2) 2 ≤ 127 then loadLE m (v.memoryMapCount + 2) 2 else 127) =
      min (loadLE m (v.memoryMapCount + 2) 2) 127 := by
    split <;> omega
  have small : min (loadLE m (v.memoryMapCount + 2) 2) 127 < 256 ^ 2 :=
    Nat.lt_of_le_of_lt (Nat.min_le_right _ _) (by decide)
  unfold diskPacket fillPacket storeDword DiskLabels.packetCount DiskLabels.packetOffset DiskLabels.packetSegment
    DiskLabels.packetLbaLow DiskLabels.packetLbaHigh DiskLabels.kernelSectorsLeft DiskLabels.kernelSegment
    DiskLabels.kernelLbaLow DiskLabels.kernelLbaHigh
  dsimp only
  rw [count]
  simp (disch := omega) only [loadLE_storeLE_apart, loadLE_storeLE_same]
  rw [Nat.mod_eq_of_lt small, Nat.mod_eq_of_lt segment, Nat.mod_eq_of_lt low, Nat.mod_eq_of_lt high, Nat.zero_mod]

theorem advanceChunk_outside :
    SameOutside (fun x => v.kernelSectorsLeft ≤ x ∧ x < v.packetCount) m (advanceChunk v m) := by
  unfold advanceChunk storeDword DiskLabels.packetCount DiskLabels.packetLbaLow DiskLabels.kernelSectorsLeft
    DiskLabels.kernelSegment DiskLabels.kernelLbaLow DiskLabels.kernelLbaHigh
  intro x outside
  rw [storeLE_out (by omega), storeLE_out (by omega), storeLE_out (by omega), storeLE_out (by omega)]

/-- **The variables move on together.** -/
theorem advanceChunk_vars :
    loadLE (advanceChunk v m) v.kernelSectorsLeft 2 =
        (loadLE m v.kernelSectorsLeft 2 + 2 ^ 16 - loadLE m v.packetCount 2) % 2 ^ 16 ∧
      loadLE (advanceChunk v m) v.kernelSegment 2 =
        (loadLE m v.kernelSegment 2 + loadLE m v.packetCount 2 * 32) % 2 ^ 16 ∧
      loadLE (advanceChunk v m) v.kernelLbaLow 4 = (loadLE m v.packetLbaLow 4 + loadLE m v.packetCount 2) % 2 ^ 32 ∧
      loadLE (advanceChunk v m) v.kernelLbaHigh 4 =
        (loadLE m v.kernelLbaHigh 4 + (loadLE m v.packetLbaLow 4 + loadLE m v.packetCount 2) / 2 ^ 32) % 2 ^ 32 := by
  unfold advanceChunk storeDword DiskLabels.packetCount DiskLabels.packetLbaLow DiskLabels.kernelSectorsLeft
    DiskLabels.kernelSegment DiskLabels.kernelLbaLow DiskLabels.kernelLbaHigh
  dsimp only
  simp (disch := omega) only [loadLE_storeLE_apart, loadLE_storeLE_same]
  exact ⟨rfl, rfl, rfl, rfl⟩

theorem transfer_out {disk : Disk} {r : DiskRead} {x : Nat}
    (outside : ¬ (r.address ≤ x ∧ x < r.address + 512 * r.count)) : transfer disk r m x = m x := if_neg outside

/-- A read that keeps off stage 2 leaves its variables. -/
theorem loadLE_transfer {disk : Disk} {r : DiskRead} {a n : Nat} (safe : ¬ r.Overwrites v) (lower : 0x8000 ≤ a)
    (upper : a + n ≤ v.top) : loadLE (transfer disk r m) a n = loadLE m a n := by
  apply loadLE_congr
  intro x lo hi
  apply transfer_out
  intro hit
  exact safe ⟨by omega, by omega⟩

end

/-! ## All chunks -/

section

variable {k : Build} {start : BitVec 32} {v : DiskLabels} {disk : Disk} {refuses : Nat → Bool}
  {m₀ m : Mem} {n fuel : Nat}

/-- The sectors of the first `n` chunks. -/
def loaded (k : Build) (n : Nat) : Nat := min (127 * n) k.kernelSectors

/-- The read after `n` others. -/
def chunk (k : Build) (start : BitVec 32) (n : Nat) : DiskRead where
  count := min (k.kernelSectors - loaded k n) 127
  offset := 0
  segment := (kernelLoadSegment + 32 * loaded k n) % 2 ^ 16
  lba := start.toNat + loaded k n

/-- The first `d` sectors are in place, and besides them and the variables nothing has changed. -/
structure ImageIs (start : BitVec 32) (v : DiskLabels) (disk : Disk) (d : Nat) (m₀ m : Mem) : Prop where
  bytes : ∀ i, i < 512 * d → m (0x10000 + i) = disk (start.toNat + i / 512) (i % 512)
  outside : SameOutside (fun x => (v.kernelSectorsLeft ≤ x ∧ x < v.top) ∨ 0x10000 ≤ x ∧ x < 0x10000 + 512 * d) m₀ m

/-- The loop head after `n` chunks. -/
structure ChunkHead (k : Build) (start : BitVec 32) (v : DiskLabels) (disk : Disk) (m₀ : Mem) (n : Nat)
    (m : Mem) : Prop where
  needed : ∀ i, i < n → 127 * i < k.kernelSectors
  left : loadLE m v.kernelSectorsLeft 2 = k.kernelSectors - loaded k n
  segment : loadLE m v.kernelSegment 2 = (kernelLoadSegment + 32 * loaded k n) % 2 ^ 16
  low : loadLE m v.kernelLbaLow 4 = (start.toNat + loaded k n) % 2 ^ 32
  high : loadLE m v.kernelLbaHigh 4 = (start.toNat + loaded k n) / 2 ^ 32
  image : k.kernelSectors ≤ 2032 → ImageIs start v disk (loaded k n) m₀ m

theorem loaded_succ : loaded k (n + 1) = loaded k n + (chunk k start n).count := by
  unfold chunk loaded
  dsimp only
  omega

theorem chunk_bound : loaded k n + (chunk k start n).count ≤ k.kernelSectors := by
  rw [← loaded_succ]
  exact Nat.min_le_right _ _

theorem chunk_count_pos (more : 127 * n < k.kernelSectors) : 0 < (chunk k start n).count := by
  unfold chunk loaded
  dsimp only
  omega

/-- As long as the segment fits its word. -/
theorem chunk_address (small : k.kernelSectors ≤ 2032) (more : 127 * n < k.kernelSectors) :
    (chunk k start n).address = 0x10000 + 512 * loaded k n := by
  unfold chunk DiskRead.address loaded kernelLoadSegment
  dsimp only
  omega

theorem ChunkHead.packet (h : ChunkHead k start v disk m₀ n m) : diskPacket v (fillPacket v m) = chunk k start n := by
  rw [diskPacket_fillPacket, h.left, h.segment, h.low, h.high, Nat.mod_add_div]
  rfl

/-- A chunk that goes behind what is there. -/
theorem ImageIs.turn {r : DiskRead} {d : Nat} (h : ImageIs start v disk d m₀ m)
    (address : r.address = 0x10000 + 512 * d) (lba : r.lba = start.toNat + d) :
    ImageIs start v disk (d + r.count) m₀ (advanceChunk v (transfer disk r (fillPacket v m))) := by
  have reach := v.reach
  have place := v.places
  constructor
  · intro i hi
    rw [advanceChunk_outside _ (by omega)]
    by_cases old : i < 512 * d
    · rw [transfer_out (by omega), fillPacket_outside _ (by omega)]
      exact h.bytes i old
    · show (if _ then _ else _) = _
      rw [if_pos (by omega), address, lba]
      congr 1 <;> omega
  · intro x outside
    rw [advanceChunk_outside _ (by omega), transfer_out (by omega), fillPacket_outside _ (by omega)]
    exact h.outside x (by omega)

/-- **One more chunk.** -/
theorem ChunkHead.turn (h : ChunkHead k start v disk m₀ n m) (more : 127 * n < k.kernelSectors)
    (safe : ¬ (chunk k start n).Overwrites v) :
    ChunkHead k start v disk m₀ (n + 1) (advanceChunk v (transfer disk (chunk k start n) (fillPacket v m))) := by
  have far := v.lower
  have place := v.places
  have word := k.word
  have dword := start.isLt
  have next := @loaded_succ k start n
  have bound := @chunk_bound k start n
  have kept {a l : Nat} (lo : 0x8000 ≤ a) (hi : a + l ≤ v.top) :
      loadLE (transfer disk (chunk k start n) (fillPacket v m)) a l = loadLE (fillPacket v m) a l :=
    loadLE_transfer safe lo hi
  have unread {a l : Nat} (hi : a + l ≤ v.packetCount) : loadLE (fillPacket v m) a l = loadLE m a l :=
    fillPacket_outside.loadLE_eq fun x _ _ => by omega
  -- what the packet and the variables hold after the read
  have lba := congrArg DiskRead.lba h.packet
  unfold diskPacket chunk at lba
  dsimp only at lba
  have low := loadLE_lt (fillPacket v m) v.packetLbaLow 4
  have count := (kept (a := v.packetCount) (l := 2) (by omega) (by omega)).trans (congrArg DiskRead.count h.packet)
  have sent := kept (a := v.packetLbaLow) (l := 4) (by omega) (by omega)
  have left := ((kept (by omega) (by omega)).trans (unread (by omega))).trans h.left
  have segment := ((kept (by omega) (by omega)).trans (unread (by omega))).trans h.segment
  have high := ((kept (by omega) (by omega)).trans (unread (by omega))).trans h.high
  obtain ⟨left', segment', low', high'⟩ := @advanceChunk_vars v (transfer disk (chunk k start n) (fillPacket v m))
  rw [count, left] at left'
  rw [count, segment] at segment'
  rw [count, sent] at low'
  rw [count, sent, high] at high'
  constructor
  · intro i hi
    exact Nat.lt_of_le_of_lt (Nat.mul_le_mul_left 127 (Nat.le_of_lt_succ hi)) more
  · rw [left', next]
    omega
  · rw [segment', next]
    omega
  · rw [low', next]
    omega
  · rw [high', next]
    omega
  · intro small
    rw [next]
    exact (h.image small).turn (chunk_address small more) rfl

/-- The reads of the first `n` chunks. -/
def readsOf (k : Build) (start : BitVec 32) (n : Nat) : List DiskRead := (List.range n).map (chunk k start)

theorem readsOf_succ : readsOf k start (n + 1) = readsOf k start n ++ [chunk k start n] := by
  rw [readsOf, List.range_succ, List.map_append, List.map_singleton, ← readsOf]

theorem readsOf_length : (readsOf k start n).length = n := by rw [readsOf, List.length_map, List.length_range]

/-- They ask for the sectors one after the other. -/
theorem readsOf_sectors :
    (readsOf k start n).flatMap (fun r => List.range' r.lba r.count) = List.range' start.toNat (loaded k n) := by
  induction n with
  | zero =>
    rw [loaded, Nat.mul_zero, Nat.zero_min]
    rfl
  | succ n ih =>
    rw [readsOf_succ, List.flatMap_append, ih, @loaded_succ k start n, List.flatMap_singleton]
    exact List.range'_append_1

/-- How the loop ends from the loop head after `n` chunks. -/
inductive ChunksEnd (k : Build) (start : BitVec 32) (v : DiskLabels) (disk : Disk) (refuses : Nat → Bool)
    (m₀ : Mem) (n : Nat) : Loading → Prop
  | loadError (j : Nat) (from_n : n ≤ j) (more : 127 * j < k.kernelSectors) (refused : refuses j = true)
      (safe : ∀ i, n ≤ i → i < j → ¬ (chunk k start i).Overwrites v) :
      ChunksEnd k start v disk refuses m₀ n .loadError
  | overwritten (j : Nat) (from_n : n ≤ j) (more : 127 * j < k.kernelSectors) (hits : (chunk k start j).Overwrites v)
      (granted : ∀ i, n ≤ i → i ≤ j → refuses i = false) :
      ChunksEnd k start v disk refuses m₀ n .overwritten
  | returned (j : Nat) (m : Mem) (head : ChunkHead k start v disk m₀ j m) (last : k.kernelSectors ≤ 127 * j)
      (granted : ∀ i, n ≤ i → 127 * i < k.kernelSectors → refuses i = false) :
      ChunksEnd k start v disk refuses m₀ n (.returned m (readsOf k start j))

/-- An end after one more chunk. -/
theorem ChunksEnd.earlier {out : Loading} (h : ChunksEnd k start v disk refuses m₀ (n + 1) out)
    (granted : refuses n = false) (safe : ¬ (chunk k start n).Overwrites v) :
    ChunksEnd k start v disk refuses m₀ n out := by
  cases h with
  | loadError j from_n more refused others =>
    refine .loadError j (Nat.le_of_succ_le from_n) more refused fun i lo hi => ?_
    rcases Nat.eq_or_lt_of_le lo with rfl | later
    · exact safe
    · exact others i later hi
  | overwritten j from_n more hits others =>
    refine .overwritten j (Nat.le_of_succ_le from_n) more hits fun i lo hi => ?_
    rcases Nat.eq_or_lt_of_le lo with rfl | later
    · exact granted
    · exact others i later hi
  | returned j m head last others =>
    refine .returned j m head last fun i lo more => ?_
    rcases Nat.eq_or_lt_of_le lo with rfl | later
    · exact granted
    · exact others i later more

/-- **The loop ends**, in one of three ways. -/
theorem nextChunk_ends (h : ChunkHead k start v disk m₀ n m) (enough : k.kernelSectors - loaded k n < fuel) :
    ∃ out, nextChunk v disk refuses fuel (readsOf k start n) m = some out ∧
    ChunksEnd k start v disk refuses m₀ n out := by
  induction fuel generalizing n m with
  | zero => exact absurd enough (Nat.not_lt_zero _)
  | succ fuel ih =>
    unfold nextChunk
    dsimp only
    rw [h.left, h.packet, readsOf_length]
    by_cases more : 127 * n < k.kernelSectors
    · have some_left : k.kernelSectors - loaded k n ≠ 0 := by
        unfold loaded
        omega
      rw [if_neg some_left]
      cases answer : refuses n with
      | true => exact ⟨_, rfl, .loadError n (Nat.le_refl n) more answer fun i lo hi => absurd hi (Nat.not_lt.2 lo)⟩
      | false =>
        rw [if_neg Bool.false_ne_true]
        by_cases hits : (chunk k start n).Overwrites v
        · rw [if_pos hits]
          refine ⟨_, rfl, .overwritten n (Nat.le_refl n) more hits fun i lo hi => ?_⟩
          rw [Nat.le_antisymm hi lo]
          exact answer
        · rw [if_neg hits, ← readsOf_succ]
          have progress := @loaded_succ k start n
          have positive := @chunk_count_pos k start n more
          obtain ⟨out, run, ends⟩ := ih (h.turn more hits) (by omega)
          exact ⟨out, run, ends.earlier answer hits⟩
    · have none_left : k.kernelSectors - loaded k n = 0 := by
        unfold loaded
        omega
      rw [if_pos none_left]
      exact ⟨_, rfl, .returned n m h (Nat.not_lt.1 more) fun i lo less => absurd less (by omega)⟩

/-- **`load_kernel` ends.** -/
theorem loadKernel_ends (enough : k.kernelSectors < fuel) :
    ∃ out, loadKernel k start v disk refuses fuel m = some out ∧ ChunksEnd k start v disk refuses m 0 out := by
  have none_loaded : loaded k 0 = 0 := by
    rw [loaded, Nat.mul_zero, Nat.zero_min]
  have head : ChunkHead k start v disk m 0
      (storeLE (storeLE (storeDword (storeDword m v.kernelLbaLow start.toNat) v.kernelLbaHigh 0) v.kernelSectorsLeft 2
        k.kernelSectors) v.kernelSegment 2 kernelLoadSegment) := by
    have word := k.word
    have dword := start.isLt
    have reach := v.reach
    have place := v.places
    unfold storeDword
    constructor
    · intro i hi
      exact absurd hi (Nat.not_lt_zero i)
    · rw [loadLE_storeLE_apart (by omega), loadLE_storeLE_same, none_loaded]
      exact Nat.mod_eq_of_lt word
    · rw [loadLE_storeLE_same, none_loaded]
      rfl
    · rw [loadLE_storeLE_apart (by omega), loadLE_storeLE_apart (by omega), loadLE_storeLE_apart (by omega),
        loadLE_storeLE_same, none_loaded]
      rfl
    · rw [loadLE_storeLE_apart (by omega), loadLE_storeLE_apart (by omega), loadLE_storeLE_same, none_loaded]
      exact (Nat.div_eq_of_lt dword).symm
    · intro _
      rw [none_loaded]
      constructor
      · intro i hi
        omega
      · intro x outside
        rw [storeLE_out (by omega), storeLE_out (by omega), storeLE_out (by omega), storeLE_out (by omega)]
  exact nextChunk_ends head (by rw [none_loaded]; exact enough)

/-- A kernel that the segment reaches keeps off stage 2. -/
theorem chunk_safe (small : k.kernelSectors ≤ 2032) (more : 127 * n < k.kernelSectors) :
    ¬ (chunk k start n).Overwrites v := by
  have reach := v.reach
  have place := v.places
  have address := @chunk_address k start n small more
  intro hits
  exact absurd hits.1 (by omega)

end

/-! ## The whole image -/

section

variable {k : Build} {start : BitVec 32} {v : DiskLabels} {disk : Disk} {refuses : Nat → Bool} {m : Mem} {fuel : Nat}

/-- The image is in place: every sector has been asked for once, and the reads have written nothing
else. -/
structure Placed (k : Build) (start : BitVec 32) (v : DiskLabels) (disk : Disk) (m m' : Mem)
    (reads : List DiskRead) : Prop where
  image : ImageIs start v disk k.kernelSectors m m'
  once : reads.flatMap (fun r => List.range' r.lba r.count) = List.range' start.toNat k.kernelSectors
  inside : ∀ r ∈ reads, 0x10000 ≤ r.address ∧ r.address + 512 * r.count ≤ 0x10000 + 512 * k.kernelSectors

/-- What `load_kernel` is for. -/
def LoadsWhole (k : Build) (start : BitVec 32) (v : DiskLabels) (disk : Disk) (m : Mem) (out : Option Loading) : Prop :=
  out = some .loadError ∨ ∃ m' reads, out = some (.returned m' reads) ∧ Placed k start v disk m m' reads

/-- The firmware fails a read, and none before it goes to stage 2. -/
def Refused (k : Build) (start : BitVec 32) (v : DiskLabels) (refuses : Nat → Bool) : Prop :=
  ∃ j, 127 * j < k.kernelSectors ∧ refuses j = true ∧ ∀ i, i < j → ¬ (chunk k start i).Overwrites v

theorem ChunkHead.placed {m' : Mem} {j : Nat} (head : ChunkHead k start v disk m j m') (small : k.kernelSectors ≤ 2032)
    (last : k.kernelSectors ≤ 127 * j) : Placed k start v disk m m' (readsOf k start j) := by
  have all : loaded k j = k.kernelSectors := Nat.min_eq_right last
  refine ⟨?_, ?_, ?_⟩
  · rw [← all]
    exact head.image small
  · rw [readsOf_sectors, all]
  · intro r member
    obtain ⟨i, before, rfl⟩ := List.mem_map.1 member
    have address := @chunk_address k start i small (head.needed i (List.mem_range.1 before))
    have bound := @chunk_bound k start i
    omega

/-- The chunk from sector 2032 on goes to `0xE000`. -/
theorem chunk_wrapped (large : 2032 < k.kernelSectors) : (chunk k start 16).address = 0xE000 := by
  unfold chunk DiskRead.address loaded kernelLoadSegment
  dsimp only
  omega

/-- **A kernel up to 2032 sectors** is loaded, unless a read fails. -/
theorem ChunksEnd.loadsWhole {out : Loading} (ends : ChunksEnd k start v disk refuses m 0 out)
    (small : k.kernelSectors ≤ 2032) : LoadsWhole k start v disk m (some out) := by
  cases ends with
  | loadError j _ more refused safe => exact .inl rfl
  | overwritten j _ more hits granted => exact absurd hits (chunk_safe small more)
  | returned j m' head last granted => exact .inr ⟨m', _, rfl, head.placed small last⟩

/-- **A larger one** is not. -/
theorem ChunksEnd.refused {out : Loading} (ends : ChunksEnd k start v disk refuses m 0 out)
    (large : 2032 < k.kernelSectors) (whole : LoadsWhole k start v disk m (some out)) : Refused k start v refuses := by
  cases ends with
  | loadError j _ more refused safe => exact ⟨j, more, refused, fun i before => safe i (Nat.zero_le i) before⟩
  | overwritten j _ more hits granted =>
    rcases whole with failed | ⟨m', reads, returned, -⟩
    · cases failed
    · cases returned
  | returned j m' head last granted =>
    rcases whole with failed | ⟨m', reads, returned, placed⟩
    · cases failed
    · cases returned
      have member : chunk k start 16 ∈ readsOf k start j := List.mem_map_of_mem (List.mem_range.2 (by omega))
      have inside := (placed.inside _ member).1
      rw [chunk_wrapped large] at inside
      exact absurd inside (by decide)

/-- A read that fails in time ends in `load_error`. -/
theorem ChunksEnd.failed {out : Loading} (ends : ChunksEnd k start v disk refuses m 0 out)
    (fails : Refused k start v refuses) : out = .loadError := by
  obtain ⟨j, more, refused, safe⟩ := fails
  cases ends with
  | loadError j' _ more' refused' safe' => rfl
  | overwritten j' _ more' hits granted =>
    rcases Nat.lt_or_ge j' j with before | after
    · exact absurd hits (safe j' before)
    · exact absurd ((granted j (Nat.zero_le j) after).symm.trans refused) Bool.false_ne_true
  | returned j' m' head last granted =>
    exact absurd ((granted j (Nat.zero_le j) more).symm.trans refused) Bool.false_ne_true

/-- **When `load_kernel` places the whole image or goes to `load_error`**: for kernels up to 2032
sectors, and where the firmware fails a read in time. -/
theorem load_kernel_whole_iff (enough : k.kernelSectors < fuel) :
    LoadsWhole k start v disk m (loadKernel k start v disk refuses fuel m) ↔
      k.kernelSectors ≤ 2032 ∨ Refused k start v refuses := by
  obtain ⟨out, run, ends⟩ := @loadKernel_ends k start v disk refuses m fuel enough
  rw [run]
  constructor
  · intro whole
    rcases Nat.lt_or_ge 2032 k.kernelSectors with large | small
    · exact .inr (ends.refused large whole)
    · exact .inl small
  · rintro (small | fails)
    · exact ends.loadsWhole small
    · exact .inl (congrArg some (ends.failed fails))

end

/-- A kernel of 100000 bytes. -/
def mediumBuild : Build where
  kernelSizeBytes := 100000
  kernelSectors := 196
  rounded := by decide
  word := by decide

/-- A kernel of 2033 sectors. -/
def largeBuild : Build where
  kernelSizeBytes := 1040896
  kernelSectors := 2033
  rounded := by decide
  word := by decide

def diskLabels : DiskLabels where
  memoryMapCount := 0x8300
  lower := by decide
  upper := by decide
  reach := by decide

theorem load_kernel_whole_iff_medium :
    LoadsWhole mediumBuild 4 diskLabels (fun lba i => BitVec.ofNat 8 (lba + i)) (fun _ => 0)
      (loadKernel mediumBuild 4 diskLabels (fun lba i => BitVec.ofNat 8 (lba + i)) (fun _ => false) 197 (fun _ => 0)) :=
  (load_kernel_whole_iff (by decide)).2 (.inl (by decide))

/-- The larger kernel is not: its last sector goes to `0xE000`. -/
theorem sector_2032_misplaced :
    ¬ LoadsWhole largeBuild 4 diskLabels (fun _ _ => 0) (fun _ => 0)
      (loadKernel largeBuild 4 diskLabels (fun _ _ => 0) (fun _ => false) 2034 (fun _ => 0)) := by
  obtain ⟨out, run, ends⟩ := @loadKernel_ends largeBuild 4 diskLabels (fun _ _ => 0) (fun _ => false)
    (fun _ => 0) 2034 (by decide)
  rw [run]
  intro whole
  obtain ⟨j, -, refused, -⟩ := ends.refused (by decide) whole
  cases refused

end SimpleKernel.Boot
