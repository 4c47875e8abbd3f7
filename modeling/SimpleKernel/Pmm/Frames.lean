import Mathlib.Data.Finset.Card
import Mathlib.Order.Interval.Finset.Nat
import SimpleKernel.Pmm.Model

/-!
# The bitmap as a set of free frames

`freeSet` is the set of frames below the limit whose bit is clear; a state is `Counted`
when `free_frames` is its size. Setting a bit erases the frame, clearing one inserts it,
and the two range loops of `pmm.c` erase and insert exactly the frames between the
rounded ends (`mem_freeSet_reserveRange`, `mem_freeSet_freeRange`), keeping the count.
-/

namespace SimpleKernel.Pmm
set_option autoImplicit false
open Lib

/-! ## Bits -/

theorem bitTest_eq (p : State) (frame : Nat) :
    bitTest p frame = (p.frameBitmap (frame / 8)).getLsbD (frame % 8) := by
  have low : frame % 8 < 8 := Nat.mod_lt _ (by decide)
  have mask : bitMask frame = BitVec.twoPow 8 (frame % 8) := (BitVec.twoPow_eq 8 _).symm
  rw [bitTest, mask, BitVec.and_twoPow]
  have nonzero : BitVec.twoPow 8 (frame % 8) ≠ 0#8 := by
    intro zero
    have bit := congrArg (fun v => v.getLsbD (frame % 8)) zero
    simp [low] at bit
  cases (p.frameBitmap (frame / 8)).getLsbD (frame % 8)
  · simp
  · simp [nonzero]

theorem mask_bit (frame k : Nat) : (bitMask frame).getLsbD k = decide (frame % 8 = k) := by
  have mask : bitMask frame = BitVec.twoPow 8 (frame % 8) := (BitVec.twoPow_eq 8 _).symm
  rw [mask, BitVec.getLsbD_twoPow, decide_eq_true (Nat.mod_lt frame (by decide : 0 < 8)), Bool.true_and]

theorem bitTest_bitSet (p : State) (f g : Nat) : bitTest (bitSet p f) g = (decide (f = g) || bitTest p g) := by
  have low : g % 8 < 8 := Nat.mod_lt _ (by decide)
  rw [bitTest_eq, bitTest_eq, bitSet]
  by_cases byte : g / 8 = f / 8
  · have same : f % 8 = g % 8 ↔ f = g := by omega
    simp [byte, mask_bit f (g % 8), same, Bool.or_comm]
  · have ne : f ≠ g := by rintro rfl; exact byte rfl
    simp [storeByte_out byte, ne]

theorem bitTest_bitClear (p : State) (f g : Nat) :
    bitTest (bitClear p f) g = (!decide (f = g) && bitTest p g) := by
  have low : g % 8 < 8 := Nat.mod_lt _ (by decide)
  rw [bitTest_eq, bitTest_eq, bitClear]
  by_cases byte : g / 8 = f / 8
  · have same : f % 8 = g % 8 ↔ f = g := by omega
    simp only [byte, storeByte_self, BitVec.getLsbD_and, BitVec.getLsbD_not, mask_bit f (g % 8), same, low,
      decide_true, Bool.true_and, Bool.and_comm]
  · have ne : f ≠ g := by rintro rfl; exact byte rfl
    simp [storeByte_out byte, ne]

/-- The bits of the array determine its bytes. -/
theorem frameBitmap_ext {p q : State} (h : ∀ f, f < pmmMaxFrames → bitTest p f = bitTest q f) {i : Nat}
    (inside : i < pmmMaxFrames / 8) : p.frameBitmap i = q.frameBitmap i := by
  rw [pmmMaxFrames_eq] at *
  apply BitVec.eq_of_getLsbD_eq
  intro k low
  have bit := h (8 * i + k) (by omega)
  rw [bitTest_eq, bitTest_eq] at bit
  rwa [show (8 * i + k) / 8 = i by omega, show (8 * i + k) % 8 = k by omega] at bit

/-! ## The free set and its counter -/

/-- The frames below the limit whose bit is clear. -/
def freeSet (p : State) : Finset Nat := (Finset.range pmmMaxFrames).filter fun f => bitTest p f = false

/-- The counters agree with the bitmap. -/
structure Counted (p : State) : Prop where
  free : p.freeFrames = (freeSet p).card
  total : p.totalFrames = frameLimit

theorem mem_freeSet {p : State} {f : Nat} : f ∈ freeSet p ↔ f < pmmMaxFrames ∧ bitTest p f = false := by
  simp [freeSet]

theorem not_mem_freeSet {p : State} {f : Nat} (small : f < pmmMaxFrames) :
    f ∉ freeSet p ↔ bitTest p f = true := by
  simp [mem_freeSet, small]

theorem freeSet_congr {p q : State} (h : ∀ f, bitTest p f = bitTest q f) : freeSet p = freeSet q := by
  simp [freeSet, h]

theorem card_freeSet_le (p : State) : (freeSet p).card ≤ pmmMaxFrames :=
  (Finset.card_filter_le _ _).trans (Finset.card_range _).le

theorem freeSet_bitSet (p : State) (f : Nat) : freeSet (bitSet p f) = (freeSet p).erase f := by
  ext g
  rw [Finset.mem_erase, mem_freeSet, mem_freeSet, bitTest_bitSet, Bool.or_eq_false_iff,
    decide_eq_false_iff_not, ne_comm]
  tauto

theorem freeSet_bitClear {p : State} {f : Nat} (small : f < pmmMaxFrames) :
    freeSet (bitClear p f) = insert f (freeSet p) := by
  ext g
  rw [Finset.mem_insert, mem_freeSet, mem_freeSet, bitTest_bitClear]
  by_cases same : f = g
  · simp [← same, small]
  · simp [same, Ne.symm same]

/-- The bitmap decides the free set; the counters play no part. -/
theorem freeSet_counters (p : State) (total free : Nat) :
    freeSet { p with totalFrames := total, freeFrames := free } = freeSet p := freeSet_congr fun _ => rfl

theorem freeSet_reserveFrame (p : State) (f : Nat) : freeSet (reserveFrame p f) = (freeSet p).erase f := by
  unfold reserveFrame
  split
  · rename_i set
    rw [Finset.erase_eq_of_notMem]
    simp [mem_freeSet, set]
  · exact (freeSet_counters (bitSet p f) _ _).trans (freeSet_bitSet p f)

theorem freeSet_freeFrame {p : State} {f : Nat} (small : f < pmmMaxFrames) :
    freeSet (freeFrame p f) = insert f (freeSet p) := by
  unfold freeFrame
  split
  · exact (freeSet_counters (bitClear p f) _ _).trans (freeSet_bitClear small)
  · rename_i clear
    rw [Finset.insert_eq_self.2]
    simpa [mem_freeSet, small] using clear

theorem Counted.reserveFrame {p : State} (h : Counted p) {f : Nat} (small : f < pmmMaxFrames) :
    Counted (reserveFrame p f) := by
  refine ⟨?_, ?_⟩
  · rw [freeSet_reserveFrame]
    unfold Pmm.reserveFrame
    have bound := card_freeSet_le p
    rw [pmmMaxFrames_eq] at bound
    split
    · rename_i set
      rw [Finset.erase_eq_of_notMem (by simp [mem_freeSet, set])]
      exact h.free
    · rename_i clear
      have member : f ∈ freeSet p := mem_freeSet.2 ⟨small, by simpa using clear⟩
      have positive := Finset.card_pos.2 ⟨f, member⟩
      rw [Finset.card_erase_of_mem member, ← h.free, sub64_of_le]
      · have := h.free; omega
      · have := h.free; omega
  · unfold Pmm.reserveFrame
    split <;> exact h.total

theorem Counted.freeFrame {p : State} (h : Counted p) {f : Nat} (small : f < pmmMaxFrames) :
    Counted (freeFrame p f) := by
  refine ⟨?_, ?_⟩
  · rw [freeSet_freeFrame small]
    unfold Pmm.freeFrame
    have bound := card_freeSet_le p
    rw [pmmMaxFrames_eq] at bound
    split
    · rename_i set
      rw [Finset.card_insert_of_notMem (by simp [mem_freeSet, set]), ← h.free, u64_of_lt]
      have := h.free; omega
    · rename_i clear
      rw [Finset.insert_eq_self.2 (mem_freeSet.2 ⟨small, by simpa using clear⟩)]
      exact h.free
  · unfold Pmm.freeFrame
    split <;> exact h.total

/-! ## Page rounding -/

theorem pageAlignDown_eq (value : Nat) : pageAlignDown value = u64 value / 4096 * 4096 :=
  land_not64_mask (k := 12) (by decide)

theorem pageAlignUp_eq (value : Nat) : pageAlignUp value = u64 (value + 4095) / 4096 * 4096 := by
  have mask := land_not64_mask (n := u64 (value + 4095)) (k := 12) (by decide)
  rwa [u64_of_lt (u64_lt _)] at mask

theorem pageAlignDown_of_lt {value : Nat} (h : value < 2 ^ 64) : pageAlignDown value = value / 4096 * 4096 := by
  rw [pageAlignDown_eq, u64_of_lt h]

theorem pageAlignUp_of_lt {value : Nat} (h : value + 4095 < 2 ^ 64) :
    pageAlignUp value = (value + 4095) / 4096 * 4096 := by
  rw [pageAlignUp_eq, u64_of_lt h]

/-! ## The range loops -/

/-- The frames that the loop over `[start, fin)` visits. -/
def pageFrames (start fin : Nat) : List Nat := (pageAddrs start fin).map (· / pmmPageSize)

theorem mem_pageFrames {start fin f : Nat} (aligned : start % 4096 = 0) :
    f ∈ pageFrames start fin ↔ start ≤ f * 4096 ∧ f * 4096 < fin := by
  simp only [pageFrames, pageAddrs, pmmPageSize_eq, List.map_map, List.mem_map, List.mem_range,
    Function.comp_apply]
  constructor
  · rintro ⟨i, small, rfl⟩
    omega
  · rintro ⟨lo, hi⟩
    exact ⟨f - start / 4096, by omega, by omega⟩

theorem freeSet_reserveFrames (l : List Nat) (p : State) :
    freeSet (l.foldl reserveFrame p) = freeSet p \ l.toFinset := by
  induction l generalizing p with
  | nil => simp
  | cons f l ih =>
    rw [List.foldl_cons, ih, freeSet_reserveFrame, List.toFinset_cons, Finset.sdiff_insert,
      Finset.erase_sdiff_comm]

theorem freeSet_freeFrames {l : List Nat} (small : ∀ f ∈ l, f < pmmMaxFrames) (p : State) :
    freeSet (l.foldl freeFrame p) = freeSet p ∪ l.toFinset := by
  induction l generalizing p with
  | nil => simp
  | cons f l ih =>
    rw [List.foldl_cons, ih fun g hg => small g (List.mem_cons_of_mem _ hg),
      freeSet_freeFrame (small f List.mem_cons_self), List.toFinset_cons, Finset.insert_union,
      Finset.union_insert]

theorem Counted.foldl {step : State → Nat → State} {l : List Nat} {p : State} (h : Counted p)
    (keep : ∀ q f, f ∈ l → Counted q → Counted (step q f)) : Counted (l.foldl step p) :=
  List.foldlRecOn l step h fun q hq f hf => keep q f hf hq

theorem foldl_pageAddrs (step : State → Nat → State) (start fin : Nat) (p : State) :
    (pageAddrs start fin).foldl (fun p addr => step p (addr / pmmPageSize)) p =
      (pageFrames start fin).foldl step p := by
  rw [pageFrames, List.foldl_map]

/-- `if (end > PMM_MAX_MEMORY) end = PMM_MAX_MEMORY`. -/
theorem clamp_eq (fin : Nat) : (if fin > pmmMaxMemory then pmmMaxMemory else fin) = min fin 1073741824 := by
  rw [pmmMaxMemory_eq]
  split <;> omega

/-- **`reserve_range`** erases the frames from `page_align_down(base)` to
`page_align_up(base + length)`, at whatever values these take in 64 bits. -/
theorem mem_freeSet_reserveRange {p : State} {base length f : Nat} :
    f ∈ freeSet (reserveRange p base length) ↔
      f ∈ freeSet p ∧ ¬ (pageAlignDown base ≤ f * 4096 ∧ f * 4096 < pageAlignUp (u64 (base + length))) := by
  have aligned : pageAlignDown base % 4096 = 0 := by rw [pageAlignDown_eq]; omega
  simp only [reserveRange, clamp_eq, foldl_pageAddrs]
  rw [pmmMaxMemory_eq]
  by_cases member : f ∈ freeSet p
  · have small := (mem_freeSet.1 member).1
    rw [pmmMaxFrames_eq] at small
    split
    · simp only [member, true_and, true_iff]
      omega
    · rw [freeSet_reserveFrames, Finset.mem_sdiff, List.mem_toFinset, mem_pageFrames aligned]
      simp only [member, true_and]
      omega
  · split
    · simp [member]
    · rw [freeSet_reserveFrames, Finset.mem_sdiff]
      simp [member]

theorem Counted.reserveRange {p : State} (h : Counted p) (base length : Nat) :
    Counted (reserveRange p base length) := by
  have aligned : pageAlignDown base % 4096 = 0 := by rw [pageAlignDown_eq]; omega
  simp only [Pmm.reserveRange, clamp_eq, foldl_pageAddrs]
  rw [pmmMaxMemory_eq]
  split
  · exact h
  · refine h.foldl fun q f hf hq => hq.reserveFrame ?_
    rw [mem_pageFrames aligned] at hf
    rw [pmmMaxFrames_eq]
    omega

/-- **`free_range`** inserts the frames from `page_align_up(base)` to
`page_align_down(base + length)`. -/
theorem mem_freeSet_freeRange {p : State} {base length f : Nat} :
    f ∈ freeSet (freeRange p base length) ↔
      f ∈ freeSet p ∨ (f < pmmMaxFrames ∧ pageAlignUp base ≤ f * 4096 ∧
        f * 4096 < pageAlignDown (u64 (base + length))) := by
  have aligned : pageAlignUp base % 4096 = 0 := by rw [pageAlignUp_eq]; omega
  simp only [freeRange, clamp_eq, foldl_pageAddrs]
  rw [pmmMaxMemory_eq]
  split
  · rw [pmmMaxFrames_eq]
    have outside : ¬ (f < 262144 ∧ pageAlignUp base ≤ f * 4096 ∧
        f * 4096 < pageAlignDown (u64 (base + length))) := by omega
    simp [outside]
  · rw [freeSet_freeFrames, Finset.mem_union, List.mem_toFinset, mem_pageFrames aligned, pmmMaxFrames_eq]
    · refine or_congr Iff.rfl ?_
      omega
    · intro g hg
      rw [mem_pageFrames aligned] at hg
      rw [pmmMaxFrames_eq]
      omega

theorem Counted.freeRange {p : State} (h : Counted p) (base length : Nat) : Counted (freeRange p base length) := by
  have aligned : pageAlignUp base % 4096 = 0 := by rw [pageAlignUp_eq]; omega
  simp only [Pmm.freeRange, clamp_eq, foldl_pageAddrs]
  rw [pmmMaxMemory_eq]
  split
  · exact h
  · refine h.foldl fun q f hf hq => hq.freeFrame ?_
    rw [mem_pageFrames aligned] at hf
    rw [pmmMaxFrames_eq]
    omega

end SimpleKernel.Pmm
