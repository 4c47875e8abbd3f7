import SimpleKernel.Pmm.Ledger

/-!
# The counter under any use

`Checked` has the functions of `pmm.c` once more, with every index into `frame_bitmap`
checked. No boot structure and no arguments of the calls make one fall outside, and
`free_frames` stays the number of clear bits (`counter_exact`): nothing is asked of a pointer
that is freed.
-/

namespace SimpleKernel.Pmm
set_option autoImplicit false
open Lib Kstring

/-! ## With every index checked -/

namespace Checked

/-- `frame / 8` is an index of `frame_bitmap`. -/
def Indexed (frame : Nat) : Prop := frame / 8 < pmmMaxFrames / 8

instance (frame : Nat) : Decidable (Indexed frame) := inferInstanceAs (Decidable (_ < _))

def bitTest (p : State) (frame : Nat) : Option Bool := if Indexed frame then some (Pmm.bitTest p frame) else none

def bitSet (p : State) (frame : Nat) : Option State := if Indexed frame then some (Pmm.bitSet p frame) else none

def bitClear (p : State) (frame : Nat) : Option State := if Indexed frame then some (Pmm.bitClear p frame) else none

def reserveFrame (p : State) (frame : Nat) : Option State := do
  let used ← bitTest p frame
  if used then some p
  else do
    let q ← bitSet p frame
    some { q with freeFrames := sub64 p.freeFrames 1 }

def freeFrame (p : State) (frame : Nat) : Option State := do
  let used ← bitTest p frame
  if used then do
    let q ← bitClear p frame
    some { q with freeFrames := u64 (p.freeFrames + 1) }
  else some p

def reserveRange (p : State) (base length : Nat) : Option State :=
  let start := pageAlignDown base
  let fin := pageAlignUp (u64 (base + length))
  if start ≥ pmmMaxMemory then some p
  else
    let fin := if fin > pmmMaxMemory then pmmMaxMemory else fin
    (pageAddrs start fin).foldlM (fun p addr => reserveFrame p (addr / pmmPageSize)) p

def freeRange (p : State) (base length : Nat) : Option State :=
  let start := pageAlignUp base
  let fin := pageAlignDown (u64 (base + length))
  if start ≥ fin ∨ start ≥ pmmMaxMemory then some p
  else
    let fin := if fin > pmmMaxMemory then pmmMaxMemory else fin
    (pageAddrs start fin).foldlM (fun p addr => freeFrame p (addr / pmmPageSize)) p

def freeUsable (p : State) (boot : Boot) : Option State :=
  (List.range boot.info.memoryMapEntries).foldlM (fun p i =>
    if (boot.entries i).type = 1 then freeRange p (boot.entries i).base (boot.entries i).length else some p) p

def pmmInit (p : State) (boot : Boot) : Option State := do
  let p : State :=
    { frameBitmap := kmemset p.frameBitmap 0 0xFF#8 (pmmMaxFrames / 8), totalFrames := frameLimit, freeFrames := 0 }
  let p ← freeUsable p boot
  let p ← reserveRange p 0 0x100000
  let p ← reserveRange p boot.info.kernelPhysStart (sub64 boot.info.kernelPhysEnd boot.info.kernelPhysStart)
  let p ← reserveRange p boot.addr sizeofBootInfo
  let p ← reserveRange p boot.info.memoryMapAddr (u64 (sizeofMemoryMapEntry * boot.info.memoryMapEntries))
  reserveRange p 0x1000 0x4000

def allocScan (p : State) (count : Nat) : Nat → Nat → Nat → Nat → Option (Option Nat)
  | 0, _, _, _ => some none
  | left + 1, frame, runStart, runLength => do
    let used ← bitTest p frame
    if used then allocScan p count left (frame + 1) runStart 0
    else
      let runStart := if runLength = 0 then frame else runStart
      if runLength + 1 = count then some (some runStart)
      else allocScan p count left (frame + 1) runStart (runLength + 1)

def bitSets (p : State) (runStart count : Nat) : Option State :=
  (List.range count).foldlM (fun p i => bitSet p (runStart + i)) p

def pmmAllocFrames (p : State) (count : Nat) : Option (Nat × State) :=
  if count = 0 ∨ count > frameLimit then some (0, p)
  else do
    let found ← allocScan p count frameLimit 0 0 0
    match found with
    | none => some (0, p)
    | some runStart => do
      let q ← bitSets p runStart count
      some (u64 (runStart * pmmPageSize), { q with freeFrames := sub64 p.freeFrames count })

def freeLoop (p : State) (current : Nat) : Nat → Option State
  | 0 => some p
  | left + 1 =>
    if current ≥ frameLimit then some p
    else do
      let used ← bitTest p current
      if used then do
        let q ← bitClear p current
        freeLoop { q with freeFrames := u64 (p.freeFrames + 1) } (current + 1) left
      else some p

def pmmFreeFrames (p : State) (framePtr count : Nat) : Option State :=
  if framePtr = 0 ∨ count = 0 then some p
  else if framePtr / pmmPageSize ≥ frameLimit then some p
  else freeLoop p (framePtr / pmmPageSize) count

end Checked

/-! ## Indices inside the bitmap -/

section

variable {p : State} {frame : Nat}

theorem indexed (small : frame < pmmMaxFrames) : Checked.Indexed frame := by
  rw [pmmMaxFrames_eq] at small
  rw [Checked.Indexed, pmmMaxFrames_eq]
  omega

theorem bitTest_checked (small : frame < pmmMaxFrames) : Checked.bitTest p frame = some (bitTest p frame) :=
  if_pos (indexed small)

theorem bitSet_checked (small : frame < pmmMaxFrames) : Checked.bitSet p frame = some (bitSet p frame) :=
  if_pos (indexed small)

theorem bitClear_checked (small : frame < pmmMaxFrames) : Checked.bitClear p frame = some (bitClear p frame) :=
  if_pos (indexed small)

theorem reserveFrame_checked (small : frame < pmmMaxFrames) :
    Checked.reserveFrame p frame = some (reserveFrame p frame) := by
  rw [Checked.reserveFrame, reserveFrame, bitTest_checked small, bitSet_checked small]
  cases bitTest p frame with
  | true => rfl
  | false => rfl

theorem freeFrame_checked (small : frame < pmmMaxFrames) : Checked.freeFrame p frame = some (freeFrame p frame) := by
  rw [Checked.freeFrame, freeFrame, bitTest_checked small, bitClear_checked small]
  cases bitTest p frame with
  | true => rfl
  | false => rfl

/-- The frames of a clamped range are below the limit. -/
theorem pageAddrs_small {start fin addr : Nat} (member : addr ∈ pageAddrs start (min fin pmmMaxMemory)) :
    addr / pmmPageSize < pmmMaxFrames := by
  simp only [pageAddrs, pmmPageSize_eq, List.mem_map, List.mem_range] at member
  obtain ⟨i, inside, rfl⟩ := member
  rw [pmmMaxMemory_eq] at inside
  rw [pmmPageSize_eq, pmmMaxFrames_eq]
  omega

theorem pageLoop_checked {step : State → Nat → State} {checked : State → Nat → Option State}
    (body : ∀ p f, f < pmmMaxFrames → checked p f = some (step p f)) (start fin : Nat) :
    (pageAddrs start (if fin > pmmMaxMemory then pmmMaxMemory else fin)).foldlM
        (fun p addr => checked p (addr / pmmPageSize)) p =
      some ((pageAddrs start (if fin > pmmMaxMemory then pmmMaxMemory else fin)).foldl
        (fun p addr => step p (addr / pmmPageSize)) p) := by
  have clamp : (if fin > pmmMaxMemory then pmmMaxMemory else fin) = min fin pmmMaxMemory := by
    split <;> omega
  rw [clamp]
  refine (@foldlM_some _ _ _ _ (fun _ => True) _ ?_ _ trivial).1
  intro q addr member _
  exact ⟨body q _ (pageAddrs_small member), trivial⟩

theorem reserveRange_checked (base length : Nat) :
    Checked.reserveRange p base length = some (reserveRange p base length) := by
  unfold Checked.reserveRange reserveRange
  dsimp only
  split
  · rfl
  · exact pageLoop_checked (fun _ _ => reserveFrame_checked) _ _

theorem freeRange_checked (base length : Nat) : Checked.freeRange p base length = some (freeRange p base length) := by
  unfold Checked.freeRange freeRange
  dsimp only
  split
  · rfl
  · exact pageLoop_checked (fun _ _ => freeFrame_checked) _ _

theorem freeUsable_checked (boot : Boot) : Checked.freeUsable p boot = some (freeUsable p boot) := by
  refine (@foldlM_some _ _ _ _ (fun _ => True) _ ?_ _ trivial).1
  intro q i _ _
  split
  · exact ⟨freeRange_checked _ _, trivial⟩
  · exact ⟨rfl, trivial⟩

theorem pmmInit_checked (boot : Boot) : Checked.pmmInit p boot = some (pmmInit p boot) := by
  simp only [Checked.pmmInit, freeUsable_checked, reserveRange_checked, Option.bind_eq_bind, Option.bind_some]
  rfl

/-- The scan does not pass the limit. -/
theorem allocScan_checked (count : Nat) {left : Nat} : ∀ {frame runStart runLength : Nat}, frame + left ≤ pmmMaxFrames →
    Checked.allocScan p count left frame runStart runLength =
      some (allocScan p count left frame runStart runLength) := by
  induction left with
  | zero =>
    intro frame runStart runLength _
    rfl
  | succ left ih =>
    intro frame runStart runLength inside
    rw [Checked.allocScan, allocScan, bitTest_checked (by omega)]
    simp only [Option.bind_eq_bind, Option.bind_some]
    rw [ih (by omega), ih (by omega)]
    split
    · rfl
    · split
      · rfl
      · rfl

theorem bitSets_checked {start count : Nat} (inside : start + count ≤ pmmMaxFrames) :
    Checked.bitSets p start count = some (bitSets p start count) := by
  refine (@foldlM_some _ _ _ _ (fun _ => True) _ ?_ _ trivial).1
  intro q i member _
  have below := List.mem_range.1 member
  exact ⟨bitSet_checked (by omega), trivial⟩

theorem pmmAllocFrames_checked (count : Nat) : Checked.pmmAllocFrames p count = some (pmmAllocFrames p count) := by
  unfold Checked.pmmAllocFrames pmmAllocFrames
  by_cases bad : count = 0 ∨ count > frameLimit
  · rw [if_pos bad, if_pos bad]
  · rw [if_neg bad, if_neg bad]
    have scan := allocScan_spec p count frameLimit 0 0 0 (by omega) (fun i hi => absurd hi (by omega))
      (fun h => absurd h (by omega))
    have checked := @allocScan_checked p count frameLimit 0 0 0 (Nat.le_of_eq (Nat.zero_add _))
    rw [checked]
    simp only [Option.bind_eq_bind, Option.bind_some]
    simp only [Nat.zero_add] at scan
    split at scan
    · rename_i start found
      have upper := scan.upper
      rw [found]
      dsimp only
      rw [bitSets_checked upper]
      rfl
    · rename_i found
      rw [found]

theorem freeLoop_checked {left : Nat} : ∀ {p : State} {current : Nat},
    Checked.freeLoop p current left = some (freeLoop p current left) := by
  induction left with
  | zero =>
    intro p current
    rfl
  | succ left ih =>
    intro p current
    rw [Checked.freeLoop, freeLoop]
    by_cases limit : current ≥ frameLimit
    · rw [if_pos limit, if_pos (.inl limit)]
    · have small : current < pmmMaxFrames := Nat.lt_of_not_le limit
      rw [if_neg limit, bitTest_checked small, bitClear_checked small]
      simp only [Option.bind_eq_bind, Option.bind_some]
      by_cases used : bitTest p current = true
      · rw [if_pos used, if_neg (by simp [used]; omega)]
        exact ih
      · rw [if_neg used, if_pos (.inr (Bool.eq_false_iff.2 used))]

theorem pmmFreeFrames_checked (framePtr count : Nat) :
    Checked.pmmFreeFrames p framePtr count = some (pmmFreeFrames p framePtr count) := by
  unfold Checked.pmmFreeFrames pmmFreeFrames
  split
  · rfl
  · split
    · rfl
    · exact freeLoop_checked

/-! ## The counter -/

theorem Counted.freeLoop {left : Nat} :
    ∀ {p : State} {current : Nat}, Counted p → Counted (freeLoop p current left) := by
  induction left with
  | zero =>
    intro p current h
    exact h
  | succ left ih =>
    intro p current h
    rw [Pmm.freeLoop]
    split
    · exact h
    · rename_i go
      have used : bitTest p current = true := by
        cases eq : bitTest p current with
        | true => rfl
        | false => exact absurd (.inr eq) go
      have small : current < pmmMaxFrames := Nat.lt_of_not_le fun limit => go (.inl limit)
      have step : Pmm.freeFrame p current = { bitClear p current with freeFrames := u64 (p.freeFrames + 1) } := by
        rw [Pmm.freeFrame, if_pos used]
      rw [← step]
      exact ih (h.freeFrame small)

theorem Counted.pmmFreeFrames (h : Counted p) (framePtr count : Nat) : Counted (pmmFreeFrames p framePtr count) := by
  unfold Pmm.pmmFreeFrames
  split
  · exact h
  · split
    · exact h
    · exact h.freeLoop

theorem Counted.pmmAllocFrames (h : Counted p) (count : Nat) : Counted (pmmAllocFrames p count).2 := by
  rcases pmmAllocFrames_cases p count with ⟨eq, -⟩ | ⟨start, -, first, eq⟩
  · rw [eq]
    exact h
  · rw [eq]
    exact h.setRun first.free first.upper

/-- The bytes reported add up, without wrapping. -/
theorem Counted.bytes (h : Counted p) : pmmFreeBytes p ≤ pmmTotalBytes p ∧
    pmmReservedBytes p + pmmFreeBytes p = pmmTotalBytes p ∧ pmmTotalBytes p = pmmMaxMemory := by
  have bound := card_freeSet_le p
  rw [← h.free, pmmMaxFrames_eq] at bound
  have total : pmmTotalBytes p = 1073741824 := by
    rw [pmmTotalBytes, h.total, frameLimit_eq, pmmPageSize_eq]
    rfl
  have free : pmmFreeBytes p = p.freeFrames * 4096 := u64_of_lt (by rw [pmmPageSize_eq]; omega)
  rw [pmmReservedBytes, total, free, sub64_of_le (by omega) (by decide), pmmMaxMemory_eq]
  omega

end

/-! ## Runs -/

/-- A call with any arguments. -/
inductive AnyCall where
  | alloc (count : Nat)
  | free (framePtr count : Nat)

def AnyCall.run (p : State) : AnyCall → Option State
  | .alloc count => (Checked.pmmAllocFrames p count).map Prod.snd
  | .free framePtr count => Checked.pmmFreeFrames p framePtr count

/-- The allocator after `pmm_init`, called in any way. -/
def anyUse (p : State) (boot : Boot) : Lts State AnyCall where
  Init q := Checked.pmmInit p boot = some q
  Step q c q' := c.run q = some q'

theorem Counted.call {p : State} (h : Counted p) (c : AnyCall) : ∃ q, c.run p = some q ∧ Counted q := by
  cases c with
  | alloc count =>
    refine ⟨(Pmm.pmmAllocFrames p count).2, ?_, h.pmmAllocFrames count⟩
    rw [AnyCall.run, pmmAllocFrames_checked]
    rfl
  | free framePtr count => exact ⟨_, pmmFreeFrames_checked framePtr count, h.pmmFreeFrames framePtr count⟩

/-- **The counter is exact under any use.** For every boot structure `pmm_init` and every call
stay inside the bitmap, `free_frames` is the number of clear bits, and the byte counts do not
wrap. -/
theorem counter_exact (p : State) (boot : Boot) :
    (∃ q, Checked.pmmInit p boot = some q) ∧
      ∀ cs q, (anyUse p boot).Run cs q →
        q.freeFrames = (freeSet q).card ∧ (∀ c : AnyCall, ∃ q', c.run q = some q') ∧
          pmmFreeBytes q ≤ pmmTotalBytes q ∧ pmmReservedBytes q + pmmFreeBytes q = pmmTotalBytes q := by
  refine ⟨⟨_, pmmInit_checked boot⟩, ?_⟩
  intro cs q run
  have counted : Counted q := by
    apply run.invariant
    · intro q init
      cases Option.some.inj (init.symm.trans (pmmInit_checked boot))
      exact counted_pmmInit p boot
    · intro q c q' inv step
      obtain ⟨r, eq, counted⟩ := inv.call c
      cases Option.some.inj (step.symm.trans eq)
      exact counted
  refine ⟨counted.free, ?_, counted.bytes.1, counted.bytes.2.1⟩
  intro c
  obtain ⟨q', eq, -⟩ := counted.call c
  exact ⟨q', eq⟩

/-- An unaligned pointer freed twice, with the unit tests' map. -/
theorem counter_exact_double_free :
    ∃ q, (anyUse bss unitTestBoot).Run [.free 0x123456 3, .free 0x123456 3] q ∧ q.freeFrames = (freeSet q).card := by
  have start : (anyUse bss unitTestBoot).Run [] (pmmInit bss unitTestBoot) := .start (pmmInit_checked unitTestBoot)
  obtain ⟨q₁, first⟩ := ((counter_exact bss unitTestBoot).2 _ _ start).2.1 (.free 0x123456 3)
  have once := start.snoc (show (anyUse bss unitTestBoot).Step _ _ _ from first)
  obtain ⟨q₂, second⟩ := ((counter_exact bss unitTestBoot).2 _ _ once).2.1 (.free 0x123456 3)
  have twice := once.snoc (show (anyUse bss unitTestBoot).Step _ _ _ from second)
  exact ⟨q₂, twice, ((counter_exact bss unitTestBoot).2 _ _ twice).1⟩

end SimpleKernel.Pmm
