import SimpleKernel.Heap.Rest
import SimpleKernel.Shell.Sleep

/-!
# The `allocdemo` command

`cmd_allocdemo` is the only caller that the heap has. It gives back what it takes before it returns,
so the heap is at rest whenever the shell waits, and no region is ever absorbed: over all runs of
the command every block stays where it is, and memory is taken from the frame allocator only for a
size that no block fits (`allocdemo_at_rest`). The sizes that wrap, where something is granted for
them, make it fill memory that is not mapped.
-/

namespace SimpleKernel.Shell
set_option autoImplicit false
open Lib Kstring Pmm Heap

/-- `kprint_hex`; `buffer` and `tmp` are as for `kprintU64`. -/
def kprintHex (buffer tmp : Mem) (value : Nat) : Option (List Output) :=
  let text := ku64ToHex buffer tmp 0 32 value
  (scan 32 text (fun c => c != 0) 32 0).map fun n => [.kprint (asciiText "0x"), .kprint ((List.range n).map text)]

/-- `kmemset` through the page tables: the first GiB is mapped and a store above it faults. -/
def kmemsetMapped (m : Mem) (dst : Nat) (value : BitVec 8) (n : Nat) : Option Mem :=
  if dst + n ≤ 2 ^ 30 then some (kmemset m dst value n) else none

/-- `ku64_parse` of the first argument, as in `sleepDelay`; `size` is 64 without one. -/
def demoSize (array : Nat) (m : Mem) (args : List Nat) : Option (Nat × Option Nat) :=
  match args with
  | [] => some (1, some 64)
  | arg :: _ => ku64Parse array m (some arg) (some 64)

def cmdAllocdemo (buffer tmp : Mem) (array : Nat) (m : Mem) (args : List Nat) (s : Machine) :
    Option (List Output × Machine) := do
  let (accepted, size) ← demoSize array m args
  if accepted = 0 then some ([.kprint (asciiText "Usage: allocdemo [bytes]\n")], s)
  else do
    let size := size.getD 64
    let (ptr, s) ← kmalloc s size
    if ptr = 0 then some ([.kprint (asciiText "Allocation failed\n")], s)
    else do
      let mem ← kmemsetMapped s.mem ptr 0xA5 size
      let number ← kprintU64 buffer tmp size
      let address ← kprintHex buffer tmp ptr
      let s ← kfree { s with mem } ptr
      some ([.kprint (asciiText "Allocated "), number, .kprint (asciiText " bytes at ")] ++ address ++
        [.kprint (asciiText "\n"), .kprint (asciiText "Freed allocation\n")], s)

/-- The heap from `pmm_init` and `heap_init` on, under the command with any arguments. A label is
`cmd_buffer` and the pointers into it. -/
def allocdemos (p : Pmm.State) (boot : Boot) : Lts Machine (Mem × List Nat) where
  Init s := ∃ s₀, s = { heapInit s₀ with pmm := pmmInit p boot }
  Step s a s' := ∃ buffer tmp out, cmdAllocdemo buffer tmp cmdBufferSize a.1 a.2 s = some (out, s')

/-- What the command prints for a size and the pointer. -/
def demoOutput (size ptr : Nat) : List Output :=
  if ptr = 0 then [.kprint (asciiText "Allocation failed\n")]
  else [.kprint (asciiText "Allocated "), .kprint (decimal.numeral size), .kprint (asciiText " bytes at "),
    .kprint (asciiText "0x"), .kprint (hexadecimal.numeral ptr), .kprint (asciiText "\n"),
    .kprint (asciiText "Freed allocation\n")]

/-- No byte is in use, every block is free and fills whole pages, and the frames of `init` are those
of the blocks and those that are free still. -/
structure Idle (init : Pmm.State) (s : Machine) : Prop where
  used : s.usedBytes = 0
  free : heapFreeBytes s = s.totalBytes
  total : s.totalBytes = ((blockList s).map Block.size).sum
  whole : ∀ b ∈ blockList s, WholePages b
  frames : ∀ f, f ∈ freeSet s.pmm ↔ f ∈ freeSet init ∧ ¬ ∃ b ∈ blockList s, b.addr ≤ f * 4096 ∧ f * 4096 < b.fin

section

variable {avail : Finset Nat} {s s' : Machine} {bs : List Block} {array n : Nat} {m buffer tmp : Mem} {args : List Nat}
  {out : List Output}

theorem ku64Loop_lt {size fuel str out n : Nat} (small : out < 2 ^ 64)
    (run : ku64Loop size m fuel str out = some (some n)) : n < 2 ^ 64 := by
  induction fuel generalizing str out with
  | zero => cases run
  | succ fuel ih =>
    rw [ku64Loop] at run
    obtain ⟨c, -, run⟩ := Option.bind_eq_some_iff.1 run
    split at run
    · split at run
      · cases run
      · exact ih (u64_lt _) run
    · cases run
      exact small

/-- The argument is refused, or `size` is a 64-bit number. -/
theorem demoSize_cases {r : Nat × Option Nat} (run : demoSize array m args = some r) :
    r = (0, some 64) ∨ ∃ n, n < 2 ^ 64 ∧ r = (1, some n) := by
  unfold demoSize at run
  split at run
  · cases run
    exact .inr ⟨64, by decide, rfl⟩
  · unfold ku64Parse at run
    dsimp only at run
    obtain ⟨c, -, run⟩ := Option.bind_eq_some_iff.1 run
    split at run
    · cases run
      exact .inl rfl
    · obtain ⟨parsed, loop, run⟩ := Option.bind_eq_some_iff.1 run
      cases parsed with
      | none =>
        cases run
        exact .inl rfl
      | some n =>
        cases run
        exact .inr ⟨n, ku64Loop_lt (by decide) loop, rfl⟩

theorem kprintHex_eq {value : Nat} (small : value < 2 ^ 64) :
    kprintHex buffer tmp value = some [.kprint (asciiText "0x"), .kprint (hexadecimal.numeral value)] := by
  have length : (hexadecimal.numeral value).length ≤ 16 := by
    unfold Alphabet.numeral
    split
    · decide
    · exact hexadecimal.digits_length_le (Nat.lt_of_lt_of_eq small (by decide))
  have string : StrAt (ku64ToHex buffer tmp 0 32 value) 0 ((hexadecimal.numeral value).take (32 - 1)) :=
    (convertU64_spec (by decide) rfl (by decide) (Nat.lt_trans small (by decide)) (by decide)).string
  rw [List.take_of_length_le (by omega)] at string
  have stop : scan 32 (ku64ToHex buffer tmp 0 32 value) (fun c => c != 0) 32 0 =
      some (0 + (hexadecimal.numeral value).length) :=
    scan_string string (by omega) (by omega)
  rw [kprintHex, stop, Option.map_some, Nat.zero_add]
  refine congrArg (fun text => some [Output.kprint (asciiText "0x"), Output.kprint text]) ?_
  refine List.ext_getElem (by simp) fun i hi hi' => ?_
  have byte := string.bytes i hi'
  rw [Nat.zero_add] at byte
  simp [byte]

theorem AtRest.idle {init : Pmm.State} (rest : AtRest (freeSet init) s bs) : Idle init s := by
  have list := rest.blockList_eq
  have used := rest.used
  have total := rest.total
  obtain ⟨regions, inv, -⟩ := rest.inv
  have bound := inv.total
  have span := inv.span
  have small := inv.well.layout.spanSum_le
  refine ⟨used, ?_, list ▸ total, list ▸ rest.whole, list ▸ rest.frames⟩
  dsimp only at bound span
  rw [heapFreeBytes, used, sub64_of_le (Nat.zero_le _) (by omega), Nat.sub_zero]

/-- **A size that does not wrap.** -/
theorem cmdAllocdemo_lent (zero : 0 ∉ avail) (rest : AtRest avail s bs) (small : n < 2 ^ 64)
    (sound : Heap.NoWrap ⟨s, [], []⟩ n) (parsed : demoSize array m args = some (1, some n)) :
    ∃ s', cmdAllocdemo buffer tmp array m args s = some (demoOutput n (restRequest n bs s.pmm).1, s') ∧
      AtRest avail s' (restRequest n bs s.pmm).2.1 ∧ s'.pmm = (restRequest n bs s.pmm).2.2 := by
  obtain ⟨p, h, run, lent⟩ := rest.lent zero sound
  simp only [cmdAllocdemo, parsed, Option.bind_eq_bind, Option.bind_some, Option.getD_some, run, one_ne_zero, if_false,
    ← lent.pointer, demoOutput]
  by_cases null : p = 0
  · obtain ⟨rfl, answer⟩ := lent.refused null
    rw [if_pos null, if_pos null, answer]
    exact ⟨h, rfl, rest, rfl⟩
  · have bound := lent.bound null
    have fill : kmemsetMapped h.mem p 0xA5 n = some (kmemset h.mem p 0xA5 n) := if_pos bound
    have stored : SameOutside (fun a => p ≤ a ∧ a < p + n) h.mem (kmemset h.mem p 0xA5 n) := by
      rw [kmemset_eq_fill]
      exact fill_same_outside _ _ _ _
    obtain ⟨s', back, rest', pmm⟩ := lent.back null _ stored
    rw [if_neg null, if_neg null, fill]
    simp only [Option.bind_some, kprintU64_eq small, kprintHex_eq (show p < 2 ^ 64 by omega), back]
    exact ⟨s', rfl, rest', pmm⟩

/-- **A size that wraps** is granted, and the fill leaves mapped memory. -/
theorem cmdAllocdemo_faults (zero : 0 ∉ avail) (rest : AtRest avail s bs) (small : n < 2 ^ 64)
    (wraps : ¬ Heap.NoWrap ⟨s, [], []⟩ n)
    (parsed : demoSize array m args = some (1, some n)) : cmdAllocdemo buffer tmp array m args s = none := by
  obtain ⟨regions, inv, -⟩ := rest.inv
  obtain ⟨p, h, run, some'⟩ := inv.wraps zero small wraps
  dsimp only at run
  have last : 2 ^ 64 - 31 ≤ n := by
    unfold Heap.NoWrap at wraps
    omega
  have fill : kmemsetMapped h.mem p 0xA5 n = none := if_neg (by omega)
  simp only [cmdAllocdemo, parsed, Option.bind_eq_bind, Option.bind_some, Option.getD_some, run, one_ne_zero, if_false,
    if_neg some', fill, Option.bind_none]

/-- **The step lemma.** -/
theorem cmdAllocdemo_step (zero : 0 ∉ avail) (rest : AtRest avail s bs)
    (run : cmdAllocdemo buffer tmp array m args s = some (out, s')) : ∃ bs', AtRest avail s' bs' ∧ bs ⊆ bs' := by
  cases parsed : demoSize array m args with
  | none =>
    rw [cmdAllocdemo, parsed] at run
    cases run
  | some r =>
    rcases demoSize_cases parsed with rfl | ⟨n, small, rfl⟩
    · rw [cmdAllocdemo, parsed] at run
      cases run
      exact ⟨bs, rest, List.Subset.refl _⟩
    · by_cases sound : Heap.NoWrap ⟨s, [], []⟩ n
      · obtain ⟨s'', run', rest', -⟩ :=
          @cmdAllocdemo_lent avail s bs array n m buffer tmp args zero rest small sound parsed
        rw [run'] at run
        cases run
        exact ⟨_, rest', fun x => restRequest_keeps n s.pmm⟩
      · rw [cmdAllocdemo_faults zero rest small sound parsed] at run
        cases run

theorem atRest_start {p : Pmm.State} {boot : Boot} (init : (allocdemos p boot).Init s) :
    AtRest (freeSet (pmmInit p boot)) s [] := by
  obtain ⟨s₀, rfl⟩ := init
  exact ⟨⟨[], heapInv_start ⟨s₀, rfl⟩, rfl⟩, by simp⟩

theorem atRest_run {p : Pmm.State} {boot : Boot} {calls : List (Mem × List Nat)}
    (run : (allocdemos p boot).Run calls s) :
    ∃ bs, AtRest (freeSet (pmmInit p boot)) s bs := by
  apply run.invariant
  · exact fun s init => ⟨[], atRest_start init⟩
  · intro s a s' inv step
    obtain ⟨bs, rest⟩ := inv
    obtain ⟨buffer, tmp, out, run⟩ := step
    obtain ⟨bs', rest', -⟩ := cmdAllocdemo_step (zero_not_free p boot) rest run
    exact ⟨bs', rest'⟩

end

/-- What the next command does for a size `n` that it read, in the state `s`. -/
structure NextDemo (s : Machine) (n : Nat) (buffer tmp m : Mem) (args : List Nat) : Prop where
  faults : cmdAllocdemo buffer tmp cmdBufferSize m args s = none ↔ ¬ Heap.NoWrap ⟨s, [], []⟩ n
  returns : Heap.NoWrap ⟨s, [], []⟩ n → ∃ s',
    cmdAllocdemo buffer tmp cmdBufferSize m args s = some (demoOutput n (restRequest n (blockList s) s.pmm).1, s') ∧
    (blockList s', s'.pmm) = (restRequest n (blockList s) s.pmm).2 ∧ blockList s ⊆ blockList s' ∧
    ((restRequest n (blockList s) s.pmm).1 ≠ 0 → ∀ k, 0 < k → k ≤ n →
      ∃ b ∈ blockList s', restRequest k (blockList s') s'.pmm = (b.addr + 24, blockList s', s'.pmm))

/-- **The heap between commands.** After any runs of the command the heap is idle. The next one
faults exactly on a size that wraps and is granted; otherwise it prints what it got, and leaves the
list and the frames as they were, unless no block fits and a run of frames is free: then the list is
one block longer. No block ever goes, and what it has got once, or less, it gets again without
growing the heap. -/
theorem allocdemo_at_rest (p : Pmm.State) (boot : Boot) (calls : List (Mem × List Nat)) (s : Machine)
    (run : (allocdemos p boot).Run calls s) : Idle (pmmInit p boot) s ∧
      ∀ buffer tmp m args n, demoSize cmdBufferSize m args = some (1, some n) → NextDemo s n buffer tmp m args := by
  obtain ⟨bs, rest⟩ := atRest_run run
  refine ⟨AtRest.idle rest, fun buffer tmp m args n parsed => ?_⟩
  have zero := zero_not_free p boot
  obtain eq | ⟨k, small, eq⟩ := demoSize_cases parsed
  · cases eq
  · cases eq
    have list := rest.blockList_eq
    refine ⟨⟨fun faults sound => ?_, fun wraps => cmdAllocdemo_faults zero rest small wraps parsed⟩, fun sound => ?_⟩
    · obtain ⟨s', run', -⟩ := @cmdAllocdemo_lent _ s bs cmdBufferSize n m buffer tmp args zero rest small sound parsed
      rw [faults] at run'
      cases run'
    · obtain ⟨s', run', rest', pmm⟩ :=
        @cmdAllocdemo_lent _ s bs cmdBufferSize n m buffer tmp args zero rest small sound parsed
      have list' := rest'.blockList_eq
      rw [list]
      refine ⟨s', run', ?_⟩
      rw [list', pmm]
      refine ⟨rfl, fun x => restRequest_keeps n s.pmm, fun granted k positive le => ?_⟩
      obtain ⟨p, h, -, lent⟩ := rest.lent zero sound
      have bound := lent.bound (lent.pointer ▸ granted)
      obtain ⟨b, member, fit⟩ := restRequest_serves (by omega) granted
      exact restRequest_listed (by omega) member (fits_mono le (by omega) fit) _

/-- On 16 pages at 1 MiB: `allocdemo` takes one page, and `allocdemo 18446744073709551585` after it faults. -/
theorem allocdemo_at_rest_page : ∃ s, (allocdemos bss smallBoot).Run [(fun _ => 0, [])] s ∧
    blockList s = [⟨0x100000, 4072, true⟩] ∧ s.usedBytes = 0 ∧
    ∀ buffer tmp m args, demoSize cmdBufferSize m args = some (1, some (2 ^ 64 - 31)) →
      cmdAllocdemo buffer tmp cmdBufferSize m args s = none := by
  obtain ⟨s₀, init⟩ : ∃ s₀, (allocdemos bss smallBoot).Init s₀ := ⟨_, ⟨fun _ => 0, 0, 0, 0, bss⟩, rfl⟩
  have rest := atRest_start init
  obtain ⟨regions, inv, count⟩ := rest.inv
  have regionless : regions = [] := List.length_eq_zero_iff.1 count
  have page := smallBoot_page inv regionless
  obtain ⟨s, run, rest', -⟩ := @cmdAllocdemo_lent _ s₀ [] cmdBufferSize 64 (fun _ => 0) (fun _ => 0) (fun _ => 0) []
    (zero_not_free bss smallBoot) rest (by decide) (.inl (by decide)) rfl
  have answer := @restRequest_missing [] 64 (by decide) rfl s₀.pmm
  rw [show expandPages (alignUp 64) = 1 by decide] at answer
  dsimp only at page
  rw [page, if_neg (by decide)] at answer
  rw [answer] at rest'
  have whole : (allocdemos bss smallBoot).Run [(fun _ => 0, [])] s := (Lts.Run.start init).snoc ⟨_, _, _, run⟩
  obtain ⟨idle, next⟩ := allocdemo_at_rest bss smallBoot _ s whole
  refine ⟨s, whole, rest'.blockList_eq, idle.used, fun buffer tmp m args parsed => ?_⟩
  refine (next buffer tmp m args _ parsed).faults.2 fun sound => ?_
  rcases sound with below | ⟨none, -⟩
  · exact absurd below (by decide)
  · have free : 257 ∈ freeSet s.pmm := by
      refine (rest'.frames 257).2 ⟨smallBoot_free.2 (by omega), fun inside => ?_⟩
      obtain ⟨b, hb, lo, hi⟩ := inside
      rw [List.mem_singleton.1 hb] at hi
      exact absurd hi (by decide)
    exact Finset.ne_empty_of_mem free none

end SimpleKernel.Shell
