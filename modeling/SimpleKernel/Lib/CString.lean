import SimpleKernel.Lib.Memory
import Mathlib.Tactic.Common

/-!
# C strings in arrays of known size

An array of `size` bytes is a memory that is used below `size` only: `loadIn` and `storeIn`
fail at any other index, so code that runs to an end has stayed inside its arrays.
`StrAt m a s` says that the NUL-terminated string at `a` is `s`. `scan` is the loop that
advances an index while a test holds.
-/

namespace Lib
set_option autoImplicit false

def loadIn (size : Nat) (m : Mem) (i : Nat) : Option (BitVec 8) := if i < size then some (m i) else none

def storeIn (size : Nat) (m : Mem) (i : Nat) (v : BitVec 8) : Option Mem :=
  if i < size then some (storeByte m i v) else none

theorem loadIn_of_lt {size : Nat} {m : Mem} {i : Nat} (inside : i < size) : loadIn size m i = some (m i) :=
  if_pos inside

theorem storeIn_of_lt {size : Nat} {m : Mem} {i : Nat} {v : BitVec 8} (inside : i < size) :
    storeIn size m i v = some (storeByte m i v) := if_pos inside

/-- `while (test(m[i])) i++`. -/
def scan (size : Nat) (m : Mem) (test : BitVec 8 → Bool) : Nat → Nat → Option Nat
  | 0, _ => none
  | fuel + 1, i => do
    let c ← loadIn size m i
    if test c then scan size m test fuel (i + 1) else some i

theorem scan_eq {size : Nat} {m : Mem} {test : BitVec 8 → Bool} {n fuel i : Nat} (inside : i + n < size)
    (enough : n < fuel) (passed : ∀ j, j < n → test (m (i + j)) = true) (stop : test (m (i + n)) = false) :
    scan size m test fuel i = some (i + n) := by
  induction n generalizing fuel i with
  | zero =>
    obtain ⟨fuel, rfl⟩ : ∃ k, fuel = k + 1 := ⟨fuel - 1, by omega⟩
    rw [Nat.add_zero] at stop
    rw [scan, loadIn_of_lt (by omega)]
    simp [stop]
  | succ n ih =>
    obtain ⟨fuel, rfl⟩ : ∃ k, fuel = k + 1 := ⟨fuel - 1, by omega⟩
    have here := passed 0 (by omega)
    have next : ∀ j, i + 1 + j = i + (j + 1) := fun j => by omega
    have rest := @ih fuel (i + 1) (by omega) (by omega) (fun j hj => next j ▸ passed (j + 1) (by omega)) (next n ▸ stop)
    rw [Nat.add_zero] at here
    rw [scan, loadIn_of_lt (by omega)]
    simp [here, rest, next]

/-- The string at `a`: its bytes, none NUL, and the terminator. -/
structure StrAt (m : Mem) (a : Nat) (s : List (BitVec 8)) : Prop where
  bytes : ∀ i (_ : i < s.length), m (a + i) = s[i]
  nonzero : ∀ c ∈ s, c ≠ 0
  nul : m (a + s.length) = 0

section

variable {m m' : Mem} {a : Nat} {s t : List (BitVec 8)} {c : BitVec 8}

theorem strAt_nil : StrAt m a [] ↔ m a = 0 := by
  constructor
  · intro h
    exact h.nul
  · intro nul
    exact ⟨fun _ hi => absurd hi (Nat.not_lt_zero _), by simp, nul⟩

theorem StrAt.byte (h : StrAt m a s) {i : Nat} (inside : i < s.length) : m (a + i) ≠ 0 := by
  rw [h.bytes i inside]
  exact h.nonzero _ (List.getElem_mem inside)

/-- A string has one length and one reading. -/
theorem StrAt.unique (h : StrAt m a s) (h' : StrAt m a t) : s = t := by
  have length : s.length = t.length := by
    rcases Nat.lt_trichotomy s.length t.length with lt | eq | lt
    · exact absurd h.nul (h'.byte lt)
    · exact eq
    · exact absurd h'.nul (h.byte lt)
  refine List.ext_getElem length fun i hi hi' => ?_
  rw [← h.bytes i hi, ← h'.bytes i hi']

theorem StrAt.congr (h : StrAt m a s) (same : ∀ i, i ≤ s.length → m' (a + i) = m (a + i)) : StrAt m' a s :=
  ⟨fun i hi => (same i (Nat.le_of_lt hi)).trans (h.bytes i hi), h.nonzero, (same _ le_rfl).trans h.nul⟩

theorem strAt_cons : StrAt m a (c :: s) ↔ m a = c ∧ c ≠ 0 ∧ StrAt m (a + 1) s := by
  constructor
  · intro h
    refine ⟨h.bytes 0 (Nat.succ_pos _), h.nonzero c List.mem_cons_self, fun i hi => ?_,
      fun d hd => h.nonzero d (List.mem_cons_of_mem _ hd), ?_⟩
    · rw [Nat.add_assoc, Nat.add_comm 1 i]
      exact h.bytes (i + 1) (Nat.succ_lt_succ hi)
    · rw [Nat.add_assoc, Nat.add_comm 1]
      exact h.nul
  · intro h
    obtain ⟨first, nonzero, rest⟩ := h
    refine ⟨fun i hi => ?_, List.forall_mem_cons.2 ⟨nonzero, rest.nonzero⟩, ?_⟩
    · cases i with
      | zero => exact first
      | succ i =>
        have byte := rest.bytes i (Nat.lt_of_succ_lt_succ hi)
        rw [Nat.add_assoc, Nat.add_comm 1 i] at byte
        exact byte
    · have nul := rest.nul
      rw [Nat.add_assoc, Nat.add_comm 1] at nul
      exact nul

/-- An array with a NUL in it holds a string. -/
theorem exists_strAt {n : Nat} (nul : m (a + n) = 0) : ∃ s, StrAt m a s ∧ s.length ≤ n := by
  induction n generalizing a with
  | zero => exact ⟨[], strAt_nil.2 nul, le_rfl⟩
  | succ n ih =>
    by_cases zero : m a = 0
    · exact ⟨[], strAt_nil.2 zero, Nat.zero_le _⟩
    · obtain ⟨s, rest, length⟩ := @ih (a + 1) (by rw [Nat.add_assoc, Nat.add_comm 1]; exact nul)
      exact ⟨m a :: s, strAt_cons.2 ⟨rfl, zero, rest⟩, Nat.succ_le_succ length⟩

end

/-- A text and its terminator at the start of a memory. -/
theorem strAt_getD {s : List (BitVec 8)} (nonzero : ∀ c ∈ s, c ≠ 0) : StrAt (fun i => s.getD i 0) 0 s := by
  refine ⟨?_, nonzero, ?_⟩
  · intro i hi
    rw [Nat.zero_add]
    exact (List.getElem_eq_getD 0).symm
  · rw [Nat.zero_add, List.getD_eq_getElem?_getD, List.getElem?_eq_none (Nat.le_refl _)]
    rfl

/-- The loop of `strlen`. -/
theorem scan_string {size : Nat} {m : Mem} {a fuel : Nat} {s : List (BitVec 8)} (h : StrAt m a s)
    (inside : a + s.length < size) (enough : s.length < fuel) :
    scan size m (fun c => c != 0) fuel a = some (a + s.length) :=
  scan_eq inside enough (fun j hj => bne_iff_ne.2 (h.byte hj)) (by rw [h.nul]; rfl)

end Lib
