import SimpleKernel.Lib.Memory

/-!
# Packed records

The fields of a packed record lie one behind the other, little endian, with nothing between them.
`HasFields m a fs` says that the record at `a` has the values of `fs`. Storing the fields makes it so
(`hasFields_storeFields`) and changes nothing outside the record; a loop that stores a record into
every slot of an array makes it so of every slot (`storeSlots_spec`).
-/

namespace Lib
set_option autoImplicit false

/-- A field: its bytes and its value. -/
structure Field where
  width : Nat
  value : Nat
  deriving DecidableEq, Repr

def recordSize : List Field → Nat
  | [] => 0
  | f :: fs => f.width + recordSize fs

/-- The stores of the fields. -/
def storeFields (m : Mem) (a : Nat) : List Field → Mem
  | [] => m
  | f :: fs => storeFields (storeLE m a f.width f.value) (a + f.width) fs

/-- The loads of the fields give their values, as far as they fit. -/
def HasFields (m : Mem) : Nat → List Field → Prop
  | _, [] => True
  | a, f :: fs => loadLE m a f.width = f.value % 256 ^ f.width ∧ HasFields m (a + f.width) fs

/-- A record stored into each of the first `n` slots of an array. -/
def storeSlots (m : Mem) (a : Nat) (fs : List Field) (n : Nat) : Mem :=
  (List.range n).foldl (fun m i => storeFields m (a + i * recordSize fs) fs) m

section

variable {m m' : Mem} {a n i : Nat} {f : Field} {fs : List Field}

@[simp] theorem recordSize_nil : recordSize [] = 0 := rfl

@[simp] theorem recordSize_cons : recordSize (f :: fs) = f.width + recordSize fs := rfl

theorem storeFields_outside (m : Mem) (a : Nat) (fs : List Field) :
    SameOutside (fun x => a ≤ x ∧ x < a + recordSize fs) m (storeFields m a fs) := by
  induction fs generalizing m a with
  | nil => exact .refl _ m
  | cons f fs ih =>
    rw [recordSize_cons]
    have first := (storeLE_same_outside m a f.width f.value).mono
      (Q := fun x => a ≤ x ∧ x < a + (f.width + recordSize fs)) (by omega)
    apply first.trans
    apply (ih _ _).mono
    intro x hx
    omega

/-- Nothing but the bytes of the record matters. -/
theorem HasFields.congr (h : HasFields m a fs) (same : ∀ x, a ≤ x → x < a + recordSize fs → m' x = m x) :
    HasFields m' a fs := by
  induction fs generalizing a with
  | nil => trivial
  | cons f fs ih =>
    rw [recordSize_cons] at same
    constructor
    · rw [loadLE_congr fun x lo hi => same x lo (by omega)]
      exact h.1
    · exact ih h.2 fun x lo hi => same x (by omega) (by omega)

/-- **A record that was stored** is there. -/
theorem hasFields_storeFields (m : Mem) (a : Nat) (fs : List Field) : HasFields (storeFields m a fs) a fs := by
  induction fs generalizing m a with
  | nil => trivial
  | cons f fs ih =>
    constructor
    · have kept := (storeFields_outside (storeLE m a f.width f.value) (a + f.width) fs).loadLE_eq
        (a := a) (n := f.width) fun x lo hi => by omega
      rw [storeFields, kept, loadLE_storeLE_same]
    · exact ih _ _

/-- A record of zeros is zero in every byte. -/
theorem HasFields.zero (h : HasFields m a fs) (zero : ∀ f ∈ fs, f.value = 0) {x : Nat} (lo : a ≤ x)
    (hi : x < a + recordSize fs) : m x = 0 := by
  induction fs generalizing a with
  | nil =>
    rw [recordSize_nil] at hi
    omega
  | cons f fs ih =>
    obtain ⟨first, rest⟩ := List.forall_mem_cons.1 zero
    rw [recordSize_cons] at hi
    by_cases inside : x < a + f.width
    · have value := h.1
      rw [first, Nat.zero_mod] at value
      exact loadLE_eq_zero.1 value x lo inside
    · exact ih h.2 rest (by omega) (by omega)

/-- **The slots of an array** after the loop over them. -/
theorem storeSlots_spec (m : Mem) (a : Nat) (fs : List Field) (n : Nat) :
    (∀ i, i < n → HasFields (storeSlots m a fs n) (a + i * recordSize fs) fs) ∧
      SameOutside (fun x => a ≤ x ∧ x < a + n * recordSize fs) m (storeSlots m a fs n) := by
  induction n with
  | zero => exact ⟨fun i hi => absurd hi (Nat.not_lt_zero i), .refl _ m⟩
  | succ n ih =>
    obtain ⟨slots, out⟩ := ih
    have step : storeSlots m a fs (n + 1) = storeFields (storeSlots m a fs n) (a + n * recordSize fs) fs := by
      simp [storeSlots, List.range_succ]
    have last := storeFields_outside (storeSlots m a fs n) (a + n * recordSize fs) fs
    rw [step]
    constructor
    · intro i hi
      rcases Nat.lt_succ_iff_lt_or_eq.1 hi with earlier | rfl
      · apply (slots i earlier).congr
        intro x lo hi
        have before : (i + 1) * recordSize fs ≤ n * recordSize fs := Nat.mul_le_mul_right _ earlier
        rw [Nat.succ_mul] at before
        exact last x (by omega)
      · exact hasFields_storeFields _ _ fs
    · rw [Nat.succ_mul]
      apply (out.mono _).trans (last.mono _)
      · intro x hx
        omega
      · intro x hx
        omega

end

end Lib
