import SimpleKernel.Lib.Numeral

/-!
# Printed formats

A `Format` prints a value and parses it back from the front of a text, whatever follows it. Words
and numerals end with a character that they do not have, formats follow one another (`followedBy`,
`behind`), and a text of several items is read to its end (`readAll_flatMap`).
-/

namespace Lib
set_option autoImplicit false

structure Format (α β : Type*) where
  Valid : α → Prop
  print : α → List β
  parse : List β → Option (α × List β)
  parse_print : ∀ x, Valid x → ∀ rest, parse (print x ++ rest) = some (x, rest)

namespace Format

variable {α β γ : Type*}

section

variable [DecidableEq β]

/-- A fixed text. -/
def text (t : List β) : Format Unit β where
  Valid _ := True
  print _ := t
  parse l := if l.take t.length = t then some ((), l.drop t.length) else none
  parse_print _ _ rest := by rw [List.take_left, if_pos rfl, List.drop_left]

/-- A word and the character behind it, which the word does not have. -/
def word (stop : β) : Format (List β) β where
  Valid w := stop ∉ w
  print w := w ++ [stop]
  parse l :=
    match l.dropWhile (fun c => decide (c ≠ stop)) with
    | [] => none
    | _ :: rest => some (l.takeWhile (fun c => decide (c ≠ stop)), rest)
  parse_print w valid rest := by
    have apart : ∀ c ∈ w, decide (c ≠ stop) = true := fun c member => decide_eq_true fun same => valid (same ▸ member)
    have here : decide (stop ≠ stop) = false := decide_eq_false fun ne => ne rfl
    rw [List.append_assoc, List.dropWhile_append_of_pos apart, List.takeWhile_append_of_pos apart,
      List.singleton_append, List.dropWhile_cons_of_neg (by rw [here]; decide),
      List.takeWhile_cons_of_neg (by rw [here]; decide), List.append_nil]

end

/-- A format for what another format's values stand for. -/
def via (F : Format α β) (f : γ → α) (g : α → Option γ) : Format γ β where
  Valid x := F.Valid (f x) ∧ g (f x) = some x
  print x := F.print (f x)
  parse l := (F.parse l).bind fun r => (g r.1).map fun x => (x, r.2)
  parse_print x valid rest := by
    rw [F.parse_print _ valid.1 rest, Option.bind_some, valid.2]
    rfl

/-- One behind the other. -/
def followedBy (F : Format α β) (G : Format γ β) : Format (α × γ) β where
  Valid x := F.Valid x.1 ∧ G.Valid x.2
  print x := F.print x.1 ++ G.print x.2
  parse l := (F.parse l).bind fun r => (G.parse r.2).map fun q => ((r.1, q.1), q.2)
  parse_print x valid rest := by
    rw [List.append_assoc, F.parse_print _ valid.1, Option.bind_some, G.parse_print _ valid.2]
    rfl

/-- Behind a fixed text. -/
def behind [DecidableEq β] (t : List β) (F : Format α β) : Format α β :=
  ((text t).followedBy F).via (fun x => ((), x)) fun r => some r.2

theorem behind_valid [DecidableEq β] {t : List β} {F : Format α β} {x : α} (valid : F.Valid x) : (F.behind t).Valid x :=
  ⟨⟨trivial, valid⟩, rfl⟩

/-- Items up to the end of the text, one for each unit of fuel. -/
def parseAll (F : Format α β) : Nat → List β → Option (List α)
  | _, [] => some []
  | 0, _ :: _ => none
  | fuel + 1, c :: l => (F.parse (c :: l)).bind fun r => (parseAll F fuel r.2).map fun xs => r.1 :: xs

/-- All items of a text. -/
def readAll (F : Format α β) (l : List β) : Option (List α) := F.parseAll l.length l

theorem parseAll_flatMap (F : Format α β) {xs : List α} (valid : ∀ x ∈ xs, F.Valid x) (some' : ∀ x ∈ xs, F.print x ≠ [])
    {fuel : Nat} (enough : xs.length ≤ fuel) : F.parseAll fuel (xs.flatMap F.print) = some xs := by
  induction xs generalizing fuel with
  | nil =>
    cases fuel with
    | zero => rfl
    | succ fuel => rfl
  | cons x xs ih =>
    obtain ⟨fuel, rfl⟩ : ∃ k, fuel = k + 1 := ⟨fuel - 1, by rw [List.length_cons] at enough; omega⟩
    obtain ⟨c, l, eq⟩ := List.exists_cons_of_ne_nil (some' x List.mem_cons_self)
    have parsed := F.parse_print x (valid x List.mem_cons_self) (xs.flatMap F.print)
    have rest := ih (fun y hy => valid y (List.mem_cons_of_mem _ hy)) (fun y hy => some' y (List.mem_cons_of_mem _ hy))
      (Nat.le_of_succ_le_succ enough)
    rw [List.flatMap_cons, eq, List.cons_append] at *
    rw [parseAll, parsed]
    simp only [Option.bind_some, rest, Option.map_some]

/-- **Items are read back** from their texts in a row. -/
theorem readAll_flatMap (F : Format α β) {xs : List α} (valid : ∀ x ∈ xs, F.Valid x)
    (some' : ∀ x ∈ xs, F.print x ≠ []) : F.readAll (xs.flatMap F.print) = some xs := by
  apply F.parseAll_flatMap valid some'
  clear valid
  induction xs with
  | nil => exact Nat.zero_le _
  | cons x xs ih =>
    have first := List.length_pos_iff.2 (some' x List.mem_cons_self)
    have rest := ih fun y hy => some' y (List.mem_cons_of_mem _ hy)
    rw [List.flatMap_cons, List.length_append, List.length_cons]
    omega

end Format

namespace Alphabet

variable {α : Type*} [DecidableEq α] {base : Nat} (A : Alphabet α base)

/-- A numeral and the character behind it. -/
def format (stop : α) : Format Nat α := (Format.word stop).via A.numeral A.read

theorem format_valid {stop : α} (apart : ∀ d, d < base → A.char d ≠ stop) (n : Nat) : (A.format stop).Valid n := by
  refine ⟨fun member => ?_, A.read_numeral n⟩
  unfold numeral at member
  split at member
  · exact apart 0 (Nat.lt_trans Nat.zero_lt_one A.one_lt) (List.mem_singleton.1 member).symm
  · obtain ⟨d, small, eq⟩ := A.mem_digits member
    exact apart d small eq

end Alphabet

end Lib
