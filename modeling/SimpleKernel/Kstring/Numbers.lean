import SimpleKernel.Kstring
import SimpleKernel.Lib.Numeral
import SimpleKernel.Lib.Word

/-!
# `kstring.c`: numbers as text

`ku64_parse` accumulates in 64 bits and does not look for a carry: what it stores is the
value of the numeral modulo `2 ^ 64` (`ku64Loop_spec`). `convert_u64` makes the digits in a
scratch array, least significant first, and copies as many as there is room for, from the
end (`convertU64_spec`).
-/

namespace SimpleKernel.Kstring
set_option autoImplicit false
open Lib

/-! ## `ku64_parse` -/

/-- The loop: the value, or `some none` for a character that is not a digit. Characters are
signed. -/
def ku64Loop (size : Nat) (m : Mem) : Nat → Nat → Nat → Option (Option Nat)
  | 0, _, _ => none
  | fuel + 1, str, out => do
    let c ← loadIn size m str
    if c ≠ 0 then
      if c.toInt < 0x30 ∨ c.toInt > 0x39 then some none
      else ku64Loop size m fuel (str + 1) (u64 (u64 (out * 10) + (c.toNat - 0x30)))
    else some (some out)

/-- The result and `*value`; `none` is a null pointer. -/
def ku64Parse (size : Nat) (m : Mem) (str value : Option Nat) : Option (Nat × Option Nat) :=
  match str with
  | none => some (0, value)
  | some str => do
    let first ← loadIn size m str
    if first = 0 ∨ value = none then some (0, value)
    else
      let parsed ← ku64Loop size m (size + 1) str 0
      match parsed with
      | none => some (0, value)
      | some out => some (1, some out)

def decimal : Alphabet (BitVec 8) 10 where
  char d := BitVec.ofNat 8 (0x30 + d)
  digit c := if 0x30 ≤ c.toNat ∧ c.toNat ≤ 0x39 then some (c.toNat - 0x30) else none
  one_lt := by decide
  digit_char := by decide

section

variable {size : Nat} {m : Mem} {a : Nat} {s : List (BitVec 8)}

/-- The test for a digit. -/
theorem decimal_digit (c : BitVec 8) : decimal.digit c =
    if c.toInt < 0x30 ∨ c.toInt > 0x39 then none else some (c.toNat - 0x30) := by
  have range := c.isLt
  have signed : (c.toInt < 0x30 ∨ c.toInt > 0x39) ↔ ¬ (0x30 ≤ c.toNat ∧ c.toNat ≤ 0x39) := by
    rw [BitVec.toInt_eq_toNat_cond]
    split <;> omega
  show (if 0x30 ≤ c.toNat ∧ c.toNat ≤ 0x39 then _ else _) = _
  simp only [signed, ite_not]

/-- **The loop** reads the numeral modulo `2 ^ 64`. -/
theorem ku64Loop_spec {fuel n : Nat} (h : StrAt m a s) (inside : a + s.length < size) (enough : s.length < fuel) :
    ku64Loop size m fuel a (u64 n) = some ((decimal.readFrom n s).map u64) := by
  induction s generalizing fuel a n with
  | nil =>
    obtain ⟨fuel, rfl⟩ : ∃ k, fuel = k + 1 := ⟨fuel - 1, by omega⟩
    have nul := strAt_nil.1 h
    rw [ku64Loop, loadIn_of_lt (by omega), nul]
    rfl
  | cons c s ih =>
    obtain ⟨fuel, rfl⟩ : ∃ k, fuel = k + 1 := ⟨fuel - 1, by omega⟩
    obtain ⟨first, nonzero, rest⟩ := strAt_cons.1 h
    rw [List.length_cons] at inside enough
    rw [ku64Loop, loadIn_of_lt (by omega), first, Alphabet.readFrom_cons, decimal_digit]
    show (if c ≠ 0 then _ else _) = _
    rw [if_pos nonzero]
    split
    · rfl
    · have wrap : u64 (u64 (u64 n * 10) + (c.toNat - 0x30)) = u64 (n * 10 + (c.toNat - 0x30)) := by
        unfold u64
        omega
      rw [wrap]
      exact ih rest (by omega) (by omega)

/-- What a call does with a text: it succeeds on a numeral below `2 ^ 64`, with its value, and
otherwise fails and leaves `*value`. -/
def ParsesExactly (size : Nat) (m : Mem) (a : Nat) (s : List (BitVec 8)) (old : Nat) : Prop :=
  (∃ n, s ≠ [] ∧ decimal.read s = some n ∧ n < 2 ^ 64 ∧ ku64Parse size m (some a) (some old) = some (1, some n)) ∨
    ((s = [] ∨ ∀ n, decimal.read s = some n → 2 ^ 64 ≤ n) ∧
      ku64Parse size m (some a) (some old) = some (0, some old))

/-- **What a call computes.** -/
theorem ku64Parse_eq (h : StrAt m a s) (inside : a + s.length < size) (old : Nat) :
    ku64Parse size m (some a) (some old) = some (match if s = [] then none else decimal.read s with
      | none => (0, some old)
      | some n => (1, some (u64 n))) := by
  have byte : loadIn size m a = some (m a) := loadIn_of_lt (by omega)
  have loop := @ku64Loop_spec size m a s (size + 1) 0 h inside (by omega)
  rw [show u64 0 = 0 from rfl] at loop
  unfold ku64Parse
  dsimp only
  rw [byte]
  show (if m a = 0 ∨ some old = none then _ else _) = _
  cases s with
  | nil => rw [if_pos (.inl (strAt_nil.1 h)), if_pos rfl]
  | cons c s =>
    obtain ⟨first, nonzero, -⟩ := strAt_cons.1 h
    have go : ¬ (m a = 0 ∨ some old = none) := by
      rintro (nul | null)
      · exact nonzero (first.symm.trans nul)
      · cases null
    rw [if_neg go, if_neg (List.cons_ne_nil c s), loop, Alphabet.read]
    cases decimal.readFrom 0 (c :: s) with
    | none => rfl
    | some n => rfl

/-- **When `ku64_parse` accepts exactly the numerals of 64-bit numbers**: on every text but the
numerals from `2 ^ 64` on. -/
theorem ku64_parse_iff (h : StrAt m a s) (old : Nat) : ParsesExactly (a + s.length + 1) m a s old ↔
    ¬ (s ≠ [] ∧ ∃ n, decimal.read s = some n ∧ 2 ^ 64 ≤ n) := by
  have run := ku64Parse_eq h (Nat.lt_succ_self (a + s.length)) old
  unfold ParsesExactly
  rw [run]
  by_cases empty : s = []
  · rw [if_pos empty]
    exact iff_of_true (.inr ⟨.inl empty, rfl⟩) fun bad => bad.1 empty
  · rw [if_neg empty]
    cases value : decimal.read s with
    | none =>
      refine iff_of_true (.inr ⟨.inr ?_, rfl⟩) ?_
      · intro n eq
        cases eq
      · rintro ⟨-, n, eq, -⟩
        cases eq
    | some n =>
      by_cases small : n < 2 ^ 64
      · refine iff_of_true (.inl ⟨n, empty, rfl, small, ?_⟩) ?_
        · show some (1, some (u64 n)) = _
          rw [u64_of_lt small]
        · rintro ⟨-, n', eq, large⟩
          cases eq
          omega
      · refine iff_of_false ?_ fun good => good ⟨empty, n, rfl, by omega⟩
        rintro (⟨n', -, eq, small', -⟩ | ⟨-, failed⟩)
        · cases eq
          omega
        · cases failed

end

/-- `4096`, as in the unit tests. -/
def text4096 : List (BitVec 8) := [0x34, 0x30, 0x39, 0x36]

theorem ku64_parse_iff_unit_test : ParsesExactly 5 (fun i => text4096.getD i 0) 0 text4096 7 := by
  refine (ku64_parse_iff (strAt_getD (by decide)) 7).2 ?_
  rintro ⟨-, n, value, large⟩
  have eq : decimal.read text4096 = some 4096 := by decide
  cases eq.symm.trans value
  exact absurd large (by decide)

/-- `18446744073709551616`, the numeral of `2 ^ 64`. -/
def textTwo64 : List (BitVec 8) :=
  [0x31, 0x38, 0x34, 0x34, 0x36, 0x37, 0x34, 0x34, 0x30, 0x37,
    0x33, 0x37, 0x30, 0x39, 0x35, 0x35, 0x31, 0x36, 0x31, 0x36]

/-- It is accepted as 0. -/
theorem two64_parsed_as_zero : StrAt (fun i => textTwo64.getD i 0) 0 textTwo64 ∧
    ku64Parse 21 (fun i => textTwo64.getD i 0) (some 0) (some 7) = some (1, some 0) ∧
    ¬ ParsesExactly 21 (fun i => textTwo64.getD i 0) 0 textTwo64 7 := by
  have value : decimal.read textTwo64 = some (2 ^ 64) := by decide
  have text : StrAt (fun i => textTwo64.getD i 0) 0 textTwo64 := strAt_getD (by decide)
  have run : ku64Parse 21 (fun i => textTwo64.getD i 0) (some 0) (some 7) = some (1, some 0) := by
    rw [ku64Parse_eq text (by decide) 7, value]
    rfl
  refine ⟨text, run, ?_⟩
  rintro (⟨n, -, eq, small, -⟩ | ⟨-, failed⟩)
  · cases value.symm.trans eq
    exact absurd small (by decide)
  · cases run.symm.trans failed

/-! ## `convert_u64` -/

/-- `while (value > 0 && pos < sizeof(tmp))`; `left` is `sizeof(tmp) - pos`. -/
def digitLoop (base : Nat) (digits : List (BitVec 8)) : Nat → Mem → Nat → Nat → Mem × Nat
  | 0, tmp, pos, _ => (tmp, pos)
  | left + 1, tmp, pos, value =>
    if value > 0 then
      digitLoop base digits left (storeByte tmp pos (digits.getD (value % base) 0)) (pos + 1) (value / base)
    else (tmp, pos)

/-- `while (pos > 0 && out + 1 < size)`, from `pos` and `out` on. -/
def copyLoop (buffer size : Nat) (tmp : Mem) : Nat → Mem → Nat → Mem × Nat
  | 0, m, out => (m, out)
  | pos + 1, m, out =>
    if out + 1 < size then copyLoop buffer size tmp pos (storeByte m (buffer + out) (tmp pos)) (out + 1) else (m, out)

/-- The memory afterwards; the pointer returned is `buffer`. `tmp` is what the scratch array holds
before. -/
def convertU64 (m : Mem) (tmp : Mem) (buffer size value base : Nat) (digits : List (BitVec 8)) : Mem :=
  if size = 0 then m
  else if value = 0 then
    if size > 1 then storeByte (storeByte m buffer 0x30) (buffer + 1) 0 else storeByte m buffer 0
  else
    let (tmp, pos) := digitLoop base digits 32 tmp 0 value
    let (m, out) := copyLoop buffer size tmp pos m 0
    storeByte m (buffer + out) 0

/-- `"0123456789"`. -/
def decDigits : List (BitVec 8) := [0x30, 0x31, 0x32, 0x33, 0x34, 0x35, 0x36, 0x37, 0x38, 0x39]

/-- `"0123456789ABCDEF"`. -/
def hexDigits : List (BitVec 8) :=
  [0x30, 0x31, 0x32, 0x33, 0x34, 0x35, 0x36, 0x37, 0x38, 0x39, 0x41, 0x42, 0x43, 0x44, 0x45, 0x46]

def ku64ToDec (m : Mem) (tmp : Mem) (buffer size value : Nat) : Mem := convertU64 m tmp buffer size value 10 decDigits

def ku64ToHex (m : Mem) (tmp : Mem) (buffer size value : Nat) : Mem := convertU64 m tmp buffer size value 16 hexDigits

/-- Base 16, upper case. -/
def hexadecimal : Alphabet (BitVec 8) 16 where
  char d := if d < 10 then BitVec.ofNat 8 (0x30 + d) else BitVec.ofNat 8 (0x41 + (d - 10))
  digit c :=
    if 0x30 ≤ c.toNat ∧ c.toNat ≤ 0x39 then some (c.toNat - 0x30)
    else if 0x41 ≤ c.toNat ∧ c.toNat ≤ 0x46 then some (c.toNat - 0x41 + 10)
    else none
  one_lt := by decide
  digit_char := by decide

section

variable {base : Nat} {A : Alphabet (BitVec 8) base} {digits : List (BitVec 8)} {tmp m : Mem} {buffer size value : Nat}

/-- **The scratch array** gets the digits from the end on. -/
theorem digitLoop_spec {left pos : Nat} (chars : ∀ d, d < base → digits.getD d 0 = A.char d)
    (fits : (A.digits value).length ≤ left) :
    ∃ tmp', digitLoop base digits left tmp pos value = (tmp', pos + (A.digits value).length) ∧
      (∀ i, i < pos → tmp' i = tmp i) ∧
      ∀ i, i < (A.digits value).length → (A.digits value).reverse[i]? = some (tmp' (pos + i)) := by
  induction left generalizing tmp pos value with
  | zero =>
    rw [Nat.le_zero.1 fits]
    exact ⟨tmp, rfl, fun _ _ => rfl, fun i hi => absurd hi (Nat.not_lt_zero i)⟩
  | succ left ih =>
    rw [digitLoop]
    by_cases positive : value > 0
    · have digit := chars (value % base) (Nat.mod_lt _ (Nat.lt_trans Nat.zero_lt_one A.one_lt))
      have split := A.digits_pos positive
      have length := congrArg List.length split
      rw [List.length_append, List.length_singleton] at length
      obtain ⟨tmp', run, kept, rest⟩ :=
        @ih (storeByte tmp pos (A.char (value % base))) (value / base) (pos + 1) (by omega)
      refine ⟨tmp', ?_, ?_, ?_⟩
      · rw [if_pos positive, digit, run, length, Nat.add_right_comm, Nat.add_assoc]
      · intro i hi
        rw [kept i (by omega)]
        exact storeByte_out (by omega)
      · intro i hi
        rw [split, List.reverse_append, List.reverse_singleton, List.singleton_append]
        cases i with
        | zero =>
          rw [Nat.add_zero, kept pos (Nat.lt_succ_self pos), storeByte_self]
          rfl
        | succ i =>
          rw [List.getElem?_cons_succ, rest i (by omega), Nat.add_right_comm, Nat.add_assoc]
    · have zero : value = 0 := by omega
      rw [if_neg positive, zero, A.digits_zero]
      exact ⟨tmp, rfl, fun _ _ => rfl, fun i hi => absurd hi (Nat.not_lt_zero i)⟩

/-- **The copy** takes characters from `pos` down, as long as there is room for a terminator. -/
theorem copyLoop_spec {pos out : Nat} :
    ∃ m', copyLoop buffer size tmp pos m out = (m', out + min pos (size - 1 - out)) ∧
    SameOutside (fun x => buffer + out ≤ x ∧ x < buffer + out + min pos (size - 1 - out)) m m' ∧
    ∀ i, i < min pos (size - 1 - out) → m' (buffer + out + i) = tmp (pos - 1 - i) := by
  induction pos generalizing m out with
  | zero =>
    rw [Nat.zero_min]
    exact ⟨m, rfl, .refl _ _, fun i hi => absurd hi (Nat.not_lt_zero i)⟩
  | succ pos ih =>
    rw [copyLoop]
    by_cases room : out + 1 < size
    · obtain ⟨m', run, kept, copied⟩ := @ih (storeByte m (buffer + out) (tmp pos)) (out + 1)
      have count : min (pos + 1) (size - 1 - out) = min pos (size - 1 - (out + 1)) + 1 := by omega
      rw [if_pos room, run, count]
      refine ⟨m', ?_, ?_, ?_⟩
      · rw [Nat.add_right_comm, Nat.add_assoc]
      · intro x outside
        rw [kept x (by omega)]
        exact storeByte_out (by omega)
      · intro i hi
        cases i with
        | zero =>
          rw [kept _ (by omega), Nat.add_zero, storeByte_self]
          rfl
        | succ i =>
          have byte := copied i (by omega)
          rw [show buffer + out + (i + 1) = buffer + (out + 1) + i by omega, byte]
          congr 1
          omega
    · have none : min (pos + 1) (size - 1 - out) = 0 := by omega
      rw [if_neg room, none]
      exact ⟨m, rfl, .refl _ _, fun i hi => absurd hi (Nat.not_lt_zero i)⟩

/-- The buffer holds as much of the text as fits, and nothing else is written. -/
structure Formats (m m' : Mem) (buffer size : Nat) (text : List (BitVec 8)) : Prop where
  string : StrAt m' buffer (text.take (size - 1))
  outside : SameOutside (fun x => buffer ≤ x ∧ x < buffer + size) m m'

/-- **`convert_u64`**, for an alphabet that the digit string spells. -/
theorem convertU64_spec (chars : ∀ d, d < base → digits.getD d 0 = A.char d) (zero : A.char 0 = 0x30)
    (nonzero : ∀ d, d < base → A.char d ≠ 0) (fits : value < base ^ 32) (some : 1 ≤ size) :
    Formats m (convertU64 m tmp buffer size value base digits) buffer size (A.numeral value) := by
  have whole : size ≠ 0 := by omega
  unfold convertU64 Alphabet.numeral
  rw [if_neg whole]
  by_cases none : value = 0
  · rw [if_pos none, if_pos none, zero]
    by_cases room : size > 1
    · have all : [(0x30 : BitVec 8)].take (size - 1) = [0x30] :=
        List.take_of_length_le (Nat.le_sub_of_add_le room)
      rw [if_pos room]
      constructor
      · rw [all]
        refine strAt_cons.2 ⟨?_, by decide, strAt_nil.2 (storeByte_self _ _ _)⟩
        rw [storeByte_out (by omega), storeByte_self]
      · intro x outside
        rw [storeByte_out (by omega), storeByte_out (by omega)]
    · have one : size = 1 := by omega
      subst one
      rw [if_neg room]
      constructor
      · exact strAt_nil.2 (storeByte_self _ _ _)
      · intro x outside
        exact storeByte_out (by omega)
  · rw [if_neg none, if_neg none]
    obtain ⟨tmp', scratch, -, made⟩ := @digitLoop_spec base A digits tmp value 32 0 chars (A.digits_length_le fits)
    rw [scratch, Nat.zero_add]
    dsimp only
    obtain ⟨m', run, kept, copied⟩ := @copyLoop_spec tmp' m buffer size (A.digits value).length 0
    rw [Nat.sub_zero, Nat.zero_add, Nat.add_zero] at *
    rw [run]
    dsimp only
    have length : ((A.digits value).take (size - 1)).length = min (A.digits value).length (size - 1) := by
      rw [List.length_take, Nat.min_comm]
    constructor
    · refine ⟨?_, ?_, ?_⟩
      · intro i hi
        rw [length] at hi
        have digit := made ((A.digits value).length - 1 - i) (by omega)
        rw [List.getElem?_reverse (by omega), Nat.zero_add] at digit
        rw [storeByte_out (by omega), copied i hi, List.getElem_take]
        refine (Option.some.inj (digit.symm.trans ?_))
        rw [show (A.digits value).length - 1 - ((A.digits value).length - 1 - i) = i by omega]
        exact List.getElem?_eq_getElem _
      · intro c member
        obtain ⟨d, small, eq⟩ := A.mem_digits (List.mem_of_mem_take member)
        rw [← eq]
        exact nonzero d small
      · rw [length]
        exact storeByte_self _ _ _
    · intro x outside
      rw [storeByte_out (by omega)]
      exact kept x (by omega)

end

/-- **Formatting is canonical, bounded and invertible.** Both functions write inside the buffer only
and leave as much of the numeral without leading zeros as fits; when it fits as a whole, parsing
the decimal text and reading the hexadecimal one give the value back. -/
theorem ku64_format_exact {value : Nat} (small : value < 2 ^ 64) {size : Nat} (some : 1 ≤ size) (m tmp : Mem)
    (buffer : Nat) :
    (decimal.Canonical (decimal.numeral value) value ∧
      Formats m (ku64ToDec m tmp buffer size value) buffer size (decimal.numeral value)) ∧
    (hexadecimal.Canonical (hexadecimal.numeral value) value ∧
      Formats m (ku64ToHex m tmp buffer size value) buffer size (hexadecimal.numeral value)) ∧
    ((decimal.numeral value).length < size → ∀ old,
      ku64Parse (buffer + size) (ku64ToDec m tmp buffer size value) (.some buffer) (.some old) =
        .some (1, .some value)) ∧
    ((hexadecimal.numeral value).length < size →
      ∃ text, StrAt (ku64ToHex m tmp buffer size value) buffer text ∧ hexadecimal.read text = .some value) := by
  have dec : Formats m (ku64ToDec m tmp buffer size value) buffer size (decimal.numeral value) :=
    convertU64_spec (by decide) rfl (by decide) (Nat.lt_trans small (by decide)) some
  have hex : Formats m (ku64ToHex m tmp buffer size value) buffer size (hexadecimal.numeral value) :=
    convertU64_spec (by decide) rfl (by decide) (Nat.lt_trans small (by decide)) some
  have canonical := decimal.canonical_numeral value
  refine ⟨⟨canonical, dec⟩, ⟨hexadecimal.canonical_numeral value, hex⟩, ?_, ?_⟩
  · intro room old
    have text := dec.string
    rw [List.take_of_length_le (by omega)] at text
    rw [ku64Parse_eq text (by omega) old, if_neg canonical.nonempty, canonical.reads]
    show Option.some (1, Option.some (u64 value)) = _
    rw [u64_of_lt small]
  · intro room
    have text := hex.string
    rw [List.take_of_length_le (by omega)] at text
    exact ⟨_, text, hexadecimal.read_numeral value⟩

/-- A buffer of three characters for a number of four digits. -/
theorem ku64_format_exact_truncated :
    Formats (fun _ => 0) (ku64ToDec (fun _ => 0) (fun _ => 0) 0x1000 4 4096) 0x1000 4 (decimal.numeral 4096) :=
  (ku64_format_exact (by decide) (by decide) (fun _ => 0) (fun _ => 0) 0x1000).1.2

end SimpleKernel.Kstring
