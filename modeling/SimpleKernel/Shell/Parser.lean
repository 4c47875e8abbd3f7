import Mathlib.Data.List.Forall2
import Mathlib.Tactic.Common
import SimpleKernel.Shell.Model

/-!
# What the parser does to a line

On a string inside its array `shell_parse_command` ends without leaving the array. It turns
spaces into NULs and changes nothing else (`Cuts`), so the pieces between them become
strings of their own (`argLoop_spec`, `shellParseCommand_spec`).
-/

namespace SimpleKernel.Shell
set_option autoImplicit false
open Lib

/-- The maximal space-free pieces of a string, in order. -/
def tokens (s : List (BitVec 8)) : List (List (BitVec 8)) := (s.splitOn 0x20).filter fun t => decide (t ≠ [])

theorem tokens_nil : tokens [] = [] := by simp [tokens]

theorem tokens_space (s : List (BitVec 8)) : tokens (0x20 :: s) = tokens s := by
  rw [tokens, List.splitOn_eq_splitOnP, List.splitOnP_cons_eq_if_modifyHead, if_pos (by decide)]
  rfl

theorem tokens_spaces (a : Nat) (s : List (BitVec 8)) : tokens (List.replicate a 0x20 ++ s) = tokens s := by
  induction a with
  | zero => rfl
  | succ a ih =>
    rw [List.replicate_succ, List.cons_append, tokens_space]
    exact ih

section

variable {tok : List (BitVec 8)}

theorem tokens_word (nonempty : tok ≠ []) (word : ∀ c ∈ tok, c ≠ 0x20) : tokens tok = [tok] := by
  rw [tokens, List.splitOn_eq_splitOnP, List.splitOnP_eq_singleton fun c hc => beq_eq_false_iff_ne.2 (word c hc)]
  simp [nonempty]

theorem tokens_word_space (nonempty : tok ≠ []) (word : ∀ c ∈ tok, c ≠ 0x20) (s : List (BitVec 8)) :
    tokens (tok ++ 0x20 :: s) = tok :: tokens s := by
  rw [tokens, List.splitOn_eq_splitOnP, List.splitOnP_append_cons_of_forall_mem
    (fun c hc => beq_eq_false_iff_ne.2 (word c hc)) 0x20 (by decide)]
  simp [nonempty, tokens, List.splitOn_eq_splitOnP]

end

/-- A string begins with spaces, a word and then the end or a space. -/
theorem exists_piece (s : List (BitVec 8)) : ∃ a tok rest, s = List.replicate a 0x20 ++ (tok ++ rest) ∧
    (∀ c ∈ tok, c ≠ 0x20) ∧ (rest = [] ∨ ∃ r, rest = 0x20 :: r) ∧ (tok = [] → rest = []) := by
  induction s with
  | nil => exact ⟨0, [], [], rfl, by simp, .inl rfl, fun _ => rfl⟩
  | cons c s ih =>
    obtain ⟨a, tok, rest, rfl, word, after, empty⟩ := ih
    by_cases space : c = 0x20
    · exact ⟨a + 1, tok, rest, by rw [space]; rfl, word, after, empty⟩
    · cases a with
      | zero =>
        refine ⟨0, c :: tok, rest, rfl, List.forall_mem_cons.2 ⟨space, word⟩, after, fun h => nomatch h⟩
      | succ a =>
        refine ⟨0, [c], List.replicate (a + 1) 0x20 ++ (tok ++ rest), rfl, by simpa using space, .inr ?_,
          fun h => nomatch h⟩
        exact ⟨_, by rw [List.replicate_succ]; rfl⟩

/-- Some spaces in `[lo, hi)` became NULs, and nothing else changed. -/
def Cuts (m m' : Mem) (lo hi : Nat) : Prop := ∀ i, m' i = m i ∨ (lo ≤ i ∧ i < hi ∧ m i = 0x20 ∧ m' i = 0)

section

variable {m m' m'' : Mem} {lo hi lo' hi' a p size : Nat} {s t : List (BitVec 8)}

theorem Cuts.refl (m : Mem) (lo hi : Nat) : Cuts m m lo hi := fun _ => .inl rfl

theorem Cuts.trans (h : Cuts m m' lo hi) (h' : Cuts m' m'' lo hi) : Cuts m m'' lo hi := by
  intro i
  rcases h i with same | cut
  · rw [← same]
    exact h' i
  · rcases h' i with same' | cut'
    · rw [same']
      exact .inr cut
    · exact .inr ⟨cut.1, cut.2.1, cut.2.2.1, cut'.2.2.2⟩

theorem Cuts.mono (h : Cuts m m' lo hi) (below : lo' ≤ lo) (above : hi ≤ hi') : Cuts m m' lo' hi' := by
  intro i
  refine (h i).imp_right fun cut => ⟨?_, ?_, cut.2.2⟩
  · exact Nat.le_trans below cut.1
  · exact Nat.lt_of_lt_of_le cut.2.1 above

theorem Cuts.nul (h : Cuts m m' lo hi) {i : Nat} (nul : m i = 0) : m' i = 0 := by
  rcases h i with same | cut
  · exact same.trans nul
  · exact cut.2.2.2

/-- Words survive. -/
theorem Cuts.word (h : Cuts m m' lo hi) (str : StrAt m a s) (word : ∀ c ∈ s, c ≠ 0x20) : StrAt m' a s := by
  refine str.congr fun i length => (h (a + i)).resolve_right fun cut => ?_
  rcases Nat.lt_or_eq_of_le length with inside | last
  · exact word _ (List.getElem_mem inside) ((str.bytes i inside).symm.trans cut.2.2.1)
  · rw [last, str.nul] at cut
    exact absurd cut.2.2.1 (by decide)

theorem strAt_append : StrAt m a (s ++ t) ↔
    (∀ i (_ : i < s.length), m (a + i) = s[i]) ∧ (∀ c ∈ s, c ≠ 0) ∧ StrAt m (a + s.length) t := by
  induction s generalizing a with
  | nil => simp
  | cons c s ih =>
    rw [List.cons_append, strAt_cons, ih]
    constructor
    · intro h
      obtain ⟨first, nonzero, bytes, nonzeros, rest⟩ := h
      refine ⟨fun i hi => ?_, List.forall_mem_cons.2 ⟨nonzero, nonzeros⟩, ?_⟩
      · cases i with
        | zero => exact first
        | succ i =>
          have byte := bytes i (Nat.lt_of_succ_lt_succ hi)
          rw [Nat.add_assoc, Nat.add_comm 1] at byte
          exact byte
      · rw [List.length_cons, Nat.add_comm s.length, ← Nat.add_assoc]
        exact rest
    · intro h
      obtain ⟨bytes, nonzeros, rest⟩ := h
      obtain ⟨nonzero, nonzeros⟩ := List.forall_mem_cons.1 nonzeros
      refine ⟨bytes 0 (Nat.succ_pos _), nonzero, fun i hi => ?_, nonzeros, ?_⟩
      · rw [Nat.add_assoc, Nat.add_comm 1]
        exact bytes (i + 1) (Nat.succ_lt_succ hi)
      · rw [List.length_cons, Nat.add_comm s.length, ← Nat.add_assoc] at rest
        exact rest

/-- One piece of the line: where it starts and ends, and the memory with its end cut. -/
theorem next_piece (h : StrAt m p s) (inside : p + s.length < size) :
    ∃ start stop m' next tok rest, skipSpaces size m p = some start ∧ skipToken size m start = some stop ∧
      cutToken size m stop = some (m', next) ∧ p ≤ start ∧ next + rest.length ≤ p + s.length ∧ start ≤ next ∧
      Cuts m m' p (p + s.length) ∧ StrAt m' start tok ∧ StrAt m' next rest ∧ (∀ c ∈ tok, c ≠ 0x20) ∧
      start + tok.length ≤ p + s.length ∧ (m start = 0 ↔ tok = []) ∧ (tok = [] → rest = []) ∧
      tokens s = if tok = [] then [] else tok :: tokens rest := by
  obtain ⟨n, tok, rest, rfl, word, after, empty⟩ := exists_piece s
  obtain ⟨spaces, -, str⟩ := strAt_append.1 h
  obtain ⟨bytes, nonzeros, tail⟩ := strAt_append.1 str
  simp only [List.length_append, List.length_replicate] at *
  have notSpace : m (p + n) ≠ 0x20 := by
    cases tok with
    | nil =>
      rw [empty rfl] at tail
      have nul : m (p + n) = 0 := strAt_nil.1 tail
      rw [nul]
      decide
    | cons c tok =>
      have byte : m (p + n) = c := bytes 0 (Nat.succ_pos _)
      rw [byte]
      exact word c List.mem_cons_self
  have skipped : skipSpaces size m p = some (p + n) := by
    refine scan_eq (by omega) (by omega) (fun j hj => ?_) (beq_eq_false_iff_ne.2 notSpace)
    rw [spaces j hj]
    simp
  have stop : m (p + n + tok.length) = 0 ∨ m (p + n + tok.length) = 0x20 := by
    rcases after with rfl | ⟨r, rfl⟩
    · exact .inl (strAt_nil.1 tail)
    · exact .inr (strAt_cons.1 tail).1
  have read : skipToken size m (p + n) = some (p + n + tok.length) := by
    refine scan_eq (by omega) (by omega) (fun j hj => ?_) ?_
    · have member := List.getElem_mem hj
      rw [bytes j hj, Bool.and_eq_true, bne_iff_ne, bne_iff_ne]
      exact ⟨nonzeros _ member, word _ member⟩
    · rcases stop with nul | space
      · rw [nul]
        rfl
      · rw [space]
        rfl
  have first : m (p + n) = 0 ↔ tok = [] := by
    cases tok with
    | nil =>
      rw [empty rfl] at tail
      have nul : m (p + n) = 0 := strAt_nil.1 tail
      exact iff_of_true nul rfl
    | cons c tok =>
      have byte : m (p + n) = c := bytes 0 (Nat.succ_pos _)
      rw [byte]
      exact iff_of_false (nonzeros c List.mem_cons_self) (by simp)
  have byte : loadIn size m (p + n + tok.length) = some (m (p + n + tok.length)) := loadIn_of_lt (by omega)
  rcases after with rfl | ⟨r, rfl⟩
  · -- the line ends with this piece
    have nul := strAt_nil.1 tail
    refine ⟨p + n, p + n + tok.length, m, p + n + tok.length, tok, [], skipped, read, ?_, by omega, ?_, by omega,
      .refl _ _ _, ⟨bytes, nonzeros, nul⟩, tail, word, ?_, first, fun _ => rfl, ?_⟩
    · have stay : ¬ m (p + n + tok.length) ≠ 0 := not_not.2 nul
      simp only [cutToken, byte, Option.bind_eq_bind, Option.bind_some, if_neg stay]
    · rw [List.length_nil]
      omega
    · rw [List.length_nil]
      omega
    · rw [tokens_spaces, List.append_nil]
      split
      · rename_i none
        rw [none, tokens_nil]
      · rename_i nonempty
        exact tokens_word nonempty word
  · obtain ⟨space, -, tail'⟩ := strAt_cons.1 tail
    rw [List.length_cons] at *
    have nonempty : tok ≠ [] := fun none => nomatch empty none
    refine ⟨p + n, p + n + tok.length, storeByte m (p + n + tok.length) 0, p + n + tok.length + 1, tok,
      r, skipped, read, ?_, by omega, by omega, by omega, fun i => ?_,
      ⟨fun i hi => ?_, nonzeros, ?_⟩, tail'.congr fun i _ => ?_, word, by omega, first,
      fun none => absurd none nonempty, ?_⟩
    · have go : m (p + n + tok.length) ≠ 0 := by
        rw [space]
        decide
      have store : storeIn size m (p + n + tok.length) 0 = some _ := storeIn_of_lt (by omega)
      simp only [cutToken, byte, store, Option.bind_eq_bind, Option.bind_some, if_pos go]
    · by_cases cut : i = p + n + tok.length
      · subst cut
        exact .inr ⟨by omega, by omega, space, storeByte_self _ _ _⟩
      · exact .inl (storeByte_out cut)
    · rw [storeByte_out (by omega)]
      exact bytes i hi
    · exact storeByte_self _ _ _
    · exact storeByte_out (by omega)
    · rw [tokens_spaces, if_neg nonempty]
      exact tokens_word_space nonempty word r

/-- **The argument loop** takes the pieces from its pointer on, as many as there is room for. -/
theorem argLoop_spec {fuel : Nat} {args : List Nat} (h : StrAt m p s) (inside : p + s.length < size)
    (room : args.length ≤ maxArgs) (enough : maxArgs < fuel + args.length) :
    ∃ m' starts, argLoop size fuel m p args = some (m', args ++ starts) ∧ Cuts m m' p (p + s.length) ∧
      List.Forall₂ (StrAt m') starts ((tokens s).take (maxArgs - args.length)) := by
  induction fuel generalizing m p s args with
  | zero => omega
  | succ fuel ih =>
    have byte : loadIn size m p = some (m p) := loadIn_of_lt (by omega)
    by_cases stop : m p = 0 ∨ args.length = maxArgs
    · refine ⟨m, [], ?_, .refl _ _ _, ?_⟩
      · have done : ¬ (m p ≠ 0 ∧ args.length < maxArgs) := by
          intro go
          rcases stop with nul | full
          · exact go.1 nul
          · omega
        rw [argLoop, byte, List.append_nil]
        exact if_neg done
      · rcases stop with nul | full
        · rw [h.unique (strAt_nil.2 nul), tokens_nil, List.take_nil]
          exact .nil
        · rw [full, Nat.sub_self, List.take_zero]
          exact .nil
    · have go : m p ≠ 0 ∧ args.length < maxArgs := ⟨fun nul => stop (.inl nul), by omega⟩
      obtain ⟨start, last, m₁, next, tok, rest, skipped, read, cut, lower, upper, order, cuts, word, str, plain, endTok,
        first, -, eq⟩ := next_piece h inside
      have startByte : loadIn size m start = some (m start) := loadIn_of_lt (by omega)
      by_cases none : tok = []
      · refine ⟨m, [], ?_, .refl _ _ _, ?_⟩
        · simp only [argLoop, byte, Option.bind_eq_bind, Option.bind_some, if_pos go, skipped, startByte,
            if_pos (first.2 none), List.append_nil]
        · rw [eq, if_pos none, List.take_nil]
          exact .nil
      · obtain ⟨m₂, starts, run, cuts', words⟩ := @ih _ _ _ (args ++ [start]) str (by omega)
          (by rw [List.length_append, List.length_singleton]; omega)
          (by rw [List.length_append, List.length_singleton]; omega)
        have later : Cuts m₁ m₂ p (p + s.length) := cuts'.mono (by omega) upper
        refine ⟨m₂, start :: starts, ?_, cuts.trans later, ?_⟩
        · simp only [argLoop, byte, Option.bind_eq_bind, Option.bind_some, if_pos go, skipped, startByte,
            if_neg (mt first.1 none), read, cut, run, List.append_assoc, List.singleton_append]
        · rw [eq, if_neg none, show maxArgs - args.length = maxArgs - (args.length + 1) + 1 by omega,
            List.take_succ_cons]
          rw [List.length_append, List.length_singleton] at words
          exact .cons (later.word word plain) words

end

/-- The command word: the first piece. -/
def command (s : List (BitVec 8)) : List (BitVec 8) := (tokens s).headD []

/-- **`shell_parse_command`** on a string inside its array. -/
theorem shellParseCommand_spec {m : Mem} {p size : Nat} {s : List (BitVec 8)} (h : StrAt m p s)
    (inside : p + s.length < size) :
    ∃ m' cmd args, shellParseCommand size m p = some (m', cmd, args) ∧ Cuts m m' p (p + s.length) ∧
      StrAt m' cmd (command s) ∧ cmd + (command s).length < size ∧
      List.Forall₂ (StrAt m') args (((tokens s).drop 1).take maxArgs) := by
  obtain ⟨start, last, m₁, next, tok, rest, skipped, read, cut, lower, upper, order, cuts, word, str, plain, endTok,
    first, empty, eq⟩ := next_piece h inside
  obtain ⟨m₂, starts, run, cuts', words⟩ := @argLoop_spec _ _ size _ (maxArgs + 1) [] str (by omega) (Nat.zero_le _)
    (by rw [List.length_nil]; omega)
  have later : Cuts m₁ m₂ p (p + s.length) := cuts'.mono (by omega) upper
  have head : command s = tok := by
    rw [command, eq]
    split
    · rename_i none
      exact none.symm
    · rfl
  refine ⟨m₂, start, starts, ?_, cuts.trans later, head ▸ later.word word plain, by rw [head]; omega, ?_⟩
  · rw [List.nil_append] at run
    simp only [shellParseCommand, skipped, read, cut, run, Option.bind_eq_bind, Option.bind_some]
  · rw [eq]
    by_cases none : tok = []
    · rw [if_pos none, List.drop_nil, List.take_nil]
      rw [empty none, tokens_nil, List.take_nil] at words
      exact words
    · rw [if_neg none, List.drop_one, List.tail_cons]
      exact words

/-- **The parser tokenises exactly.** On an array that ends with the terminator, so that a read
behind it would fail: `cmd` is the first piece or empty, the arguments are the next ones, 16 at
most, and all that changes is that spaces become NULs. -/
theorem shell_parse_command_exact {m : Mem} {p : Nat} {s : List (BitVec 8)} (h : StrAt m p s) :
    ∃ m' cmd args, shellParseCommand (p + s.length + 1) m p = some (m', cmd, args) ∧
      StrAt m' cmd ((tokens s).headD []) ∧
      args.length = min 16 ((tokens s).length - 1) ∧
      (∀ i (_ : i < args.length), ∃ t, (tokens s)[i + 1]? = some t ∧ StrAt m' args[i] t) ∧
      ∀ a, m' a = m a ∨ (p ≤ a ∧ a < p + s.length ∧ m a = 0x20 ∧ m' a = 0) := by
  obtain ⟨m', cmd, args, run, cuts, word, -, words⟩ := shellParseCommand_spec h (Nat.lt_succ_self _)
  refine ⟨m', cmd, args, run, word, ?_, ?_, cuts⟩
  · rw [words.length_eq, List.length_take, List.length_drop, maxArgs_eq]
  · intro i hi
    have kept : i < (((tokens s).drop 1).take maxArgs).length := words.length_eq ▸ hi
    have arg := words.get hi kept
    rw [List.get_eq_getElem, List.get_eq_getElem, List.getElem_take, List.getElem_drop] at arg
    refine ⟨_, ?_, arg⟩
    rw [List.length_take, List.length_drop] at kept
    rw [Nat.add_comm i 1]
    exact List.getElem?_eq_getElem _

/-- A line with a leading space, two words and a trailing space. -/
def spacedLine : List (BitVec 8) := [0x20, 0x61, 0x62, 0x20, 0x63, 0x20]

theorem shell_parse_command_exact_spaced : ∃ m' cmd args,
    shellParseCommand 7 (fun i => spacedLine.getD i 0) 0 = some (m', cmd, args) ∧ StrAt m' cmd [0x61, 0x62] ∧
      args.length = 1 := by
  have pieces : tokens spacedLine = [[0x61, 0x62], [0x63]] := by decide
  obtain ⟨m', cmd, args, run, word, count, -⟩ := shell_parse_command_exact (strAt_getD (s := spacedLine) (by decide))
  rw [pieces] at word count
  exact ⟨m', cmd, args, run, word, count⟩

end SimpleKernel.Shell
