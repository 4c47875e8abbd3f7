import SimpleKernel.Trap.Model
import SimpleKernel.Lib.Word

/-!
# Interrupts are transparent

The words that the processor and a stub push are, read upwards, a `trap_frame_t`
(`saved_holds`, `frame_of_holds`). A callee that keeps the convention returns with `rbx`
still at that frame, and the pops undo the pushes (`popAll`).
-/

namespace SimpleKernel.Trap
set_option autoImplicit false
open Lib

/-! ## Pushes and pops -/

section

variable {c : Cpu} {r : Reg} {v : Word}

@[simp] theorem setReg_mem : (setReg c r v).mem = c.mem := rfl

@[simp] theorem setReg_self : (setReg c r v).regs r = v := if_pos rfl

theorem setReg_of_ne {r' : Reg} (ne : r' ≠ r) : (setReg c r v).regs r' = c.regs r' :=
  if_neg ne

theorem push_regs (ne : r ≠ .rsp) : (push c v).regs r = c.regs r := setReg_of_ne ne

theorem push_stack : (push c v).stack = c.stack.push v := rfl

end

theorem pushes_regs {c : Cpu} {vs : List Word} {r : Reg} (ne : r ≠ .rsp) : (vs.foldl push c).regs r = c.regs r := by
  induction vs generalizing c with
  | nil => rfl
  | cons v vs ih => exact ih.trans (push_regs ne)

theorem pushes_stack (c : Cpu) (vs : List Word) : (vs.foldl push c).stack = c.stack.pushes vs := by
  induction vs generalizing c with
  | nil => rfl
  | cons v vs ih =>
    rw [List.foldl_cons, ih, push_stack]
    rfl

/-- Pushing registers is pushing their values. -/
theorem pushRegs_eq {c : Cpu} {rs : List Reg} (noRsp : .rsp ∉ rs) :
    rs.foldl pushReg c = (rs.map c.regs).foldl push c := by
  induction rs generalizing c with
  | nil => rfl
  | cons r rs ih =>
    obtain ⟨-, noRsp⟩ := not_or.1 (mt List.mem_cons.2 noRsp)
    have values : rs.map (push c (c.regs r)).regs = rs.map c.regs := by
      apply List.map_congr_left
      intro r' member
      apply push_regs
      intro same
      exact noRsp (same ▸ member)
    rw [List.foldl_cons, List.map_cons, List.foldl_cons, pushReg, ih noRsp, values]

/-- **Pops** load the words that the stack holds. -/
theorem popAll {c : Cpu} {rs : List Reg} {f : Reg → Word} (noRsp : .rsp ∉ rs)
    (holds : Holds c.mem (c.regs .rsp) (rs.map f)) :
    (rs.foldl popReg c).mem = c.mem ∧
      (rs.foldl popReg c).regs .rsp = c.regs .rsp + BitVec.ofNat 64 (8 * rs.length) ∧
      (∀ r ∈ rs, (rs.foldl popReg c).regs r = f r) ∧
      ∀ r, r ∉ rs → r ≠ .rsp → (rs.foldl popReg c).regs r = c.regs r := by
  induction rs generalizing c with
  | nil => simp
  | cons r rs ih =>
    obtain ⟨ne, noRsp⟩ := not_or.1 (mt List.mem_cons.2 noRsp)
    obtain ⟨word, rest⟩ := holds
    have sp : (popReg c r).regs .rsp = c.regs .rsp + 8 := (setReg_of_ne ne).trans setReg_self
    have here : (popReg c r).regs r = f r := setReg_self.trans word
    obtain ⟨mem, rsp, popped, kept⟩ := @ih (popReg c r) noRsp (sp ▸ rest)
    refine ⟨mem, ?_, ?_, ?_⟩
    · rw [List.foldl_cons, rsp, sp, List.length_cons]
      bv_omega
    · intro r' member
      by_cases again : r' ∈ rs
      · exact popped r' again
      · obtain rfl : r' = r := (List.mem_cons.1 member).resolve_right again
        exact (kept r' again fun same => ne same.symm).trans here
    · intro r' out notRsp
      obtain ⟨other, out⟩ := not_or.1 (mt List.mem_cons.2 out)
      exact (kept r' out notRsp).trans ((setReg_of_ne other).trans (setReg_of_ne notRsp))

/-! ## The frame -/

/-- The error code in the frame. -/
def pushedError (kind : Macro) (i : Interrupt) : Word :=
  match kind with
  | .isrNoerr => 0
  | .isrErr => i.errorCode

/-- **The frame of an interrupt**: what the interrupted code had in each register, and why it
was interrupted. -/
def interruptFrame (kind : Macro) (vector : Nat) (i : Interrupt) (c : Cpu) : TrapFrame where
  r15 := c.regs .r15
  r14 := c.regs .r14
  r13 := c.regs .r13
  r12 := c.regs .r12
  r11 := c.regs .r11
  r10 := c.regs .r10
  r9 := c.regs .r9
  r8 := c.regs .r8
  rbp := c.regs .rbp
  rdi := c.regs .rdi
  rsi := c.regs .rsi
  rdx := c.regs .rdx
  rcx := c.regs .rcx
  rbx := c.regs .rbx
  rax := c.regs .rax
  vector := BitVec.ofNat 64 vector
  errorCode := pushedError kind i
  rip := i.rip
  cs := i.cs
  rflags := i.rflags

/-- Its words, as they lie in memory after the registers. -/
def interruptWords (kind : Macro) (vector : Nat) (i : Interrupt) : List Word :=
  [BitVec.ofNat 64 vector, pushedError kind i, i.rip, i.cs, i.rflags]

theorem frame_of_holds {m : WordMem} {a : Word} {kind : Macro} {vector : Nat} {i : Interrupt} {c : Cpu}
    (holds : Holds m a (popOrder.map c.regs ++ interruptWords kind vector i)) :
    readFrame m a = interruptFrame kind vector i c := by
  unfold popOrder interruptWords at holds
  simp only [List.map_cons, List.map_nil, List.cons_append, List.nil_append, Holds, BitVec.add_assoc] at holds
  unfold readFrame interruptFrame
  simp only [TrapFrame.mk.injEq]
  simpa using holds

/-- Everything that the processor and the stub have pushed. -/
theorem saved_pushes (kind : Macro) (vector : Nat) (i : Interrupt) (top : Word) (c : Cpu) :
    pushRegs (isrStub kind vector (deliver kind i top c)) =
      ([i.ss, c.regs .rsp, i.rflags, i.cs, i.rip, pushedError kind i, BitVec.ofNat 64 vector] ++
        pushOrder.map c.regs).foldl push (setReg c .rsp top) := by
  have stub : isrStub kind vector (deliver kind i top c) =
      [i.ss, c.regs .rsp, i.rflags, i.cs, i.rip, pushedError kind i, BitVec.ofNat 64 vector].foldl push
        (setReg c .rsp top) := by
    cases kind with
    | isrNoerr => rfl
    | isrErr => rfl
  have values : pushOrder.map (isrStub kind vector (deliver kind i top c)).regs = pushOrder.map c.regs := by
    apply List.map_congr_left
    intro r member
    have ne : r ≠ .rsp := by
      intro same
      rw [same] at member
      exact absurd member (by decide)
    rw [stub, pushes_regs ne, setReg_of_ne ne]
  rw [pushRegs, pushRegs_eq (by decide), values, stub, ← List.foldl_append]

/-- Where the frame lies: after 22 words. -/
def frameAddr (top : Word) : Word := top - 176

/-- Where the processor pushed the interrupted instruction pointer. -/
def ripAddr (top : Word) : Word := top - 40

/-- **The state at the call.** -/
theorem isrCommonSave_spec (kind : Macro) (vector : Nat) (i : Interrupt) (top : Word) (c : Cpu) :
    let s := isrCommonSave (isrStub kind vector (deliver kind i top c))
    s.regs .rdi = frameAddr top ∧ s.regs .rbx = frameAddr top ∧ s.regs .rsp = frameAddr top &&& -16 ∧
      Holds s.mem (frameAddr top) (popOrder.map c.regs ++ interruptWords kind vector i) := by
  intro s
  have pushed := saved_pushes kind vector i top c
  generalize words : [i.ss, c.regs .rsp, i.rflags, i.cs, i.rip, pushedError kind i, BitVec.ofNat 64 vector] ++
    pushOrder.map c.regs = vs at pushed
  have count : vs.length = 22 := by rw [← words]; rfl
  have stack : (pushRegs (isrStub kind vector (deliver kind i top c))).stack = (setReg c .rsp top).stack.pushes vs := by
    rw [pushed, pushes_stack]
  have sp : (pushRegs (isrStub kind vector (deliver kind i top c))).regs .rsp = frameAddr top := by
    refine (congrArg Stack.sp stack).trans ?_
    rw [pushes_sp, count]
    rfl
  have holds := @pushes_holds (setReg c .rsp top).stack vs (by omega)
  rw [← stack] at holds
  have upward : vs.reverse = popOrder.map c.regs ++ interruptWords kind vector i ++ [c.regs .rsp, i.ss] := by
    rw [← words]
    rfl
  rw [upward] at holds
  refine ⟨?_, ?_, ?_, ?_⟩
  · exact sp
  · exact sp
  · exact congrArg (· &&& -16) sp
  · rw [← sp]
    exact (holds_append.1 holds).1

/-- Aligning takes the stack pointer down by less than 16 bytes. -/
theorem align_spec (a : Word) : (a &&& -16).toNat % 16 = 0 ∧ (a - (a &&& -16)).toNat < 16 := by
  have mask : (a &&& -16).toNat = a.toNat / 16 * 16 := by
    have clear := land_not64_mask (n := a.toNat) (k := 4) (by decide)
    rw [u64_of_lt a.isLt] at clear
    rw [BitVec.toNat_and]
    exact clear
  constructor
  · omega
  · bv_omega

/-- The return address does not touch the frame. -/
theorem call_frame {a : Word} {c : Cpu} (sp : c.regs .rsp = a &&& -16) (ret : Word) {k : Nat} (small : k < 2 ^ 32) :
    (push c ret).mem (a + BitVec.ofNat 64 k) = c.mem (a + BitVec.ofNat 64 k) := by
  have low := (align_spec a).2
  apply push_outside c.stack ret
  show ¬ Below (c.regs .rsp) 1 (a + BitVec.ofNat 64 k)
  rw [sp]
  generalize a &&& -16 = b at *
  unfold Below
  bv_omega

/-- **The state at `iretq`**, from the state at the return of `trap_dispatch`. -/
theorem isrCommonRestore_spec {s : Cpu} {f : Reg → Word} (holds : Holds s.mem (s.regs .rbx) (popOrder.map f)) :
    (isrCommonRestore s).mem = s.mem ∧ (isrCommonRestore s).regs .rsp = s.regs .rbx + 136 ∧
      ∀ r, r ≠ .rsp → (isrCommonRestore s).regs r = f r := by
  obtain ⟨mem, rsp, popped, -⟩ := @popAll (setReg s .rsp (s.regs .rbx)) popOrder f (by decide) holds
  refine ⟨mem, ?_, ?_⟩
  · refine setReg_self.trans ?_
    rw [popRegs, rsp, setReg_self]
    show s.regs .rbx + 120 + 16 = s.regs .rbx + 136
    bv_omega
  · intro r ne
    refine (setReg_of_ne ne).trans (popped r ?_)
    cases r with
    | rsp => exact absurd rfl ne
    | _ => decide

/-- A callee that keeps the convention, called on the frame at `a`, leaves what is restored. -/
theorem return_spec {s s' : Cpu} {a ret : Word} {f : Reg → Word} {ws : List Word} (short : ws.length = 5)
    (rdi : s.regs .rdi = a) (rbx : s.regs .rbx = a) (rsp : s.regs .rsp = a &&& -16)
    (holds : Holds s.mem a (popOrder.map f ++ ws)) (abi : SystemV (push s ret) s') :
    (∀ r, r ≠ .rsp → (isrCommonRestore s').regs r = f r) ∧ (isrCommonRestore s').regs .rsp = a + 136 ∧
      Holds (isrCommonRestore s').mem (a + 120) ws := by
  have back : s'.regs .rbx = a := by
    rw [abi.saved .rbx (by decide), push_regs (by decide)]
    exact rbx
  have kept : Holds s'.mem a (popOrder.map f ++ ws) := by
    apply holds.congr
    intro k hk
    rw [List.length_append, List.length_map, short] at hk
    have inside : k < sizeofTrapFrame := hk
    have frame := abi.frame k inside
    rw [push_regs (by decide), rdi] at frame
    rw [sizeofTrapFrame_eq] at inside
    exact frame.trans (call_frame rsp ret (by omega))
  obtain ⟨saved, rest⟩ := holds_append.1 kept
  rw [← back] at saved
  obtain ⟨mem, sp, regs⟩ := isrCommonRestore_spec saved
  rw [back] at sp
  refine ⟨regs, sp, ?_⟩
  rw [mem]
  exact rest

theorem isrStubTable_vector {vector n : Nat} {kind : Macro} (stub : isrStubTable vector = some (kind, n)) :
    n = vector := by
  have named := List.find?_some stub
  exact of_decide_eq_true named

/-- Every gate that `trap_init` sets has a stub. -/
theorem isrStubTable_total : ∀ vector < 48, ∃ stub, isrStubTable vector = some stub := by
  intro vector small
  have isSome : ∀ v < 48, (isrStubTable v).isSome = true := by decide
  exact Option.isSome_iff_exists.1 (isSome vector small)

/-- **Interrupts are transparent.** For every stub of the table and every state, the frame
that `trap_dispatch` is given is that of the interrupted code, the stack is aligned at the
call, and after any `trap_dispatch` that keeps the calling convention `iretq` finds every
register as it was and the saved `rip`, `cs` and `rflags` on the stack. -/
theorem interrupt_transparent (vector n : Nat) (kind : Macro) (stub : isrStubTable vector = some (kind, n))
    (i : Interrupt) (top : Word) (c : Cpu) (ret : Word) (trapDispatch : Cpu → Cpu) :
    let entry := deliver kind i top c
    let atCall := isrCommonSave (isrStub kind n entry)
    let atIretq := isrRun trapDispatch ret kind n entry
    readFrame atCall.mem (atCall.regs .rdi) = interruptFrame kind vector i c ∧
      (atCall.regs .rsp).toNat % 16 = 0 ∧
      (SystemV (push atCall ret) (trapDispatch (push atCall ret)) →
        (∀ r, r ≠ .rsp → atIretq.regs r = c.regs r) ∧ atIretq.regs .rsp = ripAddr top ∧
          Holds atIretq.mem (ripAddr top) [i.rip, i.cs, i.rflags]) := by
  intro entry atCall atIretq
  obtain ⟨rdi, rbx, rsp, holds⟩ := isrCommonSave_spec kind n i top c
  obtain rfl := isrStubTable_vector stub
  refine ⟨?_, ?_, ?_⟩
  · rw [rdi]
    exact frame_of_holds holds
  · rw [rsp]
    exact (align_spec _).1
  · intro abi
    obtain ⟨regs, sp, words⟩ := return_spec (by rfl) rdi rbx rsp holds abi
    have above : frameAddr top + 136 = ripAddr top ∧ frameAddr top + 120 + 8 + 8 = ripAddr top := by
      unfold frameAddr ripAddr
      constructor <;> bv_omega
    rw [above.1] at sp
    have saved := words.2.2
    rw [above.2] at saved
    have run : atIretq = isrCommonRestore (trapDispatch (push atCall ret)) := rfl
    rw [run]
    refine ⟨?_, ?_, ?_⟩
    · exact regs
    · exact sp
    · exact saved

/-- A callee that clears `rax` and returns. -/
theorem systemV_clear (s : Cpu) : SystemV s (setReg (setReg s .rax 0) .rsp (s.regs .rsp + 8)) := by
  constructor
  · intro r member
    have ne : r ≠ .rsp ∧ r ≠ .rax := by
      constructor
      · rintro rfl
        exact absurd member (by decide)
      · rintro rfl
        exact absurd member (by decide)
    exact (setReg_of_ne ne.1).trans (setReg_of_ne ne.2)
  · exact setReg_self
  · intro k _
    rfl

/-- A page fault on an unaligned stack, with 7 in every register. -/
theorem interrupt_transparent_page_fault :
    let c : Cpu := ⟨fun _ => 7, fun _ => 0⟩
    let atIretq := isrRun (fun s => setReg (setReg s .rax 0) .rsp (s.regs .rsp + 8)) 0x10000 .isrErr 14
      (deliver .isrErr ⟨0x12345, 8, 0x202, 0x10, 2⟩ 0x8FFF5 c)
    (∀ r, r ≠ .rsp → atIretq.regs r = 7) ∧ atIretq.regs .rsp = 0x8FFCD := by
  intro c atIretq
  obtain ⟨-, -, back⟩ := interrupt_transparent 14 14 .isrErr (by decide) ⟨0x12345, 8, 0x202, 0x10, 2⟩ 0x8FFF5 c 0x10000
    fun s => setReg (setReg s .rax 0) .rsp (s.regs .rsp + 8)
  obtain ⟨regs, rsp, -⟩ := back (systemV_clear _)
  exact ⟨regs, rsp⟩

end SimpleKernel.Trap
