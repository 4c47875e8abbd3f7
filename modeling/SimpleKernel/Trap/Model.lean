import SimpleKernel.Lib.Stack

/-!
# `trap_asm.asm`: the interrupt stubs

An instruction is a function on the general registers and memory. The flags are left out: the
frame holds the interrupted ones, and no instruction of a stub reads a flag. `trap_dispatch`
is a parameter, from its first instruction to its `ret`. `deliver` is the processor's part,
what it pushes before the stub runs.
-/

namespace SimpleKernel.Trap
set_option autoImplicit false
open Lib

inductive Reg where
  | rax | rbx | rcx | rdx | rsi | rdi | rbp | rsp
  | r8 | r9 | r10 | r11 | r12 | r13 | r14 | r15
  deriving DecidableEq, Repr

structure Cpu where
  regs : Reg → Word
  mem : WordMem

def Cpu.stack (c : Cpu) : Stack := ⟨c.mem, c.regs .rsp⟩

/-- `mov r, v`. -/
def setReg (c : Cpu) (r : Reg) (v : Word) : Cpu := { c with regs := fun x => if x = r then v else c.regs x }

/-- A push of the value `v`. -/
def push (c : Cpu) (v : Word) : Cpu :=
  let s := c.stack.push v
  { setReg c .rsp s.sp with mem := s.mem }

def pushReg (c : Cpu) (r : Reg) : Cpu := push c (c.regs r)

def popReg (c : Cpu) (r : Reg) : Cpu :=
  setReg (setReg c .rsp (c.regs .rsp + 8)) r (load64 c.mem (c.regs .rsp))

/-! ## The stubs -/

/-- The registers in the order of `PUSH_REGS`. -/
def pushOrder : List Reg := [.rax, .rbx, .rcx, .rdx, .rsi, .rdi, .rbp, .r8, .r9, .r10, .r11, .r12, .r13, .r14, .r15]

/-- The registers in the order of `POP_REGS`. -/
def popOrder : List Reg := [.r15, .r14, .r13, .r12, .r11, .r10, .r9, .r8, .rbp, .rdi, .rsi, .rdx, .rcx, .rbx, .rax]

def pushRegs (c : Cpu) : Cpu := pushOrder.foldl pushReg c

def popRegs (c : Cpu) : Cpu := popOrder.foldl popReg c

/-- `isr_common` up to the call. -/
def isrCommonSave (c : Cpu) : Cpu :=
  let c := pushRegs c
  let c := setReg c .rdi (c.regs .rsp)
  let c := setReg c .rbx (c.regs .rsp)
  setReg c .rsp (c.regs .rsp &&& -16)

/-- `isr_common` from the return of the call up to `iretq`. -/
def isrCommonRestore (c : Cpu) : Cpu :=
  let c := setReg c .rsp (c.regs .rbx)
  let c := popRegs c
  setReg c .rsp (c.regs .rsp + 16)

/-- The two macros that make a stub. -/
inductive Macro where
  | isrNoerr
  | isrErr
  deriving DecidableEq, Repr

/-- The stub `isr_stub_<vector>` up to its jump. -/
def isrStub (kind : Macro) (vector : Nat) (c : Cpu) : Cpu :=
  match kind with
  | .isrNoerr => push (push c 0) (BitVec.ofNat 64 vector)
  | .isrErr => push c (BitVec.ofNat 64 vector)

/-- `ret` is the address of the instruction after the call. -/
def call (f : Cpu → Cpu) (ret : Word) (c : Cpu) : Cpu := f (push c ret)

/-- A stub from its entry up to `iretq`. -/
def isrRun (trapDispatch : Cpu → Cpu) (ret : Word) (kind : Macro) (vector : Nat) (c : Cpu) : Cpu :=
  isrCommonRestore (call trapDispatch ret (isrCommonSave (isrStub kind vector c)))

/-- The macro calls of the file. -/
def isrStubs : List (Macro × Nat) :=
  [(.isrNoerr, 0), (.isrNoerr, 1), (.isrNoerr, 2), (.isrNoerr, 3), (.isrNoerr, 4), (.isrNoerr, 5), (.isrNoerr, 6),
    (.isrNoerr, 7), (.isrErr, 8), (.isrNoerr, 9), (.isrErr, 10), (.isrErr, 11), (.isrErr, 12), (.isrErr, 13),
    (.isrErr, 14), (.isrNoerr, 15), (.isrNoerr, 16), (.isrErr, 17), (.isrNoerr, 18), (.isrNoerr, 19),
    (.isrNoerr, 20), (.isrErr, 21), (.isrNoerr, 22), (.isrNoerr, 23), (.isrNoerr, 24), (.isrNoerr, 25),
    (.isrNoerr, 26), (.isrNoerr, 27), (.isrNoerr, 28), (.isrNoerr, 29), (.isrErr, 30), (.isrNoerr, 31),
    (.isrNoerr, 32), (.isrNoerr, 33), (.isrNoerr, 34), (.isrNoerr, 35), (.isrNoerr, 36), (.isrNoerr, 37),
    (.isrNoerr, 38), (.isrNoerr, 39), (.isrNoerr, 40), (.isrNoerr, 41), (.isrNoerr, 42), (.isrNoerr, 43),
    (.isrNoerr, 44), (.isrNoerr, 45), (.isrNoerr, 46), (.isrNoerr, 47)]

/-- `isr_stub_table[i]` is `isr_stub_<i>`, the stub that `trap_init` puts in gate `i`. -/
def isrStubTable (i : Nat) : Option (Macro × Nat) := isrStubs.find? fun stub => stub.2 = i

/-! ## The frame -/

/-- `trap_frame_t`. -/
structure TrapFrame where
  r15 : Word
  r14 : Word
  r13 : Word
  r12 : Word
  r11 : Word
  r10 : Word
  r9 : Word
  r8 : Word
  rbp : Word
  rdi : Word
  rsi : Word
  rdx : Word
  rcx : Word
  rbx : Word
  rax : Word
  vector : Word
  errorCode : Word
  rip : Word
  cs : Word
  rflags : Word
  deriving DecidableEq

/-- The structure that a pointer `frame` points to. -/
def readFrame (m : WordMem) (frame : Word) : TrapFrame where
  r15 := load64 m frame
  r14 := load64 m (frame + 8)
  r13 := load64 m (frame + 16)
  r12 := load64 m (frame + 24)
  r11 := load64 m (frame + 32)
  r10 := load64 m (frame + 40)
  r9 := load64 m (frame + 48)
  r8 := load64 m (frame + 56)
  rbp := load64 m (frame + 64)
  rdi := load64 m (frame + 72)
  rsi := load64 m (frame + 80)
  rdx := load64 m (frame + 88)
  rcx := load64 m (frame + 96)
  rbx := load64 m (frame + 104)
  rax := load64 m (frame + 112)
  vector := load64 m (frame + 120)
  errorCode := load64 m (frame + 128)
  rip := load64 m (frame + 136)
  cs := load64 m (frame + 144)
  rflags := load64 m (frame + 152)

def sizeofTrapFrame : Nat := 160

theorem sizeofTrapFrame_eq : sizeofTrapFrame = 160 := rfl

/-! ## The processor and the callee -/

/-- What the processor saves of the interrupted code, and its error code. -/
structure Interrupt where
  rip : Word
  cs : Word
  rflags : Word
  ss : Word
  errorCode : Word

/-- The processor delivers an interrupt on the stack that starts at `top`, with an error code
where the macro of the stub assumes one. -/
def deliver (kind : Macro) (i : Interrupt) (top : Word) (c : Cpu) : Cpu :=
  let saved := [i.ss, c.regs .rsp, i.rflags, i.cs, i.rip].foldl push (setReg c .rsp top)
  match kind with
  | .isrNoerr => saved
  | .isrErr => push saved i.errorCode

/-- The registers that a callee saves. -/
def calleeSaved : List Reg := [.rbx, .rbp, .r12, .r13, .r14, .r15]

/-- **The calling convention**, for a callee that is given a trap frame in `rdi` and does not
modify it: `c` is its entry and `c'` what its `ret` leaves. -/
structure SystemV (c c' : Cpu) : Prop where
  saved : ∀ r ∈ calleeSaved, c'.regs r = c.regs r
  rsp : c'.regs .rsp = c.regs .rsp + 8
  frame : ∀ i, i < sizeofTrapFrame → c'.mem (c.regs .rdi + BitVec.ofNat 64 i) = c.mem (c.regs .rdi + BitVec.ofNat 64 i)

end SimpleKernel.Trap
