import SimpleKernel.Boot.Paging
import SimpleKernel.Gdt

/-!
# The switch to long mode

From the last `cli` of `stage2_start` to the `call` of the kernel. The processor checks what the
manual says it checks; where it faults, where an address would not be mapped to itself, or where
code would run that was assembled for another mode, there is no next state. Of the general registers
only those that the kernel is given are kept. The processor marks the descriptors that it loads as
accessed; the accessed and dirty bits of the page tables, which no walk looks at, are left out.
-/

namespace SimpleKernel.Boot
set_option autoImplicit false
open Lib Gdt

/-! ## The processor -/

/-- The control registers, the segments in use, the interrupt and the direction flag and port `0x92`. -/
structure Control where
  cr0 : BitVec 32
  cr3 : Nat
  cr4 : BitVec 32
  efer : BitVec 64
  gdtr : Gdtr
  cs : Descriptor
  data : Descriptor
  interrupts : Bool
  df : Bool
  port92 : BitVec 8
  mem : Mem

/-- The descriptor at `a` is marked as accessed. -/
def markAccessed (m : Mem) (a : Nat) : Mem := storeByte m (a + 5) (m (a + 5) ||| 1)

namespace Control

def pe (c : Control) : Bool := c.cr0.getLsbD 0
def pg (c : Control) : Bool := c.cr0.getLsbD 31
def pae (c : Control) : Bool := c.cr4.getLsbD 5
/-- Tables of five levels. -/
def la57 (c : Control) : Bool := c.cr4.getLsbD 12
def lme (c : Control) : Bool := c.efer.getLsbD 8
def lma (c : Control) : Bool := c.efer.getLsbD 10

/-- The bits for which the code that is running should have been assembled. -/
def bits (c : Control) : Nat :=
  if !c.pe then 16
  else if c.lma && c.cs.flags.getLsbD 1 then 64
  else if c.cs.flags.getLsbD 2 then 32
  else 16

/-- What is at `a` can be read and written there. -/
def reaches (c : Control) (a : Nat) : Bool :=
  if c.pg then c.lma && !c.la57 && decide (pageWalk c.mem c.cr3 a = some (a, true)) else true

/-- The code behind was assembled for `n` bits. -/
def assembled (c : Control) (n : Nat) : Option Control := if c.bits = n then some c else none

/-- The code behind takes offsets for addresses. -/
def flat (c : Control) : Option Control := if c.cs.base = 0 ∧ c.data.base = 0 then some c else none

/-- `lgdt`, of six bytes; with 16 bits the uppermost one is not used. -/
def lgdt (c : Control) (a : Nat) : Control :=
  { c with gdtr := ⟨loadLE c.mem a 2, loadLE c.mem (a + 2) (if c.bits = 16 then 3 else 4)⟩ }

/-- `mov cr0, v`, where paging is not switched off. -/
def movCr0 (c : Control) (v : BitVec 32) (next : Nat) : Option Control :=
  if v.getLsbD 31 && !v.getLsbD 0 then none
  else if v.getLsbD 29 && !v.getLsbD 30 then none
  else if c.pg && !v.getLsbD 31 then none
  else if v.getLsbD 31 && !c.pg && c.lme && (!c.pae || c.cs.flags.getLsbD 1) then none
  else
    let efer := if v.getLsbD 31 && !c.pg && c.lme then c.efer ||| 0x400 else c.efer
    let c := { c with cr0 := v, efer }
    if c.reaches next then some c else none

def movCr4 (c : Control) (v : BitVec 32) : Option Control :=
  if c.lma && !v.getLsbD 5 then none else some { c with cr4 := v }

/-- `wrmsr` to `0xC0000080`; the processor keeps bit 10 itself. -/
def wrmsrEfer (c : Control) (v : BitVec 64) : Option Control :=
  if c.pg && v.getLsbD 8 != c.lme then none
  else some { c with efer := (v &&& ~~~0x400) ||| (c.efer &&& 0x400) }

/-- A far jump to a code segment of the kernel; the offset is within its limit. -/
def jmpFar (c : Control) (selector offset : Nat) : Option Control := do
  let a ← descriptorAddr c.gdtr selector 8
  let mem := markAccessed c.mem a
  let d := readDescriptor mem a
  let limit := if d.flags.getLsbD 3 then d.limit * 4096 + 4095 else d.limit
  if !c.reaches a || !c.reaches offset then none
  else if !(d.present && d.access.getLsbD 4 && d.access.getLsbD 3 && d.dpl == 0) then none
  else if c.lma && d.flags.getLsbD 1 && d.flags.getLsbD 2 then none
  else if !(c.lma && d.flags.getLsbD 1) && decide (limit < offset) then none
  else some { c with cs := d, mem }

/-- The loads of `ds`, `es`, `fs`, `gs` and `ss`. -/
def loadSegments (c : Control) (selector : Nat) : Option Control := do
  let a ← descriptorAddr c.gdtr selector 8
  let mem := markAccessed c.mem a
  let data ← loadData c.gdtr mem selector
  if c.reaches a then some { c with data, mem } else none

end Control

/-! ## The code -/

/-- Where the assembler put the tables of stage 2, in their order, and the code that is jumped to. -/
structure ModeLabels where
  gdtStart : Nat
  gdtDescriptor : Nat
  gdt64Start : Nat
  gdt64Descriptor : Nat
  protectedModeStart : Nat
  longModeStart : Nat
  cr0Next : Nat
  pagingNext : Nat
  inside : ∀ a ∈ [gdtStart, gdtDescriptor, gdt64Start, gdt64Descriptor, protectedModeStart, longModeStart,
      cr0Next, pagingNext], 0x8000 ≤ a ∧ a + 24 ≤ 0x10000
  order : gdtStart + 24 ≤ gdtDescriptor ∧ gdtDescriptor + 6 ≤ gdt64Start ∧ gdt64Start + 24 ≤ gdt64Descriptor

/-- The bytes of the tables. -/
def ModeLabels.Own (l : ModeLabels) (x : Nat) : Prop :=
  (l.gdtStart ≤ x ∧ x < l.gdtStart + 24) ∨ (l.gdtDescriptor ≤ x ∧ x < l.gdtDescriptor + 6) ∨
    (l.gdt64Start ≤ x ∧ x < l.gdt64Start + 24) ∨ (l.gdt64Descriptor ≤ x ∧ x < l.gdt64Descriptor + 10)

/-- The bytes with the accessed bits of the code and the data segment of either table. -/
def ModeLabels.Accessed (l : ModeLabels) (x : Nat) : Prop :=
  x = l.gdtStart + 13 ∨ x = l.gdtStart + 21 ∨ x = l.gdt64Start + 13 ∨ x = l.gdt64Start + 21

def realStackTop : Nat := 0x7F00

def stackTop : Nat := 0x90000

def enableA20 (c : Control) : Control := { c with port92 := c.port92 ||| 2 }

/-- `call enable_a20`. -/
def callEnableA20 (c : Control) (ret : Nat) : Control :=
  enableA20 { c with mem := storeLE c.mem (realStackTop - 2) 2 ret }

/-- `call setup_page_tables`, with what `eax`, `ecx` and `edi` hold. -/
def callSetupPageTables (c : Control) (eax ecx edi ret : Nat) : Control :=
  let p := setupPageTables c.df ⟨eax, ecx, edi, c.cr3, storeLE c.mem (stackTop - 4) 4 ret⟩
  { c with cr3 := p.cr3, mem := p.mem }

/-- `rdmsr`, `or eax, 1 << 8`, `wrmsr`. -/
def setLme (efer : BitVec 64) : BitVec 64 := efer.extractLsb' 32 32 ++ (efer.extractLsb' 0 32 ||| 1#32 <<< 8)

/-- What the kernel is given. -/
structure Entered where
  control : Control
  rdi : Nat
  rsp : Nat
  rip : Nat

/-- From the last `cli` of `stage2_start` to its far jump. -/
def leaveRealMode (l : ModeLabels) (ret : Nat) (c : Control) : Option Control := do
  let c ← c.assembled 16
  let c := { c with interrupts := false }
  let c := c.lgdt l.gdtDescriptor
  let c := callEnableA20 c ret
  let c ← c.movCr0 (c.cr0 ||| 1) l.cr0Next
  let c ← c.assembled 16
  c.jmpFar 0x08 l.protectedModeStart

/-- From `protected_mode_start` to its far jump. -/
def protectedModeStart (l : ModeLabels) (eax ecx edi ret : Nat) (c : Control) : Option Control := do
  let c ← c.assembled 32
  let c ← c.loadSegments 0x10
  let c ← c.flat
  let c := callSetupPageTables c eax ecx edi ret
  let c := c.lgdt l.gdt64Descriptor
  let c ← c.movCr4 (c.cr4 ||| 1#32 <<< 5)
  let c ← c.wrmsrEfer (setLme c.efer)
  let c ← c.movCr0 (c.cr0 ||| 1#32 <<< 31) l.pagingNext
  let c ← c.assembled 32
  c.jmpFar 0x08 l.longModeStart

/-- `long_mode_start` up to its call. -/
def longModeStart (ret : Nat) (c : Control) : Option Entered := do
  let c ← c.assembled 64
  let c ← c.loadSegments 0x10
  if c.reaches (stackTop - 8) && c.reaches 0x10000 then
    some ⟨{ c with mem := storeLE c.mem (stackTop - 8) 8 ret }, bootInfoAddr, stackTop - 8, 0x10000⟩
  else none

/-- From the last `cli` of `stage2_start` to the first instruction of the kernel; the registers are those that
`setup_page_tables` finds, and the last three arguments the addresses behind the calls. -/
def enterLongMode (l : ModeLabels) (eax ecx edi ret16 ret ret64 : Nat) (c : Control) : Option Entered := do
  let c ← leaveRealMode l ret16 c
  let c ← protectedModeStart l eax ecx edi ret c
  longModeStart ret64 c

/-- The words of the tables, as they are assembled. -/
structure ModeData (l : ModeLabels) (m : Mem) : Prop where
  gdt : HasFields m l.gdtStart [⟨8, 0⟩, ⟨8, 0x00CF9A000000FFFF⟩, ⟨8, 0x00CF92000000FFFF⟩]
  descriptor : HasFields m l.gdtDescriptor [⟨2, 24 - 1⟩, ⟨4, l.gdtStart⟩]
  gdt64 : HasFields m l.gdt64Start [⟨8, 0⟩, ⟨8, 0x00209A0000000000⟩, ⟨8, 0x0000920000000000⟩]
  descriptor64 : HasFields m l.gdt64Descriptor [⟨2, 24 - 1⟩, ⟨8, l.gdt64Start⟩]

/-- A descriptor, read as one word. -/
def descriptorOf (w : Nat) : Descriptor where
  base := w / 2 ^ 16 % 2 ^ 24 + 2 ^ 24 * (w / 2 ^ 56 % 2 ^ 8)
  limit := w % 2 ^ 16 + 2 ^ 16 * (w / 2 ^ 48 % 2 ^ 4)
  access := BitVec.ofNat 8 (w / 2 ^ 40 % 2 ^ 8)
  flags := BitVec.ofNat 4 (w / 2 ^ 52 % 2 ^ 4)

/-- The segments, marked as accessed. -/
def code32 : Descriptor := descriptorOf 0x00CF9B000000FFFF
def data32 : Descriptor := descriptorOf 0x00CF93000000FFFF
def code64 : Descriptor := descriptorOf 0x00209B0000000000
def data64 : Descriptor := descriptorOf 0x0000930000000000

/-- What is read of the tables after the first far jump. -/
structure ProtectedData (l : ModeLabels) (m : Mem) : Prop where
  data : loadLE m (l.gdtStart + 16) 8 = 0x00CF92000000FFFF
  descriptor64 : HasFields m l.gdt64Descriptor [⟨2, 24 - 1⟩, ⟨8, l.gdt64Start⟩]
  code64 : loadLE m (l.gdt64Start + 8) 8 = 0x00209A0000000000
  data64 : loadLE m (l.gdt64Start + 16) 8 = 0x0000920000000000

/-- Real mode, with tables of four levels. -/
structure InRealMode (c : Control) : Prop where
  pe : c.pe = false
  pg : c.pg = false
  cache : (c.cr0.getLsbD 29 && !c.cr0.getLsbD 30) = false
  lma : c.lma = false
  la57 : c.la57 = false
  cs : c.cs.flags.getLsbD 1 = false ∧ c.cs.flags.getLsbD 2 = false

section

variable {l : ModeLabels} {c : Control} {m m' : Mem} {a w : Nat}

/-- The fields of a descriptor make up its word. -/
theorem descriptor_word (m : Mem) (a : Nat) :
    loadLE m a 8 = loadLE m a 2 + 2 ^ 16 * loadLE m (a + 2) 2 + 2 ^ 32 * loadLE m (a + 4) 1 +
      2 ^ 40 * loadLE m (a + 5) 1 + 2 ^ 48 * loadLE m (a + 6) 1 + 2 ^ 56 * loadLE m (a + 7) 1 := by
  rw [loadLE_add m a 2 6, loadLE_add m (a + 2) 2 4, loadLE_add m (a + 2 + 2) 1 3, loadLE_add m (a + 2 + 2 + 1) 1 2,
    loadLE_add m (a + 2 + 2 + 1 + 1) 1 1]
  simp only [Nat.add_assoc, Nat.reduceAdd]
  omega

theorem readDescriptor_word (word : loadLE m a 8 = w) : readDescriptor m a = descriptorOf w := by
  have bound₀ := loadLE_lt m a 2
  have bound₁ := loadLE_lt m (a + 2) 2
  have bound₂ := loadLE_lt m (a + 4) 1
  have bound₃ := loadLE_lt m (a + 5) 1
  have bound₄ := loadLE_lt m (a + 6) 1
  have bound₅ := loadLE_lt m (a + 7) 1
  rw [descriptor_word] at word
  unfold readDescriptor descriptorOf
  rw [Descriptor.mk.injEq]
  refine ⟨?_, ?_, congrArg _ ?_, congrArg _ ?_⟩
  · omega
  · omega
  · omega
  · omega

theorem markAccessed_out {x : Nat} (ne : x ≠ a + 5) : markAccessed m a x = m x := storeByte_out ne

theorem loadLE_markAccessed {b n : Nat} (apart : b + n ≤ a + 5 ∨ a + 6 ≤ b) :
    loadLE (markAccessed m a) b n = loadLE m b n :=
  loadLE_storeByte_apart (by omega)

/-- A descriptor that is marked differs in bit 0 of its access byte. -/
theorem readDescriptor_marked (word : loadLE m a 8 = w) : readDescriptor (markAccessed m a) a =
    { descriptorOf w with access := (descriptorOf w).access ||| 1 } := by
  have byte (m : Mem) : BitVec.ofNat 8 (loadLE m (a + 5) 1) = m (a + 5) := by
    rw [show loadLE m (a + 5) 1 = (m (a + 5)).toNat by simp [loadLE]]
    exact (BitVec.ofNat_toNat 8 _).trans (BitVec.setWidth_eq _)
  have access : (descriptorOf w).access = m (a + 5) :=
    (congrArg Descriptor.access (readDescriptor_word word)).symm.trans (byte m)
  have fields := readDescriptor_word word
  rw [access, ← fields]
  unfold readDescriptor
  rw [byte, loadLE_markAccessed (by omega), loadLE_markAccessed (by omega), loadLE_markAccessed (by omega),
    loadLE_markAccessed (by omega), loadLE_markAccessed (by omega)]
  exact congrArg (fun v => Descriptor.mk _ _ v _) (storeByte_self _ _ _)

/-! ## The steps -/

theorem bits_small (cs : c.cs.flags.getLsbD 1 = false ∧ c.cs.flags.getLsbD 2 = false) : c.bits = 16 := by
  unfold Control.bits
  rw [cs.1, cs.2, Bool.and_false]
  cases c.pe <;> rfl

/-- Without paging everything is where it is. -/
theorem reaches_unpaged (pg : c.pg = false) (a : Nat) : c.reaches a = true := by
  unfold Control.reaches
  rw [pg]
  rfl

/-- With the tables of the kernel, the first GiB. -/
theorem reaches_low (lma : c.lma = true) (la57 : c.la57 = false) (cr3 : c.cr3 = 0x1000) (tables : Tables c.mem)
    (low : a < 2 ^ 30) : c.reaches a = true := by
  unfold Control.reaches
  rw [lma, la57, cr3, tables.identity low]
  cases c.pg
  · rfl
  · simp

theorem assembled_eq {n : Nat} (bits : c.bits = n) : c.assembled n = some c := if_pos bits

theorem jmpFar_eq {selector offset : Nat} {d : Descriptor} (addr : descriptorAddr c.gdtr selector 8 = some a)
    (read : readDescriptor (markAccessed c.mem a) a = d) (there : c.reaches a = true) (target : c.reaches offset = true)
    (code : (d.present && d.access.getLsbD 4 && d.access.getLsbD 3 && d.dpl == 0) = true)
    (one : (c.lma && d.flags.getLsbD 1 && d.flags.getLsbD 2) = false)
    (inside : (c.lma && d.flags.getLsbD 1) = true ∨
      offset ≤ if d.flags.getLsbD 3 then d.limit * 4096 + 4095 else d.limit) :
    c.jmpFar selector offset = some { c with cs := d, mem := markAccessed c.mem a } := by
  have within : (!(c.lma && d.flags.getLsbD 1) &&
      decide ((if d.flags.getLsbD 3 then d.limit * 4096 + 4095 else d.limit) < offset)) = false := by
    rcases inside with long | le
    · rw [long]
      rfl
    · rw [decide_eq_false (Nat.not_lt.2 le), Bool.and_false]
  unfold Control.jmpFar
  rw [addr]
  subst read
  show (if _ then _ else _) = _
  rw [there, target, code, one, within]
  rfl

theorem loadSegments_eq {selector : Nat} {d : Descriptor} (addr : descriptorAddr c.gdtr selector 8 = some a)
    (read : readDescriptor (markAccessed c.mem a) a = d) (data : d.writableData = true) (there : c.reaches a = true) :
    c.loadSegments selector = some { c with data := d, mem := markAccessed c.mem a } := by
  unfold Control.loadSegments
  rw [addr]
  simp only [Option.bind_eq_bind, Option.bind_some, loadData_eq addr read data]
  exact if_pos there

/-- The pseudo-descriptor of the first table, of whose base three bytes are used. -/
theorem lgdt_real (data : ModeData l c.mem) (bits : c.bits = 16) :
    c.lgdt l.gdtDescriptor = { c with gdtr := ⟨23, l.gdtStart⟩ } := by
  obtain ⟨limit, base, -⟩ := data.descriptor
  have inside := (l.inside l.gdtStart (by simp)).2
  have bytes := loadLE_add c.mem (l.gdtDescriptor + 2) 3 1
  have low := loadLE_lt c.mem (l.gdtDescriptor + 2) 3
  dsimp only at limit base
  simp only [Nat.reduceAdd, base] at bytes
  have three : loadLE c.mem (l.gdtDescriptor + 2) 3 = l.gdtStart := by omega
  unfold Control.lgdt
  rw [bits, if_pos rfl, limit, three]
  rfl

theorem movCr0_eq {v : BitVec 32} {next : Nat} {efer : BitVec 64} (order : (v.getLsbD 31 && !v.getLsbD 0) = false)
    (cache : (v.getLsbD 29 && !v.getLsbD 30) = false) (stays : (c.pg && !v.getLsbD 31) = false)
    (entry : (v.getLsbD 31 && !c.pg && c.lme && (!c.pae || c.cs.flags.getLsbD 1)) = false)
    (status : (if v.getLsbD 31 && !c.pg && c.lme then c.efer ||| 0x400 else c.efer) = efer)
    (reach : ({ c with cr0 := v, efer } : Control).reaches next = true) :
    c.movCr0 v next = some { c with cr0 := v, efer } := by
  unfold Control.movCr0
  rw [order, cache, stays, entry, status]
  exact if_pos reach

/-- A change of `cr0` outside of paging. -/
theorem movCr0_unpaged {v : BitVec 32} (pg : c.pg = false) (unpaged : v.getLsbD 31 = false)
    (cache : (v.getLsbD 29 && !v.getLsbD 30) = false) (next : Nat) : c.movCr0 v next = some { c with cr0 := v } := by
  have after : ({ c with cr0 := v } : Control).pg = false := unpaged
  refine movCr0_eq ?_ cache ?_ ?_ ?_ (reaches_unpaged after next)
  · rw [unpaged, Bool.false_and]
  · rw [pg, Bool.false_and]
  · rw [unpaged, Bool.false_and, Bool.false_and, Bool.false_and]
  · rw [unpaged, Bool.false_and, Bool.false_and]
    exact if_neg Bool.false_ne_true

/-- What setting `PE` leaves of `cr0`. -/
theorem setPe_bits (cr0 : BitVec 32) : (cr0 ||| 1).getLsbD 0 = true ∧ (cr0 ||| 1).getLsbD 29 = cr0.getLsbD 29 ∧
    (cr0 ||| 1).getLsbD 30 = cr0.getLsbD 30 ∧ (cr0 ||| 1).getLsbD 31 = cr0.getLsbD 31 := by
  simp only [BitVec.getLsbD_or]
  exact ⟨Bool.or_true _, Bool.or_false _, Bool.or_false _, Bool.or_false _⟩

/-- The segments of both tables. -/
theorem segment_fields :
    (code32.present && code32.access.getLsbD 4 && code32.access.getLsbD 3 && code32.dpl == 0) = true ∧
    (code64.present && code64.access.getLsbD 4 && code64.access.getLsbD 3 && code64.dpl == 0) = true ∧
    data32.writableData = true ∧ data64.writableData = true := by
  decide

theorem code32_flags : code32.flags.getLsbD 1 = false ∧ code32.flags.getLsbD 2 = true ∧
    code32.flags.getLsbD 3 = true := by
  decide

theorem code64_flags : code64.flags.getLsbD 1 = true ∧ code64.flags.getLsbD 2 = false := by
  decide

/-- The segments as they are marked. -/
theorem segments_marked (m : Mem) (a : Nat) :
    (loadLE m a 8 = 0x00CF9A000000FFFF → readDescriptor (markAccessed m a) a = code32) ∧
      (loadLE m a 8 = 0x00CF92000000FFFF → readDescriptor (markAccessed m a) a = data32) ∧
      (loadLE m a 8 = 0x00209A0000000000 → readDescriptor (markAccessed m a) a = code64) ∧
      (loadLE m a 8 = 0x0000920000000000 → readDescriptor (markAccessed m a) a = data64) := by
  refine ⟨fun word => ?_, fun word => ?_, fun word => ?_, fun word => ?_⟩
  · exact (readDescriptor_marked word).trans (by decide)
  · exact (readDescriptor_marked word).trans (by decide)
  · exact (readDescriptor_marked word).trans (by decide)
  · exact (readDescriptor_marked word).trans (by decide)

/-- **Out of real mode.** -/
theorem leaveRealMode_spec (h : InRealMode c) (data : ModeData l c.mem) (ret : Nat) :
    leaveRealMode l ret c = some { c with
    interrupts := false, gdtr := ⟨23, l.gdtStart⟩, port92 := c.port92 ||| 2, cr0 := c.cr0 ||| 1, cs := code32,
    mem := markAccessed (storeLE c.mem 0x7EFE 2 ret) (l.gdtStart + 8) } := by
  have start := l.inside l.gdtStart (by simp)
  obtain ⟨-, cache, disable, paging⟩ := setPe_bits c.cr0
  obtain ⟨c₁, at₁⟩ : ∃ c₁ : Control, c₁ =
      callEnableA20 { c with interrupts := false, gdtr := ⟨23, l.gdtStart⟩ } ret := ⟨_, rfl⟩
  obtain ⟨c₂, at₂⟩ : ∃ c₂ : Control, c₂ = { c₁ with cr0 := c.cr0 ||| 1 } := ⟨_, rfl⟩
  have bits : c.bits = 16 := bits_small h.cs
  have table : callEnableA20 (({ c with interrupts := false } : Control).lgdt l.gdtDescriptor) ret = c₁ := by
    rw [at₁, @lgdt_real l { c with interrupts := false } data bits]
  have cr0₁ : c₁.cr0 = c.cr0 := by
    rw [at₁]
    rfl
  have pg₁ : c₁.pg = false := (congrArg (BitVec.getLsbD · 31) cr0₁).trans h.pg
  have protect : c₁.movCr0 (c₁.cr0 ||| 1) l.cr0Next = some c₂ := by
    rw [cr0₁, at₂]
    refine movCr0_unpaged pg₁ (paging.trans h.pg) ?_ _
    rw [← h.cache, cache, disable]
  have bits₂ : c₂.bits = 16 := bits_small (by rw [at₂, at₁]; exact h.cs)
  have unpaged : c₂.pg = false := by
    rw [at₂]
    exact paging.trans h.pg
  have mem : c₂.mem = storeLE c.mem 0x7EFE 2 ret := by
    rw [at₂, at₁]
    rfl
  have jump : c₂.jmpFar 0x08 l.protectedModeStart =
      some { c₂ with cs := code32, mem := markAccessed c₂.mem (l.gdtStart + 8) } := by
    have target := (l.inside l.protectedModeStart (by simp)).2
    refine jmpFar_eq (a := l.gdtStart + 8) ?_ ?_ (reaches_unpaged unpaged _)
      (reaches_unpaged unpaged _) segment_fields.1 ?_ (.inr ?_)
    · rw [at₂, at₁]
      rfl
    · apply (segments_marked _ _).1
      rw [mem, loadLE_storeLE_apart (by omega)]
      exact data.gdt.2.1
    · rw [code32_flags.1, Bool.and_false, Bool.false_and]
    · rw [if_pos code32_flags.2.2]
      refine Nat.le_trans (Nat.le_of_add_right_le target) ?_
      decide
  unfold leaveRealMode
  simp only [assembled_eq bits, Option.bind_eq_bind, Option.bind_some, table, protect, assembled_eq bits₂, jump]
  rw [mem, at₂, at₁]
  rfl

theorem ModeLabels.own_inside {x : Nat} (own : l.Own x) : 0x8000 ≤ x ∧ x < 0x10000 := by
  have start := l.inside l.gdtStart (by simp)
  have descriptor := l.inside l.gdtDescriptor (by simp)
  have start64 := l.inside l.gdt64Start (by simp)
  have descriptor64 := l.inside l.gdt64Descriptor (by simp)
  unfold ModeLabels.Own at own
  omega

theorem ModeData.congr (h : ModeData l m) (same : ∀ x, l.Own x → m' x = m x) : ModeData l m' := by
  unfold ModeLabels.Own at same
  constructor
  · apply h.gdt.congr
    intro x lo hi
    simp only [recordSize_cons, recordSize_nil] at hi
    exact same x (by omega)
  · apply h.descriptor.congr
    intro x lo hi
    simp only [recordSize_cons, recordSize_nil] at hi
    exact same x (by omega)
  · apply h.gdt64.congr
    intro x lo hi
    simp only [recordSize_cons, recordSize_nil] at hi
    exact same x (by omega)
  · apply h.descriptor64.congr
    intro x lo hi
    simp only [recordSize_cons, recordSize_nil] at hi
    exact same x (by omega)

/-- Behind the first far jump. -/
theorem ModeData.protected (h : ModeData l m) (same : ∀ x, l.Own x → x ≠ l.gdtStart + 13 → m' x = m x) :
    ProtectedData l m' := by
  have order := l.order
  unfold ModeLabels.Own at same
  constructor
  · rw [loadLE_congr fun x lo hi => same x (by omega) (by omega)]
    exact h.gdt.2.2.1
  · apply h.descriptor64.congr
    intro x lo hi
    simp only [recordSize_cons, recordSize_nil] at hi
    exact same x (by omega) (by omega)
  · rw [loadLE_congr fun x lo hi => same x (by omega) (by omega)]
    exact h.gdt64.2.1
  · rw [loadLE_congr fun x lo hi => same x (by omega) (by omega)]
    exact h.gdt64.2.2.1

/-- The pseudo-descriptor of the second table, of whose base four bytes are read. -/
theorem lgdt_protected (descriptor : HasFields c.mem l.gdt64Descriptor [⟨2, 24 - 1⟩, ⟨8, l.gdt64Start⟩])
    (bits : c.bits = 32) : c.lgdt l.gdt64Descriptor = { c with gdtr := ⟨23, l.gdt64Start⟩ } := by
  obtain ⟨limit, base, -⟩ := descriptor
  have inside := (l.inside l.gdt64Start (by simp)).2
  have bytes := loadLE_add c.mem (l.gdt64Descriptor + 2) 4 4
  have low := loadLE_lt c.mem (l.gdt64Descriptor + 2) 4
  dsimp only at limit base
  simp only [Nat.reduceAdd, base] at bytes
  have four : loadLE c.mem (l.gdt64Descriptor + 2) 4 = l.gdt64Start := by omega
  unfold Control.lgdt
  rw [bits, if_neg (by decide), limit, four]
  rfl

/-- `rdmsr` and `wrmsr` set bit 8. -/
theorem setLme_eq (efer : BitVec 64) : setLme efer = efer ||| 0x100 := by
  have low : ∀ i, i < 32 → (1#32 <<< 8).getLsbD i = (0x100 : BitVec 64).getLsbD i := by decide
  have high : ∀ i, i < 64 → ¬ i < 32 → (0x100 : BitVec 64).getLsbD i = false := by decide
  apply BitVec.eq_of_getLsbD_eq
  intro i hi
  unfold setLme
  rw [BitVec.getLsbD_append, BitVec.getLsbD_or, BitVec.getLsbD_or]
  by_cases inside : i < 32
  · rw [if_pos inside, low i inside, BitVec.getLsbD_extractLsb', decide_eq_true inside, Bool.true_and, Nat.zero_add]
  · rw [if_neg inside, high i hi inside, BitVec.getLsbD_extractLsb', decide_eq_true (by omega),
      Bool.true_and, Bool.or_false, Nat.add_sub_of_le (by omega)]

/-- Bit 8 by `wrmsr` and bit 10 by the processor. -/
theorem efer_bits (efer : BitVec 64) :
    ((setLme efer &&& ~~~0x400) ||| (efer &&& 0x400)) ||| 0x400 = efer ||| 0x500 := by
  have bits : ∀ i, i < 64 → (0x500 : BitVec 64).getLsbD i =
      ((0x100 : BitVec 64).getLsbD i || (0x400 : BitVec 64).getLsbD i) := by
    decide
  rw [setLme_eq]
  apply BitVec.eq_of_getLsbD_eq
  intro i hi
  simp only [BitVec.getLsbD_or, BitVec.getLsbD_and, BitVec.getLsbD_not, decide_eq_true hi, Bool.true_and, bits i hi]
  cases efer.getLsbD i <;> cases (0x100 : BitVec 64).getLsbD i <;> cases (0x400 : BitVec 64).getLsbD i <;> rfl

/-- `call setup_page_tables`. -/
theorem callSetupPageTables_spec (up : c.df = false) (eax ecx edi ret : Nat) :
    ∃ m, callSetupPageTables c eax ecx edi ret = { c with cr3 := 0x1000, mem := m } ∧ Tables m ∧
      SameOutside (fun x => TableBytes x ∨ stackTop - 8 ≤ x ∧ x < stackTop) c.mem m := by
  obtain ⟨tables, outside, cr3⟩ := setupPageTables_spec ⟨eax, ecx, edi, c.cr3, storeLE c.mem (stackTop - 4) 4 ret⟩
  refine ⟨_, ?_, tables, ?_⟩
  · unfold callSetupPageTables
    dsimp only
    rw [up, cr3]
  · refine ((storeLE_same_outside c.mem (stackTop - 4) 4 ret).mono fun x hx => .inr ?_).trans
      (outside.mono fun x hx => .inl hx)
    unfold stackTop at *
    omega

theorem movCr4_eq {v : BitVec 32} (lma : c.lma = false) : c.movCr4 v = some { c with cr4 := v } := by
  unfold Control.movCr4
  rw [lma]
  rfl

theorem wrmsrEfer_eq {v : BitVec 64} (pg : c.pg = false) :
    c.wrmsrEfer v = some { c with efer := (v &&& ~~~0x400) ||| (c.efer &&& 0x400) } := by
  unfold Control.wrmsrEfer
  rw [pg]
  rfl

/-- What setting `PG` leaves of `cr0`, and setting `PAE` of `cr4`. -/
theorem setPg_bits (cr0 : BitVec 32) : (cr0 ||| 1#32 <<< 31).getLsbD 0 = cr0.getLsbD 0 ∧
    (cr0 ||| 1#32 <<< 31).getLsbD 29 = cr0.getLsbD 29 ∧ (cr0 ||| 1#32 <<< 31).getLsbD 30 = cr0.getLsbD 30 ∧
    (cr0 ||| 1#32 <<< 31).getLsbD 31 = true := by
  simp only [BitVec.getLsbD_or]
  exact ⟨Bool.or_false _, Bool.or_false _, Bool.or_false _, Bool.or_true _⟩

theorem setPae_bits (cr4 : BitVec 32) : (cr4 ||| 1#32 <<< 5).getLsbD 5 = true ∧
    (cr4 ||| 1#32 <<< 5).getLsbD 12 = cr4.getLsbD 12 := by
  simp only [BitVec.getLsbD_or]
  exact ⟨Bool.or_true _, Bool.or_false _⟩

/-- `LME` when `cr0` is written, and `LMA` afterwards. -/
theorem longMode_bits (efer : BitVec 64) :
    ((setLme efer &&& ~~~0x400) ||| (efer &&& 0x400)).getLsbD 8 = true ∧ (efer ||| 0x500).getLsbD 10 = true := by
  rw [setLme_eq]
  simp only [BitVec.getLsbD_or, BitVec.getLsbD_and]
  constructor
  · rw [show (0x100 : BitVec 64).getLsbD 8 = true from rfl, show (~~~(0x400 : BitVec 64)).getLsbD 8 = true from rfl]
    simp only [Bool.or_true, Bool.and_true, Bool.true_or]
  · exact Bool.or_true _

/-- Protected mode with the segments of the first table. -/
structure InProtectedMode (l : ModeLabels) (c : Control) : Prop where
  pe : c.pe = true
  pg : c.pg = false
  cache : (c.cr0.getLsbD 29 && !c.cr0.getLsbD 30) = false
  lma : c.lma = false
  la57 : c.la57 = false
  cs : c.cs = code32
  gdtr : c.gdtr = ⟨23, l.gdtStart⟩

theorem bits_protected (pe : c.pe = true) (cs : c.cs = code32) : c.bits = 32 := by
  unfold Control.bits
  rw [pe, cs, code32_flags.1, code32_flags.2.1, Bool.and_false]
  rfl

/-- **Into long mode**, for code that still has the old segments. -/
theorem protectedModeStart_spec (h : InProtectedMode l c) (data : ProtectedData l c.mem) (up : c.df = false)
    (eax ecx edi ret : Nat) :
    ∃ m, protectedModeStart l eax ecx edi ret c = some { c with
        cr0 := c.cr0 ||| 1#32 <<< 31, cr3 := 0x1000, cr4 := c.cr4 ||| 1#32 <<< 5, efer := c.efer ||| 0x500,
        gdtr := ⟨23, l.gdt64Start⟩, cs := code64, data := data32, mem := m } ∧ Tables m ∧
      loadLE m (l.gdt64Start + 16) 8 = 0x0000920000000000 ∧
      SameOutside (fun x => TableBytes x ∨ (stackTop - 8 ≤ x ∧ x < stackTop) ∨ l.Accessed x) c.mem m := by
  have order := l.order
  have inside := l.inside l.gdtStart (by simp)
  have inside64 := l.inside l.gdt64Descriptor (by simp)
  obtain ⟨c₁, at₁⟩ : ∃ c₁ : Control, c₁ =
      { c with data := data32, mem := markAccessed c.mem (l.gdtStart + 16) } := ⟨_, rfl⟩
  have up₁ : c₁.df = false := by
    rw [at₁]
    exact up
  obtain ⟨m, call, tables, outside⟩ := callSetupPageTables_spec up₁ eax ecx edi ret
  obtain ⟨c₂, at₂⟩ : ∃ c₂ : Control, c₂ = { c₁ with cr3 := 0x1000, mem := m } := ⟨_, rfl⟩
  obtain ⟨c₃, at₃⟩ : ∃ c₃ : Control, c₃ = { c₂ with gdtr := ⟨23, l.gdt64Start⟩ } := ⟨_, rfl⟩
  obtain ⟨c₄, at₄⟩ : ∃ c₄ : Control, c₄ = { c₃ with cr4 := c.cr4 ||| 1#32 <<< 5 } := ⟨_, rfl⟩
  obtain ⟨c₅, at₅⟩ : ∃ c₅ : Control, c₅ =
      { c₄ with efer := (setLme c.efer &&& ~~~0x400) ||| (c.efer &&& 0x400) } := ⟨_, rfl⟩
  obtain ⟨c₆, at₆⟩ : ∃ c₆ : Control, c₆ = { c₅ with cr0 := c.cr0 ||| 1#32 <<< 31, efer := c.efer ||| 0x500 } := ⟨_, rfl⟩
  have bits : c.bits = 32 := bits_protected h.pe h.cs
  have segments : c.loadSegments 0x10 = some c₁ := by
    rw [at₁]
    refine loadSegments_eq (a := l.gdtStart + 16) ?_ ((segments_marked _ _).2.1 data.data) segment_fields.2.2.1
      (reaches_unpaged h.pg _)
    rw [h.gdtr]
    rfl
  have flat : c₁.flat = some c₁ := by
    refine if_pos ⟨?_, ?_⟩
    · rw [at₁]
      show c.cs.base = 0
      rw [h.cs]
      rfl
    · rw [at₁]
      rfl
  rw [← at₂] at call
  have kept : ∀ x, ¬ TableBytes x → ¬(stackTop - 8 ≤ x ∧ x < stackTop) → x ≠ l.gdtStart + 21 → m x = c.mem x := by
    intro x table stack mark
    rw [outside x (not_or.2 ⟨table, stack⟩), at₁]
    exact markAccessed_out mark
  have own : ∀ x, l.gdt64Start ≤ x → x < 0x10000 → m x = c.mem x := by
    intro x lo hi
    refine kept x ?_ ?_ (by omega)
    · unfold TableBytes
      omega
    · unfold stackTop
      omega
  have mem₂ : c₂.mem = m := by rw [at₂]
  have descriptor : HasFields c₂.mem l.gdt64Descriptor [⟨2, 24 - 1⟩, ⟨8, l.gdt64Start⟩] := by
    rw [mem₂]
    apply data.descriptor64.congr
    intro x lo hi
    simp only [recordSize_cons, recordSize_nil] at hi
    exact own x (by omega) (by omega)
  have fields : c₂.pe = true ∧ c₂.pg = false ∧ c₂.lma = false ∧ c₂.la57 = false ∧ c₂.cs = code32 := by
    rw [at₂, at₁]
    exact ⟨h.pe, h.pg, h.lma, h.la57, h.cs⟩
  have table : c₂.lgdt l.gdt64Descriptor = c₃ := by
    rw [at₃]
    exact lgdt_protected descriptor (bits_protected fields.1 fields.2.2.2.2)
  have pae : c₃.movCr4 (c₃.cr4 ||| 1#32 <<< 5) = some c₄ := by
    have cr4 : c₃.cr4 = c.cr4 := by rw [at₃, at₂, at₁]
    have lma : c₃.lma = false := by
      rw [at₃]
      exact fields.2.2.1
    rw [at₄, cr4]
    exact movCr4_eq lma
  have lme : c₄.wrmsrEfer (setLme c₄.efer) = some c₅ := by
    have efer : c₄.efer = c.efer := by rw [at₄, at₃, at₂, at₁]
    have pg : c₄.pg = false := by
      rw [at₄, at₃]
      exact fields.2.1
    rw [at₅, wrmsrEfer_eq pg, efer]
  -- paging is on, and everything below 1 GiB is where it was
  obtain ⟨first, cache, disable, last⟩ := setPg_bits c.cr0
  obtain ⟨five, twelve⟩ := setPae_bits c.cr4
  obtain ⟨lmeSet, lmaSet⟩ := longMode_bits c.efer
  have fields₆ : c₆.pe = true ∧ c₆.lma = true ∧ c₆.la57 = false ∧ c₆.cr3 = 0x1000 ∧ c₆.mem = m ∧ c₆.cs = code32 ∧
      c₆.gdtr = ⟨23, l.gdt64Start⟩ := by
    rw [at₆, at₅, at₄, at₃, at₂, at₁]
    exact ⟨first.trans h.pe, lmaSet, twelve.trans h.la57, rfl, rfl, h.cs, rfl⟩
  obtain ⟨pe, lma, la57, cr3, mem, cs, gdtr⟩ := fields₆
  have low {a : Nat} (below : a < 0x10000) : c₆.reaches a = true :=
    reaches_low lma la57 cr3 (by rw [mem]; exact tables) (by omega)
  have fields₅ : c₅.cr0 = c.cr0 ∧ c₅.pg = false ∧ c₅.lme = true ∧ c₅.pae = true ∧ c₅.cs = code32 ∧
      c₅.efer ||| 0x400 = c.efer ||| 0x500 := by
    rw [at₅, at₄, at₃, at₂, at₁]
    exact ⟨rfl, h.pg, lmeSet, five, h.cs, efer_bits c.efer⟩
  obtain ⟨cr0, pg, lme₅, pae₅, cs₅, efer⟩ := fields₅
  have paging : c₅.movCr0 (c₅.cr0 ||| 1#32 <<< 31) l.pagingNext = some c₆ := by
    have next := (l.inside l.pagingNext (by simp)).2
    rw [cr0, at₆]
    refine movCr0_eq ?_ ?_ ?_ ?_ ?_ ?_
    · rw [first, show c.cr0.getLsbD 0 = true from h.pe, Bool.not_true, Bool.and_false]
    · rw [cache, disable]
      exact h.cache
    · rw [pg, Bool.false_and]
    · rw [pae₅, cs₅, code32_flags.1, Bool.not_true, Bool.or_false, Bool.and_false]
    · rw [last, pg, lme₅]
      exact efer
    · rw [← at₆]
      exact low (by omega)
  have bits₆ : c₆.bits = 32 := bits_protected pe cs
  have jump : c₆.jmpFar 0x08 l.longModeStart =
      some { c₆ with cs := code64, mem := markAccessed c₆.mem (l.gdt64Start + 8) } := by
    have start := (l.inside l.gdt64Start (by simp)).2
    have target := (l.inside l.longModeStart (by simp)).2
    refine jmpFar_eq (a := l.gdt64Start + 8) ?_ ?_ (low (by omega)) (low (by omega)) segment_fields.2.1 ?_ (.inl ?_)
    · rw [gdtr]
      rfl
    · apply (segments_marked _ _).2.2.1
      rw [mem, loadLE_congr fun x lo hi => own x (by omega) (by omega)]
      exact data.code64
    · rw [code64_flags.2, Bool.and_false]
    · rw [lma, code64_flags.1, Bool.true_and]
  refine ⟨markAccessed m (l.gdt64Start + 8), ?_, ?_, ?_, ?_⟩
  · unfold protectedModeStart
    simp only [assembled_eq bits, Option.bind_eq_bind, Option.bind_some, segments, flat, call, table, pae, lme, paging,
      assembled_eq bits₆, jump]
    rw [mem, at₆, at₅, at₄, at₃, at₂, at₁]
  · apply tables.congr
    intro x table
    unfold TableBytes at table
    exact markAccessed_out (by omega)
  · rw [loadLE_markAccessed (by omega), loadLE_congr fun x lo hi => own x (by omega) (by omega)]
    exact data.data64
  · intro x out
    obtain ⟨table, stack, mark⟩ : ¬ TableBytes x ∧ ¬(stackTop - 8 ≤ x ∧ x < stackTop) ∧ ¬ l.Accessed x := by
      simpa only [not_or] using out
    unfold ModeLabels.Accessed at mark
    rw [markAccessed_out (by omega), kept x table stack (by omega)]

/-- **The state at the first instruction of the kernel**, from the one in real mode. -/
structure InLongMode (l : ModeLabels) (c : Control) (e : Entered) : Prop where
  bits : e.control.bits = 64
  cr0 : e.control.cr0 = (c.cr0 ||| 1) ||| 1#32 <<< 31
  cr4 : e.control.cr4 = c.cr4 ||| 1#32 <<< 5
  efer : e.control.efer = c.efer ||| 0x500
  cr3 : e.control.cr3 = 0x1000
  segments : e.control.cs = code64 ∧ e.control.data = data64
  quiet : e.control.interrupts = false
  up : e.control.df = false
  a20 : e.control.port92 = c.port92 ||| 2
  registers : e.rdi = 0x5000 ∧ e.rsp = 0x8FFF8 ∧ e.rip = 0x10000
  tables : Tables e.control.mem
  memory : SameOutside (fun x => TableBytes x ∨ (0x8FFF8 ≤ x ∧ x < 0x90000) ∨ (0x7EFE ≤ x ∧ x < 0x7F00) ∨
    l.Accessed x) c.mem e.control.mem

theorem InLongMode.flags {e : Entered} (h : InLongMode l c e) (la57 : c.la57 = false) :
    e.control.lma = true ∧ e.control.la57 = false :=
  ⟨(congrArg (BitVec.getLsbD · 10) h.efer).trans (longMode_bits c.efer).2,
    (congrArg (BitVec.getLsbD · 12) h.cr4).trans ((setPae_bits c.cr4).2.trans la57)⟩

theorem bits_long (pe : c.pe = true) (lma : c.lma = true) (cs : c.cs = code64) : c.bits = 64 := by
  unfold Control.bits
  rw [pe, lma, cs, code64_flags.1]
  rfl

/-- The data segment does not matter. -/
theorem bits_data (d : Descriptor) (m : Mem) : ({ c with data := d, mem := m } : Control).bits = c.bits := rfl

/-- The first instruction of the kernel. -/
theorem longModeStart_spec (bits : c.bits = 64) (gdtr : c.gdtr = ⟨23, l.gdt64Start⟩)
    (data : loadLE c.mem (l.gdt64Start + 16) 8 = 0x0000920000000000) (lma : c.lma = true) (la57 : c.la57 = false)
    (cr3 : c.cr3 = 0x1000) (tables : Tables c.mem) (ret : Nat) : longModeStart ret c = some
      ⟨{ c with data := data64, mem := storeLE (markAccessed c.mem (l.gdt64Start + 16)) 0x8FFF8 8 ret },
        0x5000, 0x8FFF8, 0x10000⟩ := by
  have start := l.inside l.gdt64Start (by simp)
  obtain ⟨d, named⟩ : ∃ d, d = data64 := ⟨_, rfl⟩
  obtain ⟨c', marked⟩ : ∃ c' : Control, c' =
      { c with data := d, mem := markAccessed c.mem (l.gdt64Start + 16) } := ⟨_, rfl⟩
  have segments : c.loadSegments 0x10 = some c' := by
    rw [marked, named]
    refine loadSegments_eq (a := l.gdt64Start + 16) ?_ ((segments_marked _ _).2.2.2 data) segment_fields.2.2.2
      (reaches_low lma la57 cr3 tables (by omega))
    rw [gdtr]
    rfl
  have tables' : Tables c'.mem := by
    rw [marked]
    apply tables.congr
    intro x table
    unfold TableBytes at table
    exact markAccessed_out (by omega)
  have fields : c'.lma = true ∧ c'.la57 = false ∧ c'.cr3 = 0x1000 := by
    rw [marked]
    exact ⟨lma, la57, cr3⟩
  obtain ⟨lma', la57', cr3'⟩ := fields
  have both : (c'.reaches 0x8FFF8 && c'.reaches 0x10000) = true :=
    Bool.and_eq_true_iff.2 ⟨reaches_low lma' la57' cr3' tables' (by omega),
      reaches_low lma' la57' cr3' tables' (by omega)⟩
  have top : stackTop - 8 = 0x8FFF8 := by
    unfold stackTop
    omega
  unfold longModeStart
  simp only [assembled_eq bits, Option.bind_eq_bind, Option.bind_some, segments, top]
  rw [if_pos both, marked, named]
  rfl

end

/-- `protected_mode_start` and `long_mode_start` from real mode. -/
theorem enterLongMode_spec {l : ModeLabels} {c : Control} (real : InRealMode c) (data : ModeData l c.mem)
    (up : c.df = false) (eax ecx edi ret16 ret ret64 : Nat) :
    ∃ e, enterLongMode l eax ecx edi ret16 ret ret64 c = some e ∧ InLongMode l c e := by
  have inside := l.inside l.gdtStart (by simp)
  have inside64 := l.inside l.gdt64Start (by simp)
  have unreal := leaveRealMode_spec real data ret16
  obtain ⟨first, cache, disable, last⟩ := setPe_bits c.cr0
  obtain ⟨m₁, mem₁⟩ : ∃ m₁, m₁ = markAccessed (storeLE c.mem 0x7EFE 2 ret16) (l.gdtStart + 8) := ⟨_, rfl⟩
  obtain ⟨c₁, at₁⟩ : ∃ c₁ : Control, c₁ = { c with
    interrupts := false, gdtr := ⟨23, l.gdtStart⟩, port92 := c.port92 ||| 2, cr0 := c.cr0 ||| 1, cs := code32,
    mem := m₁ } := ⟨_, rfl⟩
  rw [← mem₁, ← at₁] at unreal
  have kept₁ : ∀ x, ¬(0x7EFE ≤ x ∧ x < 0x7F00) → x ≠ l.gdtStart + 13 → m₁ x = c.mem x := by
    intro x stack mark
    rw [mem₁, markAccessed_out (by omega), storeLE_out (by omega)]
  have data₁ : ProtectedData l c₁.mem := by
    rw [at₁]
    refine data.protected fun x own mark => kept₁ x ?_ mark
    have := ModeLabels.own_inside own
    omega
  have fields₁ : c₁.cr0 = c.cr0 ||| 1 ∧ c₁.cr4 = c.cr4 ∧ c₁.efer = c.efer ∧ c₁.cs = code32 ∧
      c₁.gdtr = ⟨23, l.gdtStart⟩ ∧ c₁.df = false := by
    rw [at₁]
    exact ⟨rfl, rfl, rfl, rfl, rfl, up⟩
  obtain ⟨cr0₁, cr4₁, efer₁, cs₁, gdtr₁, up₁⟩ := fields₁
  have protected₁ : InProtectedMode l c₁ := by
    refine ⟨?_, ?_, ?_, ?_, ?_, cs₁, gdtr₁⟩
    · rw [Control.pe, cr0₁, first]
    · rw [Control.pg, cr0₁, last]
      exact real.pg
    · rw [cr0₁, cache, disable]
      exact real.cache
    · rw [Control.lma, efer₁]
      exact real.lma
    · rw [Control.la57, cr4₁]
      exact real.la57
  obtain ⟨m, long, tables, data64', outside⟩ := protectedModeStart_spec protected₁ data₁ up₁ eax ecx edi ret
  obtain ⟨c₂, at₂⟩ : ∃ c₂ : Control, c₂ = { c₁ with
    cr0 := c₁.cr0 ||| 1#32 <<< 31, cr3 := 0x1000, cr4 := c₁.cr4 ||| 1#32 <<< 5, efer := c₁.efer ||| 0x500,
    gdtr := ⟨23, l.gdt64Start⟩, cs := code64, data := data32, mem := m } := ⟨_, rfl⟩
  rw [← at₂] at long
  have fields : c₂.pe = true ∧ c₂.lma = true ∧ c₂.la57 = false ∧ c₂.cs = code64 ∧ c₂.gdtr = ⟨23, l.gdt64Start⟩ ∧
      c₂.cr3 = 0x1000 ∧ c₂.mem = m := by
    rw [at₂]
    exact ⟨(setPg_bits c₁.cr0).1.trans protected₁.pe, (longMode_bits c₁.efer).2,
      (setPae_bits c₁.cr4).2.trans protected₁.la57, rfl, rfl, rfl, rfl⟩
  obtain ⟨pe, lma, la57, cs, gdtr, cr3, mem⟩ := fields
  have kept : c₂.cr0 = (c.cr0 ||| 1) ||| 1#32 <<< 31 ∧ c₂.cr4 = c.cr4 ||| 1#32 <<< 5 ∧ c₂.efer = c.efer ||| 0x500 ∧
      c₂.interrupts = false ∧ c₂.df = false ∧ c₂.port92 = c.port92 ||| 2 := by
    rw [at₂, at₁]
    exact ⟨rfl, rfl, rfl, rfl, up, rfl⟩
  obtain ⟨cr0, cr4, efer, quiet, up₂, a20⟩ := kept
  have call := longModeStart_spec (bits_long pe lma cs) gdtr (by rw [mem]; exact data64') lma la57 cr3
    (by rw [mem]; exact tables) ret64
  obtain ⟨d, named⟩ : ∃ d, d = data64 := ⟨_, rfl⟩
  rw [← named] at call
  obtain ⟨e, at₃⟩ : ∃ e : Entered, e =
      ⟨{ c₂ with data := d, mem := storeLE (markAccessed c₂.mem (l.gdt64Start + 16)) 0x8FFF8 8 ret64 }, 0x5000, 0x8FFF8,
        0x10000⟩ := ⟨_, rfl⟩
  rw [← at₃] at call
  have entered : InLongMode l c e := by
    rw [at₃]
    refine ⟨(bits_data _ _).trans (bits_long pe lma cs), cr0, cr4, efer, cr3, ⟨cs, named⟩, quiet, up₂, a20,
      ⟨rfl, rfl, rfl⟩, ?_, ?_⟩
    · apply Tables.congr (m := m) tables
      intro x inside
      unfold TableBytes at inside
      dsimp only
      rw [storeLE_out (by omega), markAccessed_out (by omega), mem]
    · intro x out
      obtain ⟨table, stack, stack16, mark⟩ : ¬ TableBytes x ∧ ¬(0x8FFF8 ≤ x ∧ x < 0x90000) ∧
          ¬(0x7EFE ≤ x ∧ x < 0x7F00) ∧ ¬ l.Accessed x := by
        simpa only [not_or] using out
      have untouched : m x = m₁ x := by
        refine (outside x ?_).trans (by rw [at₁])
        unfold stackTop
        simp only [not_or]
        exact ⟨table, by omega, mark⟩
      unfold ModeLabels.Accessed at mark
      dsimp only
      rw [storeLE_out (by omega), markAccessed_out (by omega), mem, untouched]
      exact kept₁ x stack16 (by omega)
  refine ⟨e, ?_, entered⟩
  unfold enterLongMode
  simp only [unreal, long, call, Option.bind_eq_bind, Option.bind_some]

/-- **The switch to long mode.** From real mode, whatever else the control registers hold, as long
as the direction flag is clear, no step faults and no code runs in another mode than it was
assembled for. The kernel starts in 64-bit mode with interrupts off, the line `A20` on, the first
GiB mapped to itself and nothing else, and the structure of `fill_boot_info` in `rdi`; besides the
page tables, the return addresses of three calls and the accessed bits of four descriptors memory is
as it was. -/
theorem long_mode_entered (l : ModeLabels) (c : Control) (real : InRealMode c) (data : ModeData l c.mem)
    (up : c.df = false) (eax ecx edi ret16 ret ret64 : Nat) :
    ∃ e, enterLongMode l eax ecx edi ret16 ret ret64 c = some e ∧ InLongMode l c e ∧
      (∀ a, a < 2 ^ 30 → e.control.reaches a = true) ∧
      ∀ a, Canonical a → 2 ^ 30 ≤ a → pageWalk e.control.mem e.control.cr3 a = none := by
  obtain ⟨e, run, entered⟩ := enterLongMode_spec real data up eax ecx edi ret16 ret ret64
  refine ⟨e, run, entered, fun a below => ?_, fun a canonical high => ?_⟩
  · obtain ⟨lma, four⟩ := entered.flags real.la57
    exact reaches_low lma four entered.cr3 entered.tables below
  · rw [entered.cr3]
    exact entered.tables.unmapped canonical high

def exampleModes : ModeLabels where
  gdtStart := 0x8100
  gdtDescriptor := 0x8118
  gdt64Start := 0x8120
  gdt64Descriptor := 0x8138
  protectedModeStart := 0x8150
  longModeStart := 0x81B0
  cr0Next := 0x80F0
  pagingNext := 0x81A0
  inside := by decide
  order := by decide

/-- A memory with the tables. -/
def withTables (m : Mem) : Mem :=
  let m := storeFields m 0x8100 [⟨8, 0⟩, ⟨8, 0x00CF9A000000FFFF⟩, ⟨8, 0x00CF92000000FFFF⟩]
  let m := storeFields m 0x8118 [⟨2, 24 - 1⟩, ⟨4, 0x8100⟩]
  let m := storeFields m 0x8120 [⟨8, 0⟩, ⟨8, 0x00209A0000000000⟩, ⟨8, 0x0000920000000000⟩]
  storeFields m 0x8138 [⟨2, 24 - 1⟩, ⟨8, 0x8120⟩]

theorem withTables_data (m : Mem) : ModeData exampleModes (withTables m) := by
  have later {a b : Nat} {fs gs : List Field} {m : Mem} (h : HasFields m a fs) (apart : a + recordSize fs ≤ b) :
      HasFields (storeFields m b gs) a fs :=
    h.congr fun x lo hi => storeFields_outside m b gs x (by omega)
  unfold withTables
  constructor
  · exact later (later (later (hasFields_storeFields _ _ _) (by decide)) (by decide)) (by decide)
  · exact later (later (hasFields_storeFields _ _ _) (by decide)) (by decide)
  · exact later (hasFields_storeFields _ _ _) (by decide)
  · exact hasFields_storeFields _ _ _

/-- The control registers as a reset leaves them. -/
def afterReset (m : Mem) : Control where
  cr0 := 0x60000010
  cr3 := 0
  cr4 := 0
  efer := 0
  gdtr := ⟨0xFFFF, 0⟩
  cs := ⟨0x8000, 0xFFFF, 0x9B, 0⟩
  data := ⟨0, 0xFFFF, 0x93, 0⟩
  interrupts := true
  df := false
  port92 := 0
  mem := m

theorem afterReset_real (m : Mem) : InRealMode (afterReset m) := by
  have cr0 : (0x60000010 : BitVec 32).getLsbD 0 = false ∧ (0x60000010 : BitVec 32).getLsbD 31 = false ∧
      ((0x60000010 : BitVec 32).getLsbD 29 && !(0x60000010 : BitVec 32).getLsbD 30) = false := by decide
  exact ⟨cr0.1, cr0.2.1, cr0.2.2, BitVec.getLsbD_zero, BitVec.getLsbD_zero, ⟨BitVec.getLsbD_zero, BitVec.getLsbD_zero⟩⟩

theorem long_mode_entered_reset : ∃ e, enterLongMode exampleModes 1 2 3 0x80E0 0x8160 0x81D0
    (afterReset (withTables fun _ => 0xCC)) = some e ∧ e.control.bits = 64 := by
  obtain ⟨e, run, long, -⟩ := long_mode_entered exampleModes (afterReset (withTables fun _ => 0xCC)) (afterReset_real _)
    (withTables_data _) rfl 1 2 3 0x80E0 0x8160 0x81D0
  exact ⟨e, run, long.bits⟩

end SimpleKernel.Boot
