import SimpleKernel.Kstring
import SimpleKernel.Lib.Packed

/-!
# `gdt.c`: segments and the task state

`gdt_init` writes a code, a data and a task state descriptor; the address of the task state segment is split
over four fields. The processor's side is what `lgdt`, the loads of the segment registers and `ltr` check and read.
The words that `gdt_load` pushes for its far return are left out, and the accessed bits that the loads set in
the descriptors.
-/

namespace SimpleKernel.Gdt
set_option autoImplicit false
open Lib Kstring

def sizeofGdt : Nat := 40
def sizeofTss : Nat := 104

theorem sizeofGdt_eq : sizeofGdt = 40 := rfl
theorem sizeofTss_eq : sizeofTss = 104 := rfl

/-- Where the linker put `gdt` and `tss`, and the place of `ptr` on the stack. -/
structure Labels where
  gdt : Nat
  tss : Nat
  ptr : Nat
  gdtUpper : gdt + sizeofGdt ≤ 2 ^ 64
  tssUpper : tss + sizeofTss ≤ 2 ^ 64
  ptrUpper : ptr + 10 ≤ 2 ^ 64
  apart : gdt + sizeofGdt ≤ tss ∨ tss + sizeofTss ≤ gdt
  ptrGdt : ptr + 10 ≤ gdt ∨ gdt + sizeofGdt ≤ ptr
  ptrTss : ptr + 10 ≤ tss ∨ tss + sizeofTss ≤ ptr

/-- The bytes that `gdt_init` owns. -/
def Labels.Own (l : Labels) (x : Nat) : Prop :=
  (l.gdt ≤ x ∧ x < l.gdt + sizeofGdt) ∨ (l.tss ≤ x ∧ x < l.tss + sizeofTss) ∨ (l.ptr ≤ x ∧ x < l.ptr + 10)

theorem Labels.own_iff (l : Labels) {x : Nat} : l.Own x ↔ (l.gdt ≤ x ∧ x < l.gdt + 40) ∨
    (l.tss ≤ x ∧ x < l.tss + 104) ∨ (l.ptr ≤ x ∧ x < l.ptr + 10) := Iff.rfl

def Labels.codeSeg (l : Labels) : Nat := l.gdt + 8
def Labels.dataSeg (l : Labels) : Nat := l.gdt + 16
def Labels.tssSeg (l : Labels) : Nat := l.gdt + 24

/-- `gdt_init` up to the calls of `gdt_load` and `tss_load`. -/
def gdtInit (l : Labels) (m : Mem) : Mem :=
  let m := kmemset m l.gdt 0 sizeofGdt
  let m := kmemset m l.tss 0 sizeofTss
  let m := storeLE m (l.codeSeg + 5) 1 0x9A
  let m := storeLE m (l.codeSeg + 6) 1 0x20
  let m := storeLE m (l.dataSeg + 5) 1 0x92
  let base := l.tss
  let limit := sizeofTss - 1
  let m := storeLE m l.tssSeg 2 (limit &&& 0xFFFF)
  let m := storeLE m (l.tssSeg + 2) 2 (base &&& 0xFFFF)
  let m := storeLE m (l.tssSeg + 4) 1 ((base >>> 16) &&& 0xFF)
  let m := storeLE m (l.tssSeg + 5) 1 0x89
  let m := storeLE m (l.tssSeg + 6) 1 ((limit >>> 16) &&& 0x0F)
  let m := storeLE m (l.tssSeg + 7) 1 ((base >>> 24) &&& 0xFF)
  let m := storeLE m (l.tssSeg + 8) 4 ((base >>> 32) &&& 0xFFFFFFFF)
  let m := storeLE m l.ptr 2 (sizeofGdt - 1)
  storeLE m (l.ptr + 2) 8 l.gdt

/-! ## The processor -/

/-- The global descriptor table register. -/
structure Gdtr where
  limit : Nat
  base : Nat
  deriving DecidableEq, Repr

def lgdt (m : Mem) (a : Nat) : Gdtr := ⟨loadLE m a 2, loadLE m (a + 2) 8⟩

/-- What the processor makes of the eight bytes of a descriptor. -/
structure Descriptor where
  base : Nat
  limit : Nat
  access : BitVec 8
  flags : BitVec 4
  deriving DecidableEq, Repr

def readDescriptor (m : Mem) (a : Nat) : Descriptor where
  base := loadLE m (a + 2) 2 + 2 ^ 16 * loadLE m (a + 4) 1 + 2 ^ 24 * loadLE m (a + 7) 1
  limit := loadLE m a 2 + 2 ^ 16 * (loadLE m (a + 6) 1 % 16)
  access := BitVec.ofNat 8 (loadLE m (a + 5) 1)
  flags := BitVec.ofNat 4 (loadLE m (a + 6) 1 / 16)

/-- The address of the descriptor that a selector names, if all of its bytes are inside the table. -/
def descriptorAddr (r : Gdtr) (selector size : Nat) : Option Nat :=
  if selector / 4 % 2 = 0 ∧ selector / 8 * 8 + size - 1 ≤ r.limit then some (r.base + selector / 8 * 8) else none

def Descriptor.present (d : Descriptor) : Bool := d.access.getLsbD 7

def Descriptor.dpl (d : Descriptor) : BitVec 2 := (d.access >>> 5).setWidth 2

/-- A present 64-bit code segment of the kernel. -/
def Descriptor.code64 (d : Descriptor) : Bool :=
  d.present && d.access.getLsbD 4 && d.access.getLsbD 3 && d.dpl == 0 && d.flags.getLsbD 1 && !d.flags.getLsbD 2

/-- A present data segment of the kernel that can be written. -/
def Descriptor.writableData (d : Descriptor) : Bool :=
  d.present && d.access.getLsbD 4 && !d.access.getLsbD 3 && d.access.getLsbD 1 && d.dpl == 0

/-- A present 64-bit task state segment that is not busy. -/
def Descriptor.availableTask (d : Descriptor) : Bool := d.present && d.access.setWidth 5 == 0x09

/-- A load of `cs`. -/
def loadCode (r : Gdtr) (m : Mem) (selector : Nat) : Option Descriptor := do
  let a ← descriptorAddr r selector 8
  if (readDescriptor m a).code64 then some (readDescriptor m a) else none

/-- A load of `ss`, which is the strictest of the data segments. -/
def loadData (r : Gdtr) (m : Mem) (selector : Nat) : Option Descriptor := do
  let a ← descriptorAddr r selector 8
  if (readDescriptor m a).writableData then some (readDescriptor m a) else none

/-- The task register. -/
structure Task where
  selector : Nat
  base : Nat
  limit : Nat
  deriving DecidableEq, Repr

/-- `ltr`: the descriptor is marked busy. -/
def ltr (r : Gdtr) (m : Mem) (selector : Nat) : Option (Task × Mem) := do
  let a ← descriptorAddr r selector 16
  let d := readDescriptor m a
  if d.availableTask ∧ loadLE m (a + 12) 4 / 2 ^ 8 % 2 ^ 5 = 0 then
    some (⟨selector, d.base + 2 ^ 32 * loadLE m (a + 8) 4, d.limit⟩, storeByte m (a + 5) (m (a + 5) ||| 2))
  else none

/-- The registers after `gdt_init`. -/
structure Segments where
  gdtr : Gdtr
  code : Descriptor
  data : Descriptor
  task : Task
  deriving DecidableEq, Repr

/-- `gdt_load`: `lgdt`, `ds`, `es`, `fs`, `gs` and `ss`, and `cs` by the far return. -/
def gdtLoad (m : Mem) (ptr : Nat) : Option (Gdtr × Descriptor × Descriptor) := do
  let r := lgdt m ptr
  let data ← loadData r m 0x10
  let code ← loadCode r m 0x08
  some (r, code, data)

/-- `gdt_init` with its calls; `none` where the processor faults. -/
def gdtInitLoad (l : Labels) (m : Mem) : Option (Segments × Mem) := do
  let m := gdtInit l m
  let (gdtr, code, data) ← gdtLoad m l.ptr
  let (task, m) ← ltr gdtr m 0x18
  some (⟨gdtr, code, data, task⟩, m)

/-! ## The descriptors -/

/-- `struct gdt64_entry`. -/
structure Gdt64Entry where
  limitLow : Nat
  baseLow : Nat
  baseMid : Nat
  access : Nat
  granularity : Nat
  baseHigh : Nat

def Gdt64Entry.fields (e : Gdt64Entry) : List Field :=
  [⟨2, e.limitLow⟩, ⟨2, e.baseLow⟩, ⟨1, e.baseMid⟩, ⟨1, e.access⟩, ⟨1, e.granularity⟩, ⟨1, e.baseHigh⟩]

def codeEntry : Gdt64Entry := ⟨0, 0, 0, 0x9A, 0x20, 0⟩
def dataEntry : Gdt64Entry := ⟨0, 0, 0, 0x92, 0, 0⟩

def Gdt64Entry.descriptor (e : Gdt64Entry) : Descriptor where
  base := e.baseLow % 256 ^ 2 + 2 ^ 16 * (e.baseMid % 256 ^ 1) + 2 ^ 24 * (e.baseHigh % 256 ^ 1)
  limit := e.limitLow % 256 ^ 2 + 2 ^ 16 * (e.granularity % 256 ^ 1 % 16)
  access := BitVec.ofNat 8 (e.access % 256 ^ 1)
  flags := BitVec.ofNat 4 (e.granularity % 256 ^ 1 / 16)

/-- The first half of `struct tss_descriptor` for a segment at `base`. -/
def taskEntry (base : Nat) : Gdt64Entry := ⟨103, base, base / 2 ^ 16, 0x89, 0, base / 2 ^ 24⟩

/-- **The tables** after `gdt_init`. -/
structure Tables (l : Labels) (m : Mem) : Prop where
  code : HasFields m l.codeSeg codeEntry.fields
  data : HasFields m l.dataSeg dataEntry.fields
  task : HasFields m l.tssSeg (taskEntry l.tss).fields
  upper : loadLE m (l.tssSeg + 8) 4 = l.tss / 2 ^ 32
  reserved : loadLE m (l.tssSeg + 12) 4 = 0
  tss : ∀ x, l.tss ≤ x → x < l.tss + sizeofTss → m x = 0
  limit : loadLE m l.ptr 2 = 39
  base : loadLE m (l.ptr + 2) 8 = l.gdt

section

variable {l : Labels} {m m' : Mem} {a : Nat}

/-- The masks of `gdt_init` are the cuts of the fields. -/
theorem base_parts {base : Nat} (upper : base < 2 ^ 64) :
    (base &&& 0xFFFF) % 256 ^ 2 = base % 256 ^ 2 ∧ (base >>> 16 &&& 0xFF) % 256 ^ 1 = base / 2 ^ 16 % 256 ^ 1 ∧
      (base >>> 24 &&& 0xFF) % 256 ^ 1 = base / 2 ^ 24 % 256 ^ 1 ∧
      (base >>> 32 &&& 0xFFFFFFFF) % 256 ^ 4 = base / 2 ^ 32 := by
  have byte : ∀ x, x &&& 0xFF = x % 2 ^ 8 := fun x => Nat.and_two_pow_sub_one_eq_mod x 8
  have word : ∀ x, x &&& 0xFFFF = x % 2 ^ 16 := fun x => Nat.and_two_pow_sub_one_eq_mod x 16
  have dword : ∀ x, x &&& 0xFFFFFFFF = x % 2 ^ 32 := fun x => Nat.and_two_pow_sub_one_eq_mod x 32
  rw [byte, byte, word, dword, Nat.shiftRight_eq_div_pow, Nat.shiftRight_eq_div_pow, Nat.shiftRight_eq_div_pow]
  omega

/-- **`gdt_init`** up to the loads. -/
theorem gdtInit_tables (l : Labels) (m : Mem) : Tables l (gdtInit l m) := by
  have tss := l.tssUpper
  have gdt := l.gdtUpper
  have apart := l.apart
  have ptrGdt := l.ptrGdt
  have ptrTss := l.ptrTss
  rw [sizeofTss_eq] at tss apart ptrTss
  rw [sizeofGdt_eq] at gdt apart ptrGdt
  obtain ⟨low, mid, high, upper⟩ := @base_parts l.tss (by omega)
  unfold gdtInit Labels.codeSeg Labels.dataSeg Labels.tssSeg
  simp only [kmemset_eq_fill, sizeofGdt_eq, sizeofTss_eq]
  constructor
  · simp (disch := omega) only [codeEntry, Gdt64Entry.fields, HasFields, Labels.codeSeg, Nat.add_assoc, Nat.reduceAdd,
      loadLE_storeLE_apart, loadLE_storeLE_same, loadLE_fill_apart, loadLE_fill_zero]
    decide
  · simp (disch := omega) only [dataEntry, Gdt64Entry.fields, HasFields, Labels.dataSeg, Nat.add_assoc, Nat.reduceAdd,
      loadLE_storeLE_apart, loadLE_storeLE_same, loadLE_fill_apart, loadLE_fill_zero]
    decide
  · simp (disch := omega) only [taskEntry, Gdt64Entry.fields, HasFields, Labels.tssSeg, Nat.add_assoc, Nat.reduceAdd,
      loadLE_storeLE_apart, loadLE_storeLE_same]
    exact ⟨rfl, low, mid, trivial, rfl, high, trivial⟩
  · simp (disch := omega) only [Labels.tssSeg, Nat.add_assoc, Nat.reduceAdd, loadLE_storeLE_apart, loadLE_storeLE_same]
    exact upper
  · simp (disch := omega) only [Labels.tssSeg, Nat.add_assoc, Nat.reduceAdd, loadLE_storeLE_apart, loadLE_fill_apart,
      loadLE_fill_zero]
  · intro x lo hi
    rw [sizeofTss_eq] at hi
    simp (disch := omega) only [storeLE_out]
    exact fill_in ⟨lo, hi⟩
  · simp (disch := omega) only [loadLE_storeLE_apart, loadLE_storeLE_same]
    rfl
  · rw [loadLE_storeLE_same]
    exact Nat.mod_eq_of_lt (by omega)

theorem gdtInit_outside (l : Labels) (m : Mem) : SameOutside l.Own m (gdtInit l m) := by
  intro x out
  rw [l.own_iff] at out
  unfold gdtInit Labels.codeSeg Labels.dataSeg Labels.tssSeg
  simp only [kmemset_eq_fill, sizeofGdt_eq, sizeofTss_eq]
  simp (disch := omega) only [storeLE_out, fill_out]

/-! ## The loads -/

/-- What the processor sees of an entry. -/
theorem readDescriptor_fields {e : Gdt64Entry} (h : HasFields m a e.fields) : readDescriptor m a = e.descriptor := by
  simp only [Gdt64Entry.fields, HasFields, Nat.add_assoc, Nat.reduceAdd] at h
  obtain ⟨limit, low, mid, access, granularity, high, -⟩ := h
  unfold readDescriptor Gdt64Entry.descriptor
  rw [limit, low, mid, access, granularity, high]

/-- The table register, in a memory that has the tables. -/
theorem Tables.lgdt (h : Tables l m) : lgdt m l.ptr = ⟨39, l.gdt⟩ := by
  unfold Gdt.lgdt
  rw [h.limit, h.base]

theorem codeEntry_code64 : codeEntry.descriptor.code64 = true := by decide

theorem dataEntry_writable : dataEntry.descriptor.writableData = true := by decide

theorem taskEntry_available (base : Nat) : (taskEntry base).descriptor.availableTask = true := by
  show ((BitVec.ofNat 8 (0x89 % 256 ^ 1)).getLsbD 7 && (BitVec.ofNat 8 (0x89 % 256 ^ 1)).setWidth 5 == 0x09) = true
  decide

/-- The descriptors that the kernel's selectors name. -/
theorem Labels.addrs (l : Labels) : descriptorAddr ⟨39, l.gdt⟩ 0x08 8 = some l.codeSeg ∧
    descriptorAddr ⟨39, l.gdt⟩ 0x10 8 = some l.dataSeg ∧ descriptorAddr ⟨39, l.gdt⟩ 0x18 16 = some l.tssSeg :=
  ⟨rfl, rfl, rfl⟩

theorem loadCode_eq {r : Gdtr} {selector : Nat} {d : Descriptor} (addr : descriptorAddr r selector 8 = some a)
    (read : readDescriptor m a = d) (code : d.code64 = true) : loadCode r m selector = some d := by
  unfold loadCode
  rw [addr]
  subst read
  exact if_pos code

theorem loadData_eq {r : Gdtr} {selector : Nat} {d : Descriptor} (addr : descriptorAddr r selector 8 = some a)
    (read : readDescriptor m a = d) (data : d.writableData = true) : loadData r m selector = some d := by
  unfold loadData
  rw [addr]
  subst read
  exact if_pos data

/-- The four fields of the base make up the address of `tss`. -/
theorem taskEntry_base (base : Nat) :
    (taskEntry base).descriptor.base + 2 ^ 32 * (base / 2 ^ 32) = base := by
  unfold taskEntry Gdt64Entry.descriptor
  dsimp only
  omega

theorem Tables.ltr (h : Tables l m) :
    ltr ⟨39, l.gdt⟩ m 0x18 = some (⟨0x18, l.tss, 103⟩, storeByte m (l.tssSeg + 5) (m (l.tssSeg + 5) ||| 2)) := by
  have read := readDescriptor_fields h.task
  have available : (readDescriptor m l.tssSeg).availableTask = true := by
    rw [read]
    exact taskEntry_available l.tss
  have unused : loadLE m (l.tssSeg + 12) 4 / 2 ^ 8 % 2 ^ 5 = 0 := by
    rw [h.reserved]
    decide
  unfold Gdt.ltr
  rw [l.addrs.2.2]
  refine (if_pos ⟨available, unused⟩).trans ?_
  rw [read, h.upper, taskEntry_base]
  rfl

/-- A task that is busy is not loaded again. -/
theorem ltr_busy (busy : (m (l.tssSeg + 5)).getLsbD 1 = true) : Gdt.ltr ⟨39, l.gdt⟩ m 0x18 = none := by
  have access : (readDescriptor m l.tssSeg).access = m (l.tssSeg + 5) := by
    show BitVec.ofNat 8 ((m (l.tssSeg + 5)).toNat + 256 * 0) = _
    rw [Nat.mul_zero, Nat.add_zero, BitVec.ofNat_toNat, BitVec.setWidth_eq]
  have unavailable : (readDescriptor m l.tssSeg).availableTask = false := by
    unfold Descriptor.availableTask Descriptor.present
    rw [access]
    generalize m (l.tssSeg + 5) = byte at busy
    revert byte
    decide
  unfold Gdt.ltr
  rw [l.addrs.2.2]
  refine if_neg fun both => ?_
  rw [unavailable] at both
  exact Bool.false_ne_true both.1

/-- **The registers and the tables** after `gdt_init`. -/
structure Loaded (l : Labels) (s : Segments) (m : Mem) : Prop where
  gdtr : s.gdtr = ⟨39, l.gdt⟩
  task : s.task = ⟨0x18, l.tss, 103⟩
  codeAgain : loadCode s.gdtr m 0x08 = some s.code
  dataAgain : loadData s.gdtr m 0x10 = some s.data
  taskBusy : ltr s.gdtr m 0x18 = none
  noStacks : ∀ x, l.tss ≤ x → x < l.tss + sizeofTss → m x = 0

theorem readDescriptor_congr (same : ∀ x, a ≤ x → x < a + 8 → m' x = m x) :
    readDescriptor m' a = readDescriptor m a := by
  unfold readDescriptor
  repeat rw [loadLE_congr fun x lo hi => same x (by omega) (by omega)]

/-- The segments can be loaded as long as the table is there. -/
theorem Loaded.congr {s : Segments} (h : Loaded l s m) (same : ∀ x, l.Own x → m' x = m x) :
    loadCode s.gdtr m' 0x08 = some s.code ∧ loadData s.gdtr m' 0x10 = some s.data := by
  have code := h.codeAgain
  have data := h.dataAgain
  simp only [l.own_iff] at same
  rw [h.gdtr] at code data ⊢
  unfold loadCode at code ⊢
  unfold loadData at data ⊢
  rw [l.addrs.1] at code ⊢
  rw [l.addrs.2.1] at data ⊢
  have codeSeg : readDescriptor m' l.codeSeg = readDescriptor m l.codeSeg := by
    unfold Labels.codeSeg
    exact readDescriptor_congr fun x lo hi => same x (by omega)
  have dataSeg : readDescriptor m' l.dataSeg = readDescriptor m l.dataSeg := by
    unfold Labels.dataSeg
    exact readDescriptor_congr fun x lo hi => same x (by omega)
  constructor
  · exact (congrArg (fun d : Descriptor => if d.code64 then some d else none) codeSeg).trans code
  · exact (congrArg (fun d : Descriptor => if d.writableData then some d else none) dataSeg).trans data

/-- The byte that `ltr` marks. -/
def busyTask (l : Labels) (m : Mem) : Mem := storeByte (gdtInit l m) (l.tssSeg + 5) (gdtInit l m (l.tssSeg + 5) ||| 2)

theorem busyTask_out {x : Nat} (ne : x ≠ l.gdt + 29) : busyTask l m x = gdtInit l m x := storeByte_out ne

/-- The loads of `gdt_init`, one after the other. -/
theorem gdtInitLoad_spec (l : Labels) (m : Mem) :
    ∃ s, gdtInitLoad l m = some (s, busyTask l m) ∧ Loaded l s (busyTask l m) ∧
      s.code.code64 = true ∧ s.data.writableData = true := by
  have tables := gdtInit_tables l m
  obtain ⟨codeAddr, dataAddr, -⟩ := l.addrs
  have apart := l.apart
  rw [sizeofTss_eq, sizeofGdt_eq] at apart
  obtain ⟨m', busy⟩ : ∃ m', m' = busyTask l m := ⟨_, rfl⟩
  have same : ∀ x, x ≠ l.gdt + 29 → m' x = gdtInit l m x := by
    intro x ne
    rw [busy]
    exact busyTask_out ne
  have codeSeg : HasFields m' (l.gdt + 8) codeEntry.fields := tables.code.congr fun x _ hi => same x (by
    have upper : x < l.gdt + 8 + 8 := hi
    omega)
  have dataSeg : HasFields m' (l.gdt + 16) dataEntry.fields := tables.data.congr fun x _ hi => same x (by
    have upper : x < l.gdt + 16 + 8 := hi
    omega)
  rw [← busy]
  refine ⟨⟨⟨39, l.gdt⟩, codeEntry.descriptor, dataEntry.descriptor, ⟨0x18, l.tss, 103⟩⟩, ?_, ⟨rfl, rfl, ?_, ?_, ?_, ?_⟩,
    codeEntry_code64, dataEntry_writable⟩
  · have data := loadData_eq dataAddr (readDescriptor_fields tables.data) dataEntry_writable
    have code := loadCode_eq codeAddr (readDescriptor_fields tables.code) codeEntry_code64
    unfold gdtInitLoad gdtLoad
    simp only [tables.lgdt, data, code, tables.ltr, busy, busyTask, Option.bind_eq_bind, Option.bind_some]
  · exact loadCode_eq codeAddr (readDescriptor_fields codeSeg) codeEntry_code64
  · exact loadData_eq dataAddr (readDescriptor_fields dataSeg) dataEntry_writable
  · apply ltr_busy
    rw [busy, busyTask, storeByte_self, BitVec.getLsbD_or]
    exact Bool.or_true _
  · intro x lo hi
    have upper : x < l.tss + 104 := hi
    rw [same x (by omega)]
    exact tables.tss x lo hi

end

/-- **The segments.** Whatever memory holds, and wherever the linker put the tables, no load of `gdt_init` faults: the
code segment is a 64-bit one of the kernel, the data segment can be written, and the task register points to `tss`,
whose address is put together from four fields and whose bytes are all zero. Both segments can be loaded again, and
nothing but the tables and `ptr` has changed. -/
theorem gdt_init_loads (l : Labels) (m : Mem) : ∃ s m', gdtInitLoad l m = some (s, m') ∧ Loaded l s m' ∧
    s.code.code64 = true ∧ s.data.writableData = true ∧ SameOutside l.Own m m' := by
  obtain ⟨s, run, loaded, code64, writable⟩ := gdtInitLoad_spec l m
  refine ⟨s, busyTask l m, run, loaded, code64, writable, fun x out => ?_⟩
  have other : x ≠ l.gdt + 29 := by
    rw [l.own_iff] at out
    omega
  rw [busyTask_out other]
  exact gdtInit_outside l m x out

end SimpleKernel.Gdt
