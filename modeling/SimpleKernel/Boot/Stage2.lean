import SimpleKernel.Lib.Memory
import SimpleKernel.Lib.Word
import Mathlib.Data.List.Basic

/-!
# `boot_stage2.asm` and `boot_info.h`

`collect_e820_map` and `fill_boot_info` run in real mode with all segments `0`,
`setup_page_tables` in flat 32-bit mode, for either direction of `rep stosd`; memory is
physical. The firmware answers each continuation value of `INT 15h, EAX=E820h` in one way;
what it does on the stack is left out. The C side reads the two structures of
`boot_info.h` at the offsets that the compiler gives their fields.
-/

namespace SimpleKernel.Boot
set_option autoImplicit false
open Lib

def bootInfoAddr : Nat := 0x5000
def memoryMapAddr : Nat := 0x5400
def pageTableBase : Nat := 0x1000
def memoryMapLimit : Nat := 64
def bootInfoMagic : Nat := 0xB007B007
/-- The bytes that an entry of the last table maps. -/
@[irreducible] def largePageSize : Nat := 0x200000
def smap : BitVec 32 := 0x534D4150#32

theorem largePageSize_eq : largePageSize = 0x200000 := by unfold largePageSize; rfl

/-- The constants of a build: `build_image.sh` rounds the size up to sectors, and the number
of sectors is stored in a word. -/
structure Build where
  kernelSizeBytes : Nat
  kernelSectors : Nat
  rounded : kernelSectors = (kernelSizeBytes + 511) / 512
  word : kernelSectors < 2 ^ 16

/-- Where the assembler put the variable `memory_map_count`: behind the code, which starts at
`0x8000`, and within the reach of a 16-bit address. -/
structure Labels where
  memoryMapCount : Nat
  lower : 0x8000 ≤ memoryMapCount
  upper : memoryMapCount + 2 ≤ 0x10000

/-! ## The firmware -/

/-- The answer to one call: a failure, by the carry flag or by a wrong signature, or an entry
of 20 or 24 bytes with the next continuation value. -/
inductive Response where
  | carry
  | signature (eax : BitVec 32) (wrong : eax ≠ smap)
  | entry (base length : BitVec 64) (type : BitVec 32) (acpi : Option (BitVec 32)) (next : BitVec 32)

/-- The answers by continuation value. -/
abbrev Bios := BitVec 32 → Response

/-! ## Real mode -/

structure RealMode where
  eax : BitVec 32
  ebx : BitVec 32
  ecx : BitVec 32
  edx : BitVec 32
  di : BitVec 16
  carry : Bool
  mem : Mem

def storeDword (m : Mem) (a v : Nat) : Mem := storeLE m a 4 v

/-- The 20 or 24 bytes that the firmware stores. -/
def writeEntry (m : Mem) (a : Nat) (base length : BitVec 64) (type : BitVec 32) (acpi : Option (BitVec 32)) : Mem :=
  let m := storeLE m a 8 base.toNat
  let m := storeLE m (a + 8) 8 length.toNat
  let m := storeLE m (a + 16) 4 type.toNat
  match acpi with
  | none => m
  | some acpi => storeLE m (a + 20) 4 acpi.toNat

/-- `int 0x15` with `eax = 0xE820`: an entry goes to `es:di`, its size to `ecx`. -/
def int15 (bios : Bios) (s : RealMode) : RealMode :=
  match bios s.ebx with
  | .carry => { s with carry := true }
  | .signature eax _ => { s with carry := false, eax }
  | .entry base length type acpi next =>
    let ecx := if acpi.isSome then 24 else 20
    { s with carry := false, eax := smap, ebx := next, ecx, mem := writeEntry s.mem s.di.toNat base length type acpi }

/-- `.loop` of `collect_e820_map`, an iteration a unit of fuel. -/
def collectLoop (bios : Bios) (v : Labels) : Nat → RealMode → Option RealMode
  | 0, _ => none
  | fuel + 1, s =>
    if loadLE s.mem v.memoryMapCount 2 ≥ memoryMapLimit then some s
    else
      let s := { s with eax := 0xE820, edx := smap, ecx := 24 }
      let s := int15 bios { s with mem := storeDword s.mem (s.di + 20).toNat 1 }
      if s.carry then some s
      else if s.eax ≠ smap then some s
      else
        let s := { s with di := s.di + 24 }
        let s := { s with mem := storeLE s.mem v.memoryMapCount 2 (loadLE s.mem v.memoryMapCount 2 + 1) }
        if s.ebx ≠ 0 then collectLoop bios v fuel s else some s

def collectE820Map (bios : Bios) (v : Labels) (fuel : Nat) (s : RealMode) : Option RealMode :=
  let s := { s with ebx := 0, di := BitVec.ofNat 16 memoryMapAddr }
  collectLoop bios v fuel { s with mem := storeLE s.mem v.memoryMapCount 2 0 }

def fillBootInfo (k : Build) (v : Labels) (m : Mem) : Mem :=
  let m := storeDword m (bootInfoAddr + 0) bootInfoMagic
  let m := storeDword m (bootInfoAddr + 4) 1
  let m := storeDword m (bootInfoAddr + 8) (loadLE m v.memoryMapCount 2)
  let m := storeDword m (bootInfoAddr + 8 + 4) 0
  let m := storeDword m (bootInfoAddr + 16) memoryMapAddr
  let m := storeDword m (bootInfoAddr + 16 + 4) 0
  let m := storeDword m (bootInfoAddr + 24) 0x10000
  let m := storeDword m (bootInfoAddr + 24 + 4) 0
  let m := storeDword m (bootInfoAddr + 32) (0x10000 + k.kernelSizeBytes)
  let m := storeDword m (bootInfoAddr + 32 + 4) 0
  let m := storeDword m (bootInfoAddr + 40) 0x10000
  let m := storeDword m (bootInfoAddr + 40 + 4) 0
  let m := storeDword m (bootInfoAddr + 48) pageTableBase
  storeDword m (bootInfoAddr + 48 + 4) 0

/-! ## Protected mode -/

structure Protected where
  eax : Nat
  ecx : Nat
  edi : Nat
  cr3 : Nat
  mem : Mem

/-- `rep stosd`; the arguments are the direction flag and `ecx`. -/
def repStosd (df : Bool) : Nat → Protected → Protected
  | 0, s => { s with ecx := 0 }
  | n + 1, s =>
    repStosd df n { s with
      mem := storeDword s.mem s.edi s.eax
      edi := if df then u32 (s.edi + 2 ^ 32 - 4) else u32 (s.edi + 4) }

/-- The body of `.map_loop`, which adds `page` to `eax`. -/
def mapBody (page : Nat) (s : Protected) : Protected :=
  let m := storeDword s.mem s.edi s.eax
  let m := storeDword m (u32 (s.edi + 4)) 0
  { s with mem := m, eax := u32 (s.eax + page), edi := u32 (s.edi + 8) }

/-- `.map_loop`; the last argument but one is `ecx`, which `loop` counts down. -/
def mapLoop (page : Nat) : Nat → Protected → Protected
  | 0, s => { s with ecx := 0 }
  | n + 1, s => mapLoop page n (mapBody page s)

/-- `setup_page_tables` up to `rep stosd`. -/
def clearTables (df : Bool) (s : Protected) : Protected := repStosd df 3072 { s with edi := pageTableBase, eax := 0 }

/-- `setup_page_tables` from there up to `.map_loop`. -/
def linkTables (s : Protected) : Protected :=
  let s := { s with eax := pageTableBase, cr3 := pageTableBase }
  let m := storeDword s.mem (pageTableBase + 0x0000) (pageTableBase + 0x1000 + 0x03)
  let m := storeDword m (pageTableBase + 0x1000) (pageTableBase + 0x2000 + 0x03)
  { s with mem := m, edi := pageTableBase + 0x2000, eax := 0x00000083 }

/-- No `cld` stands before it, so that the direction flag is what the firmware left. -/
def setupPageTables (df : Bool) (s : Protected) : Protected := mapLoop largePageSize 512 (linkTables (clearTables df s))

/-! ## The C side -/

/-- `memory_map_entry_t`. -/
structure MemoryMapEntry where
  base : Nat
  length : Nat
  type : Nat
  acpi : Nat
  deriving DecidableEq, Repr

/-- `boot_info_t`. -/
structure BootInfo where
  magic : Nat
  version : Nat
  memoryMapEntries : Nat
  reserved0 : Nat
  memoryMapAddr : Nat
  kernelPhysStart : Nat
  kernelPhysEnd : Nat
  kernelVirtStart : Nat
  pml4Addr : Nat
  deriving DecidableEq, Repr

def sizeofMemoryMapEntry : Nat := 24

theorem sizeofMemoryMapEntry_eq : sizeofMemoryMapEntry = 24 := rfl

def readEntry (m : Mem) (a : Nat) : MemoryMapEntry where
  base := loadLE m a 8
  length := loadLE m (a + 8) 8
  type := loadLE m (a + 16) 4
  acpi := loadLE m (a + 20) 4

def readBootInfo (m : Mem) (a : Nat) : BootInfo where
  magic := loadLE m a 4
  version := loadLE m (a + 4) 4
  memoryMapEntries := loadLE m (a + 8) 4
  reserved0 := loadLE m (a + 12) 4
  memoryMapAddr := loadLE m (a + 16) 8
  kernelPhysStart := loadLE m (a + 24) 8
  kernelPhysEnd := loadLE m (a + 32) 8
  kernelVirtStart := loadLE m (a + 40) 8
  pml4Addr := loadLE m (a + 48) 8

/-- `entries[0]`, ..., `entries[count - 1]`. -/
def readMap (m : Mem) (entries count : Nat) : List MemoryMapEntry :=
  (List.range count).map fun i => readEntry m (entries + i * sizeofMemoryMapEntry)

/-- The pointer that `boot_get_memory_map` returns and the count that it stores. -/
def bootGetMemoryMap (m : Mem) (currentBootInfo : Nat) : Nat × Nat :=
  if currentBootInfo = 0 then (0, 0)
  else ((readBootInfo m currentBootInfo).memoryMapAddr, (readBootInfo m currentBootInfo).memoryMapEntries)

end SimpleKernel.Boot
