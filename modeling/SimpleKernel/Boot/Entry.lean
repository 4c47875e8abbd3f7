import SimpleKernel.Boot.Handoff
import SimpleKernel.Boot.Image
import SimpleKernel.Boot.Modes

/-!
# From the image to `kernel_main`

`kernel_entry.asm` clears `.bss` and calls `kernel_main`. With it the whole way is there: the image
of `build_image.sh`, the boot sector, stage 2 in real mode, the switch to long mode and `_start`.
What the firmware, and the stages while they call it, do on the real-mode stack is left out, and so
are the messages that they print; the firmware keeps the direction flag.
-/

namespace SimpleKernel.Boot
set_option autoImplicit false
open Lib

/-! ## `kernel_entry.asm` -/

/-- The symbols of the linker script: `.bss` comes after what is in the file. -/
structure EntryLabels where
  bssStart : Nat
  bssEnd : Nat
  lower : 0x10000 ≤ bssStart
  order : bssStart ≤ bssEnd
  upper : bssEnd < 2 ^ 64

structure LongRegs where
  rax : Nat
  rcx : Nat
  rdi : Nat
  r12 : Nat
  rsp : Nat
  /-- The direction flag. -/
  df : Bool
  mem : Mem

/-- `rep stosb`; the argument is `rcx`. -/
def repStosb : Nat → LongRegs → LongRegs
  | 0, s => { s with rcx := 0 }
  | n + 1, s =>
    repStosb n { s with
      mem := storeByte s.mem s.rdi (BitVec.ofNat 8 s.rax)
      rdi := if s.df then sub64 s.rdi 1 else u64 (s.rdi + 1) }

/-- `_start` up to `rep stosb`. -/
def startClear (l : EntryLabels) (s : LongRegs) : LongRegs :=
  let s := { s with df := false }
  let s := { s with r12 := s.rdi }
  let s := { s with rdi := l.bssStart }
  let s := { s with rcx := l.bssEnd }
  let s := { s with rcx := sub64 s.rcx s.rdi }
  { s with rax := 0 }

/-- `_start` from there up to the first instruction of `kernel_main`. -/
def startCall (ret : Nat) (s : LongRegs) : LongRegs :=
  let s := { s with rdi := s.r12 }
  { s with rsp := sub64 s.rsp 8, mem := storeLE s.mem (sub64 s.rsp 8) 8 ret }

def start (l : EntryLabels) (ret : Nat) (s : LongRegs) : LongRegs :=
  let s := startClear l s
  startCall ret (repStosb s.rcx s)

/-! ## Stage 2 in real mode -/

/-- `boot_drive` lies before `memory_map_count`. -/
def DiskLabels.bootDrive (v : DiskLabels) : Nat := v.memoryMapCount - 1

/-- `stage2_start` up to its last `cli`; `none` where a read fails, and where one replaces stage 2. -/
def stage2Real (k : Build) (kernelStartLba : BitVec 32) (v : DiskLabels) (bios : Bios) (disk : Disk)
    (refuses : Nat → Bool) (fuel : Nat) (dl : BitVec 8) (s : RealMode) : Option Mem := do
  let s ← collectE820Map bios v.toLabels fuel { s with mem := storeByte s.mem v.bootDrive dl }
  match ← loadKernel k kernelStartLba v disk refuses fuel s.mem with
  | .returned m _ => some (fillBootInfo k v.toLabels m)
  | _ => none

/-! ## The whole way -/

/-- What is built: the assembler, the kernel, and where the labels of each stage are. The tables of stage 2 lie
before its variables, which end it. -/
structure Setup where
  asm : Assembler
  kernel : Bytes
  sector : Stage1Labels
  disk : DiskLabels
  modes : ModeLabels
  entry : EntryLabels
  word : sectorsOf kernel.length < 2 ^ 16
  top : 0x8000 + (stage2Of asm kernel).length = disk.top
  before : ∀ x, modes.Own x → x < disk.bootDrive
  data : ModeData modes fun x => byteAt (stage2Of asm kernel) (x - 0x8000)
  behind : 0x10000 + kernel.length ≤ entry.bssStart

/-- The constants that stage 2 is assembled with. -/
def Setup.build (b : Setup) : Build := ⟨b.kernel.length, sectorsOf b.kernel.length, rfl, b.word⟩

def Setup.image (b : Setup) : Disk := diskOf (buildImage b.asm b.kernel).image

/-- The firmware and the drive, and what the registers hold that the code does not set; the
direction flag is in `control`. -/
structure Power where
  bios : Bios
  refused : Bool
  refuses : Nat → Bool
  dl : BitVec 8
  real : RealMode
  control : Control
  eax : Nat
  ecx : Nat
  edi : Nat
  rest : LongRegs

/-- From the firmware's read of the boot sector to `kernel_main`, with the addresses behind four calls. -/
def boot (b : Setup) (p : Power) (ret16 ret ret64 retMain fuel : Nat) : Option (Control × LongRegs) := do
  let m ← firmware b.image p.real.mem
  let m ← stage1 (stage2Sectors b.asm b.kernel) b.sector b.image p.dl p.refused m
  let m ← stage2Real b.build (BitVec.ofNat 32 (1 + stage2Sectors b.asm b.kernel)) b.disk p.bios b.image
    p.refuses fuel p.dl { p.real with mem := m }
  let e ← enterLongMode b.modes p.eax p.ecx p.edi ret16 ret ret64 { p.control with mem := m }
  let s := start b.entry retMain { p.rest with rdi := e.rdi, rsp := e.rsp, df := e.control.df, mem := e.control.mem }
  some ({ e.control with df := s.df, mem := s.mem }, s)

section

variable {s : LongRegs} {n : Nat}

theorem repStosb_spec (up : s.df = false) (room : s.rdi + n < 2 ^ 64) :
    (repStosb n s).mem = fill s.mem s.rdi n (BitVec.ofNat 8 s.rax) ∧ (repStosb n s).r12 = s.r12 ∧
      (repStosb n s).rsp = s.rsp ∧ (repStosb n s).df = false := by
  induction n generalizing s with
  | zero =>
    refine ⟨?_, rfl, rfl, up⟩
    funext x
    exact (fill_out (by omega)).symm
  | succ n ih =>
    obtain ⟨s', step⟩ : ∃ s', s' = { s with
      mem := storeByte s.mem s.rdi (BitVec.ofNat 8 s.rax)
      rdi := if s.df then sub64 s.rdi 1 else u64 (s.rdi + 1) } := ⟨_, rfl⟩
    have rdi : s'.rdi = s.rdi + 1 := by
      rw [step]
      show (if s.df then sub64 s.rdi 1 else u64 (s.rdi + 1)) = s.rdi + 1
      rw [up, if_neg Bool.false_ne_true, u64_of_lt (by omega)]
    have kept : s'.df = false ∧ s'.rax = s.rax ∧ s'.r12 = s.r12 ∧ s'.rsp = s.rsp ∧
        s'.mem = storeByte s.mem s.rdi (BitVec.ofNat 8 s.rax) := by
      rw [step]
      exact ⟨up, rfl, rfl, rfl, rfl⟩
    obtain ⟨df, rax, r12, rsp, mem⟩ := kept
    obtain ⟨filled, r12', rsp', df'⟩ := @ih s' df (by omega)
    rw [repStosb, ← step]
    refine ⟨?_, r12'.trans r12, rsp'.trans rsp, df'⟩
    rw [filled, rdi, rax, mem]
    funext x
    unfold fill storeByte
    split
    · rw [if_pos (by omega)]
    · split
      · rw [if_pos (by omega)]
      · rw [if_neg (by omega)]

theorem startCall_eq (ret : Nat) {a : Nat} (down : sub64 s.rsp 8 = a) :
    startCall ret s = ⟨s.rax, s.rcx, s.r12, s.r12, a, s.df, storeLE s.mem a 8 ret⟩ := by
  subst down
  rfl

/-- **`_start`** clears `.bss`, and nothing else but the return address is written. -/
theorem start_spec (l : EntryLabels) (ret : Nat) (stack : 8 ≤ s.rsp ∧ s.rsp < 2 ^ 64)
    (apart : l.bssEnd ≤ s.rsp - 8) : ∃ rax rcx m, start l ret s = ⟨rax, rcx, s.rdi, s.rdi, s.rsp - 8, false, m⟩ ∧
      (∀ x, l.bssStart ≤ x → x < l.bssEnd → m x = 0) ∧
      SameOutside (fun x => (l.bssStart ≤ x ∧ x < l.bssEnd) ∨ s.rsp - 8 ≤ x ∧ x < s.rsp) s.mem m := by
  have order := l.order
  have upper := l.upper
  have fields : (startClear l s).df = false ∧ (startClear l s).r12 = s.rdi ∧ (startClear l s).rdi = l.bssStart ∧
      (startClear l s).rax = 0 ∧ (startClear l s).rsp = s.rsp ∧ (startClear l s).mem = s.mem ∧
      (startClear l s).rcx = l.bssEnd - l.bssStart := ⟨rfl, rfl, rfl, rfl, rfl, rfl, sub64_of_le order upper⟩
  unfold start
  generalize startClear l s = s₁ at *
  obtain ⟨df, r12, rdi, rax, rsp, mem, rcx⟩ := fields
  obtain ⟨filled, kept, rsp', df'⟩ := @repStosb_spec s₁ s₁.rcx df (by omega)
  dsimp only
  generalize repStosb s₁.rcx s₁ = s₂ at *
  have down : sub64 s₂.rsp 8 = s.rsp - 8 := by
    rw [rsp'.trans rsp, sub64_of_le stack.1 stack.2]
  rw [startCall_eq ret down, filled, kept, r12, df', mem, rdi, rax, rcx]
  refine ⟨_, _, _, rfl, ?_, ?_⟩
  · intro x lo hi
    rw [storeLE_out (by omega), fill_in (by omega)]
    rfl
  · intro x out
    rw [storeLE_out (by omega), fill_out (by omega)]

/-! ## Stage 2 -/

variable {b : Setup} {bios : Bios} {refuses : Nat → Bool} {fuel : Nat} {r : RealMode} {m : Mem}

/-- Stage 2 as it was assembled. -/
def Setup.Stage2 (b : Setup) (m : Mem) : Prop :=
  ∀ i, i < (stage2Of b.asm b.kernel).length → m (0x8000 + i) = byteAt (stage2Of b.asm b.kernel) i

/-- The kernel as it is in its file. -/
def Setup.Kernel (b : Setup) (m : Mem) : Prop := ∀ i, i < b.kernel.length → m (0x10000 + i) = byteAt b.kernel i

/-- A read that stage 2 asks for is refused. -/
def Setup.Refused (b : Setup) (refuses : Nat → Bool) : Prop :=
  ∃ j, 127 * j < sectorsOf b.kernel.length ∧ refuses j = true

/-- The sector that stage 2 is assembled with fits its operand. -/
theorem Setup.start_toNat (b : Setup) :
    (BitVec.ofNat 32 (1 + stage2Sectors b.asm b.kernel)).toNat = 1 + stage2Sectors b.asm b.kernel := by
  have top := b.top
  have reach := b.disk.reach
  have place := b.disk.places
  have small : stage2Sectors b.asm b.kernel < 2 ^ 16 := by
    unfold stage2Sectors sectorsOf
    rw [sectorSize_eq]
    omega
  rw [BitVec.toNat_ofNat]
  omega

/-- The sectors that are loaded hold the kernel. -/
theorem Setup.loaded (b : Setup) {v : DiskLabels} {m₀ : Mem} (image :
      ImageIs (BitVec.ofNat 32 (1 + stage2Sectors b.asm b.kernel)) v b.image (sectorsOf b.kernel.length) m₀ m) :
    b.Kernel m := by
  have fits := le_sectorsOf b.kernel.length
  rw [sectorSize_eq] at fits
  intro i hi
  rw [image.bytes i (by omega), b.start_toNat]
  exact (diskOf_run _ _ i).trans ((buildImage_layout b.asm b.kernel).kernel i hi)

/-- The map is still there after the reads. -/
theorem map_still {v : DiskLabels} {es : List MemoryMapEntry} {n : Nat} {m m' : Mem} (map : MapIs v.toLabels es m)
    (outside : SameOutside (fun x => (v.kernelSectorsLeft ≤ x ∧ x < v.top) ∨ 0x10000 ≤ x ∧ x < 0x10000 + n) m m')
    (short : es.length ≤ 64) : MapIs v.toLabels es m' := by
  have far := v.lower
  have place := v.places
  have reach := v.reach
  constructor
  · rw [outside.loadLE_eq fun x lo hi => by omega]
    exact map.count
  · rw [readMap_congr fun x lo hi => outside x (by omega)]
    exact map.entries

theorem stage2Real_spec (small : sectorsOf b.kernel.length ≤ 2032)
    (enough : 64 < fuel ∧ sectorsOf b.kernel.length < fuel) (dl : BitVec 8) (stage2 : b.Stage2 r.mem) :
    (b.Refused refuses →
      stage2Real b.build (BitVec.ofNat 32 (1 + stage2Sectors b.asm b.kernel)) b.disk bios b.image
        refuses fuel dl r = none) ∧
    (¬ b.Refused refuses → ∃ m,
      stage2Real b.build (BitVec.ofNat 32 (1 + stage2Sectors b.asm b.kernel)) b.disk bios b.image
        refuses fuel dl r = some m ∧ HandedOver b.build (reported bios 64 0) m ∧ ModeData b.modes m ∧ b.Kernel m) := by
  obtain ⟨s, collect, map, out₁⟩ := collectE820Map_spec bios b.disk.toLabels
    { r with mem := storeByte r.mem b.disk.bootDrive dl } enough.1
  obtain ⟨out, load, ends⟩ := @loadKernel_ends b.build
    (BitVec.ofNat 32 (1 + stage2Sectors b.asm b.kernel)) b.disk b.image refuses s.mem fuel enough.2
  unfold stage2Real
  rw [collect]
  simp only [Option.bind_eq_bind, Option.bind_some, load]
  cases ends with
  | loadError j _ more refused safe => exact ⟨fun _ => rfl, fun granted => absurd ⟨j, more, refused⟩ granted⟩
  | overwritten j _ more hits granted => exact absurd hits (chunk_safe small more)
  | returned j m head last granted =>
    refine ⟨fun ⟨j, more, refused⟩ => ?_, fun _ => ⟨_, rfl, ?_, ?_, ?_⟩⟩
    · exact absurd ((granted j (Nat.zero_le j) more).symm.trans refused) Bool.false_ne_true
    · exact fillBootInfo_handed_over b.build (map_still map (head.placed small last).image.outside
        (reported_length_le bios 64 0)) (reported_length_le bios 64 0)
    · apply b.data.congr
      intro x own
      have inside := ModeLabels.own_inside own
      have before := b.before x own
      have top := b.top
      have place := b.disk.places
      have drive : b.disk.bootDrive = b.disk.memoryMapCount - 1 := rfl
      unfold MapArea CountBytes at out₁
      rw [fillBootInfo_outside _ _ _ x (by omega), (head.placed small last).image.outside x (by omega),
        out₁ x (by omega)]
      dsimp only
      rw [storeByte_out (by omega), ← stage2 (x - 0x8000) (by omega), Nat.add_sub_of_le inside.1]
    · intro i hi
      rw [fillBootInfo_outside _ _ _ _ (by omega)]
      exact b.loaded (head.placed small last).image i hi

/-! ## At `kernel_main` -/

/-- **What `kernel_main` finds.** -/
structure AtKernelMain (b : Setup) (bios : Bios) (c : Control) (s : LongRegs) : Prop where
  kernel : b.Kernel s.mem
  bss : ∀ x, b.entry.bssStart ≤ x → x < b.entry.bssEnd → s.mem x = 0
  info : HandedOver b.build (reported bios 64 0) s.mem
  registers : s.rdi = 0x5000 ∧ s.rsp = 0x8FFF0 ∧ s.df = false
  bits : c.bits = 64
  quiet : c.interrupts = false
  identity : ∀ a, a < 2 ^ 30 → c.reaches a = true

/-- `_start` after the switch to long mode. -/
theorem start_after_switch {c : Control} {e : Entered} {ret : Nat} (room : b.entry.bssEnd ≤ 0x8FFF0)
    (long : InLongMode b.modes c e) (la57 : c.la57 = false) (info : HandedOver b.build (reported bios 64 0) c.mem)
    (kernel : b.Kernel c.mem) (rest : LongRegs) :
    AtKernelMain b bios
      { e.control with
        df := (start b.entry ret { rest with rdi := e.rdi, rsp := e.rsp, df := e.control.df, mem := e.control.mem }).df
        mem := (start b.entry ret { rest with rdi := e.rdi, rsp := e.rsp, df := e.control.df, mem := e.control.mem }).mem }
      (start b.entry ret { rest with rdi := e.rdi, rsp := e.rsp, df := e.control.df, mem := e.control.mem }) := by
  have behind := b.behind
  have order := b.entry.order
  have lower := b.entry.lower
  obtain ⟨rdi, rsp, -⟩ := long.registers
  have spec := @start_spec
    { rest with rdi := e.rdi, rsp := e.rsp, df := e.control.df, mem := e.control.mem } b.entry ret
  dsimp only at spec
  rw [rdi, rsp] at spec ⊢
  obtain ⟨rax, rcx, m, run, cleared, outside⟩ := spec (by omega) (by omega)
  have switched := long.memory
  have same : ∀ x, x < b.entry.bssStart → ¬ TableBytes x → (x < 0x7E00 ∨ 0x10000 ≤ x) → m x = c.mem x := by
    intro x below other place
    have kept : e.control.mem x = c.mem x := by
      refine switched x ?_
      have code := b.modes.inside b.modes.gdtStart (by simp)
      have code64 := b.modes.inside b.modes.gdt64Start (by simp)
      unfold ModeLabels.Accessed
      simp only [not_or]
      exact ⟨other, by omega⟩
    rw [outside x (by omega), kept]
  rw [run]
  refine ⟨?_, cleared, ?_, ⟨rfl, rfl, rfl⟩, ?_, long.quiet, ?_⟩
  · intro i hi
    refine (same _ (by omega) ?_ (by omega)).trans (kernel i hi)
    unfold TableBytes
    omega
  · apply info.congr
    intro x area
    unfold BootArea at area
    refine same x (by omega) ?_ (by omega)
    unfold TableBytes
    omega
  · exact long.bits
  · intro a low
    obtain ⟨lma, four⟩ := long.flags la57
    refine reaches_low lma four long.cr3 (long.tables.congr fun x inside => outside x ?_) low
    unfold TableBytes at inside
    omega

end

/-- **From the image to `kernel_main`.** Let `.bss` end below the stack and the direction flag be
clear. Whatever memory, the registers and the firmware's memory map hold, the kernel is not reached
if and only if the firmware refuses a read that is asked for. Otherwise `kernel_main` starts in
64-bit mode with interrupts off and the first GiB mapped to itself: the bytes of the kernel's file
are in place, `.bss` is zero, and the structure that `rdi` points to has the entries that the
firmware reported. -/
theorem boot_reaches_kernel (b : Setup) (room : b.entry.bssEnd ≤ 0x8FFF0) (p : Power) (real : InRealMode p.control)
    (up : p.control.df = false) (ret16 ret ret64 retMain : Nat) {fuel : Nat}
    (enough : 64 < fuel ∧ sectorsOf b.kernel.length < fuel) :
    (boot b p ret16 ret ret64 retMain fuel = none ↔ p.refused = true ∨ b.Refused p.refuses) ∧
      ∀ c s, boot b p ret16 ret ret64 retMain fuel = some (c, s) → AtKernelMain b p.bios c s := by
  have reach := b.disk.reach
  have place := b.disk.places
  have top := b.top
  have behind := b.behind
  have order := b.entry.order
  have small : sectorsOf b.kernel.length ≤ 2032 := by
    unfold sectorsOf
    rw [sectorSize_eq]
    omega
  obtain ⟨m₁, m₂, sector, -, stage1Run, stage2⟩ := stage2_loaded b.asm b.kernel b.sector p.dl (by omega) p.real.mem
  obtain ⟨refused, granted⟩ := @stage2Real_spec b p.bios p.refuses fuel
      { p.real with mem := m₂ } small enough p.dl stage2
  unfold Setup.image at refused granted
  unfold boot Setup.image
  rw [sector]
  simp only [Option.bind_eq_bind, Option.bind_some]
  cases answer : p.refused with
  | true =>
    rw [stage1_refused]
    exact ⟨iff_of_true rfl (.inl rfl), nofun⟩
  | false =>
    rw [stage1Run]
    simp only [Option.bind_some]
    by_cases fails : b.Refused p.refuses
    · rw [refused fails]
      exact ⟨iff_of_true rfl (.inr fails), nofun⟩
    · obtain ⟨m, run, info, data, kernel⟩ := granted fails
      have real' : InRealMode { p.control with mem := m } :=
        ⟨real.pe, real.pg, real.cache, real.lma, real.la57, real.cs⟩
      obtain ⟨e, switch, long⟩ := enterLongMode_spec real' data up p.eax p.ecx p.edi ret16 ret ret64
      rw [run]
      simp only [Option.bind_some, switch]
      refine ⟨iff_of_false nofun ?_, ?_⟩
      · rintro (early | late)
        · cases early
        · exact fails late
      · rintro c s ends
        cases ends
        exact start_after_switch room long real.la57 info kernel p.rest

/-- The bytes of a memory from `a` on. -/
def bytesFrom (m : Mem) (a n : Nat) : Bytes := (List.range n).map fun i => m (a + i)

theorem byteAt_bytesFrom {m : Mem} {a n i : Nat} (inside : i < n) : byteAt (bytesFrom m a n) i = m (a + i) := by
  unfold byteAt bytesFrom
  rw [List.getElem?_map, List.getElem?_range inside]
  rfl

/-- A stage 2 with its tables and the operand of `load_kernel`. -/
def exampleCode (lba : Nat) : Bytes := bytesFrom (storeLE (withTables fun _ => 0) 0x8090 4 lba) 0x8000 0x200

theorem exampleCode_length (lba : Nat) : (exampleCode lba).length = 0x200 := by
  unfold exampleCode bytesFrom
  rw [List.length_map, List.length_range]

/-- Stages of one sector each. -/
def exampleAssembler : Assembler where
  stage1 _ := List.replicate 510 0 ++ [0x55, 0xAA]
  stage2 lba _ _ := exampleCode lba
  stage1Size _ := by
    rw [List.length_append, List.length_replicate]
    rfl
  signature _ := by
    rw [byteAt_append, byteAt_append, List.length_replicate]
    exact ⟨rfl, rfl⟩
  stage2Size _ _ _ _ := by
    rw [exampleCode_length, exampleCode_length]

/-- A kernel of two sectors. -/
def exampleKernel : Bytes := List.replicate 600 0x90

theorem exampleKernel_length : exampleKernel.length = 600 := List.length_replicate

theorem exampleStage2 (kernel : Bytes) : ∃ lba, stage2Of exampleAssembler kernel = exampleCode lba := by
  refine ⟨1 + stage2Sectors exampleAssembler kernel, (stage2Of_eq _ _).trans ?_⟩
  simp only [exampleAssembler]

def exampleSetup : Setup where
  asm := exampleAssembler
  kernel := exampleKernel
  sector := ⟨0x7C80, 0x7C90, by decide, by decide, by decide⟩
  disk := ⟨⟨0x81E2, by decide, by decide⟩, by decide⟩
  modes := exampleModes
  entry := ⟨0x11000, 0x12000, by decide, by decide, by decide⟩
  word := by
    rw [exampleKernel_length]
    decide
  top := by
    obtain ⟨lba, code⟩ := exampleStage2 exampleKernel
    rw [code, exampleCode_length]
    rfl
  before := by
    intro x own
    unfold ModeLabels.Own at own
    simp only [exampleModes] at own
    show x < 0x81E2 - 1
    omega
  data := by
    apply (withTables_data fun _ => 0).congr
    intro x own
    unfold ModeLabels.Own at own
    simp only [exampleModes] at own
    obtain ⟨lba, code⟩ := exampleStage2 exampleKernel
    unfold exampleCode at code
    rw [code, byteAt_bytesFrom (by omega), Nat.add_sub_of_le (by omega), storeLE_out (by omega)]
  behind := by
    rw [exampleKernel_length]
    show 0x10000 + 600 ≤ 0x11000
    omega

def examplePower : Power where
  bios := lowMemoryBios
  refused := false
  refuses _ := false
  dl := 0x80
  real := ⟨0, 0, 0, 0, 0, false, fun _ => 0xCC⟩
  control := afterReset fun _ => 0
  eax := 0
  ecx := 0
  edi := 0
  rest := ⟨0, 0, 0, 0, 0, false, fun _ => 0⟩

theorem boot_reaches_kernel_low_memory : ∃ c s,
    boot exampleSetup examplePower 0x80E0 0x8160 0x81D0 0x10020 65 = some (c, s) ∧
      s.mem 0x10257 = 0x90 ∧ HandedOver exampleSetup.build [⟨0, 0x9FC00, 1, 1⟩] s.mem := by
  have size : exampleSetup.kernel.length = 600 := exampleKernel_length
  obtain ⟨stops, arrives⟩ := @boot_reaches_kernel exampleSetup (by decide) examplePower
    (afterReset_real _) rfl 0x80E0 0x8160 0x81D0 0x10020 65 ⟨by decide, by rw [size]; decide⟩
  have runs : boot exampleSetup examplePower 0x80E0 0x8160 0x81D0 0x10020 65 ≠ none := by
    intro none'
    rcases stops.1 none' with refused | ⟨j, -, refused⟩
    · exact Bool.false_ne_true refused
    · exact Bool.false_ne_true refused
  obtain ⟨⟨c, s⟩, run⟩ := Option.ne_none_iff_exists'.1 runs
  have there := arrives c s run
  refine ⟨c, s, run, ?_, there.info⟩
  have last := there.kernel 599 (by rw [size]; decide)
  have byte : byteAt exampleKernel 599 = 0x90 := by
    unfold byteAt exampleKernel
    rw [List.getElem?_replicate, if_pos (by decide)]
    rfl
  exact last.trans byte

end SimpleKernel.Boot
