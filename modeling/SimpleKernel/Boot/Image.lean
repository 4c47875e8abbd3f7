import SimpleKernel.Boot.Load

/-!
# `build_image.sh` and `boot_stage1.asm`

The image is a boot sector, stage 2 and the kernel, each on sectors of its own. The script assembles stage 2
twice: the first time only for its size, the second time with the sector that the kernel will be on. The
firmware loads the boot sector, which loads stage 2. The assembler is a parameter.
-/

namespace SimpleKernel.Boot
set_option autoImplicit false
open Lib

abbrev Bytes := List (BitVec 8)

/-- The byte `i` of a file, and `0` behind its end. -/
def byteAt (file : Bytes) (i : Nat) : BitVec 8 := (file[i]?).getD 0

def sectorSize : Nat := 512
def floppySectors : Nat := 2880

theorem sectorSize_eq : sectorSize = 512 := rfl

def sectorsOf (size : Nat) : Nat := (size + sectorSize - 1) / sectorSize

/-! ## The script -/

/-- What `nasm -f bin` makes of the two stages, by the constants of the command line. The boot
sector is padded up to its signature; `KERNEL_START_LBA` is an immediate operand of four bytes. -/
structure Assembler where
  stage1 : (stage2Sectors : Nat) → Bytes
  stage2 : (kernelStartLba kernelSectors kernelSizeBytes : Nat) → Bytes
  stage1Size : ∀ n, (stage1 n).length = sectorSize
  signature : ∀ n, byteAt (stage1 n) 510 = 0x55 ∧ byteAt (stage1 n) 511 = 0xAA
  stage2Size : ∀ lba lba' sectors bytes, (stage2 lba sectors bytes).length = (stage2 lba' sectors bytes).length

/-- `dd` with `seek` and `conv=notrunc`. -/
def dd (image : Bytes) (seek : Nat) (data : Bytes) : Bytes :=
  let image := image ++ List.replicate (seek * sectorSize - image.length) 0
  image.take (seek * sectorSize) ++ data ++ image.drop (seek * sectorSize + data.length)

/-- What the script leaves: `boot1_out`, `boot2_out` and `image`. -/
structure Built where
  boot1 : Bytes
  boot2 : Bytes
  image : Bytes

def buildImage (asm : Assembler) (kernel : Bytes) : Built :=
  let kernelSize := kernel.length
  let kernelSectors := sectorsOf kernelSize
  let stage2Tmp := asm.stage2 0 kernelSectors kernelSize
  let stage2Sectors := sectorsOf stage2Tmp.length
  let boot2 := asm.stage2 (1 + stage2Sectors) kernelSectors kernelSize
  let stage2Sectors := sectorsOf boot2.length
  let boot1 := asm.stage1 stage2Sectors
  let image := List.replicate (sectorSize * floppySectors) 0
  let image := dd image 0 (boot1.take sectorSize)
  let image := dd image 1 boot2
  let image := dd image (1 + stage2Sectors) kernel
  ⟨boot1, boot2, image⟩

/-- The image as a disk. -/
def diskOf (image : Bytes) : Disk := fun lba i => byteAt image (lba * sectorSize + i)

/-! ## The boot sector -/

/-- The variables of `boot_stage1.asm` that it writes. -/
structure Stage1Labels where
  bootDrive : Nat
  dap : Nat
  driveLower : 0x7C00 ≤ bootDrive
  driveUpper : bootDrive + 1 ≤ dap
  dapUpper : dap + 16 ≤ 0x7C00 + 510

/-- The firmware's read of the boot sector. -/
def bootSector : DiskRead := ⟨1, 0x7C00, 0, 0⟩

/-- The firmware starts the boot sector, if it is one. -/
def firmware (disk : Disk) (m : Mem) : Option Mem :=
  if disk 0 510 = 0x55 ∧ disk 0 511 = 0xAA then some (transfer disk bootSector m) else none

def readDap (v : Stage1Labels) (m : Mem) : DiskRead where
  count := loadLE m (v.dap + 2) 2
  offset := loadLE m (v.dap + 4) 2
  segment := loadLE m (v.dap + 6) 2
  lba := loadLE m (v.dap + 8) 4 + 2 ^ 32 * loadLE m (v.dap + 12) 4

/-- `boot_stage1.asm` up to its jump; `none` where it halts in `disk_error`. -/
def stage1 (stage2Sectors : Nat) (v : Stage1Labels) (disk : Disk) (dl : BitVec 8) (refused : Bool)
    (m : Mem) : Option Mem :=
  let m := storeByte m v.bootDrive dl
  let m := storeLE m (v.dap + 2) 2 stage2Sectors
  let m := storeLE m (v.dap + 4) 2 0x0000
  let m := storeLE m (v.dap + 6) 2 0x0800
  let m := storeDword m (v.dap + 8) 1
  let m := storeDword m (v.dap + 12) 0
  if refused then none else some (transfer disk (readDap v m) m)

section

variable {asm : Assembler} {kernel image : Bytes} {disk : Disk} {m : Mem} {i : Nat}

theorem byteAt_append {a b : Bytes} : byteAt (a ++ b) i =
    if i < a.length then byteAt a i else byteAt b (i - a.length) := by
  unfold byteAt
  rw [List.getElem?_append]
  split <;> rfl

theorem byteAt_behind (behind : image.length ≤ i) : byteAt image i = 0 := by
  unfold byteAt
  rw [List.getElem?_eq_none behind]
  rfl

theorem byteAt_drop (n i : Nat) : byteAt (image.drop n) i = byteAt image (n + i) := by
  unfold byteAt
  rw [List.getElem?_drop]

theorem byteAt_take {n : Nat} (inside : i < n) : byteAt (image.take n) i = byteAt image i := by
  unfold byteAt
  rw [List.getElem?_take_of_lt inside]

/-- Zeros behind the end are what is read there anyway. -/
theorem byteAt_padded (image : Bytes) (n i : Nat) : byteAt (image ++ List.replicate n 0) i = byteAt image i := by
  rw [byteAt_append]
  by_cases inside : i < image.length
  · rw [if_pos inside]
  · rw [if_neg inside, byteAt_behind (Nat.not_lt.1 inside)]
    unfold byteAt
    rw [List.getElem?_replicate]
    split <;> rfl

/-- **What `dd` writes**, and nothing else. -/
theorem byteAt_dd (image : Bytes) (seek : Nat) (data : Bytes) (i : Nat) : byteAt (dd image seek data) i =
    if seek * sectorSize ≤ i ∧ i < seek * sectorSize + data.length then byteAt data (i - seek * sectorSize)
    else byteAt image i := by
  unfold dd
  generalize seek * sectorSize = start
  dsimp only
  have padded := byteAt_padded image (start - image.length) i
  have long : start ≤ (image ++ List.replicate (start - image.length) 0).length := by
    rw [List.length_append, List.length_replicate]
    omega
  generalize image ++ List.replicate (start - image.length) 0 = whole at *
  have before : (whole.take start).length = start := List.length_take_of_le long
  rw [byteAt_append, byteAt_append, List.length_append, before, byteAt_drop, ← padded]
  by_cases inside : start ≤ i ∧ i < start + data.length
  · rw [if_pos inside, if_pos inside.2, if_neg (by omega)]
  · rw [if_neg inside]
    by_cases low : i < start
    · rw [if_pos (by omega), if_pos low, byteAt_take low]
    · rw [if_neg (by omega), Nat.add_sub_of_le (by omega)]

/-! ## The layout -/

/-- Stage 2 as it is on the disk. -/
def stage2Of (asm : Assembler) (kernel : Bytes) : Bytes := (buildImage asm kernel).boot2

def stage2Sectors (asm : Assembler) (kernel : Bytes) : Nat := sectorsOf (stage2Of asm kernel).length

/-- **Both runs of the assembler agree on the sector of the kernel.** -/
theorem stage2Of_eq (asm : Assembler) (kernel : Bytes) :
    stage2Of asm kernel = asm.stage2 (1 + stage2Sectors asm kernel) (sectorsOf kernel.length) kernel.length := by
  have same : sectorsOf (asm.stage2 0 (sectorsOf kernel.length) kernel.length).length = stage2Sectors asm kernel :=
    congrArg sectorsOf (asm.stage2Size _ _ _ _)
  rw [← same]
  rfl

/-- Sectors that hold a file. -/
theorem le_sectorsOf (size : Nat) : size ≤ sectorsOf size * sectorSize := by
  unfold sectorsOf
  rw [sectorSize_eq]
  omega

/-- **The layout of the image**: the three files lie behind one another on whole sectors. -/
structure Layout (asm : Assembler) (kernel image : Bytes) : Prop where
  stage1 : ∀ i, i < sectorSize → byteAt image i = byteAt (asm.stage1 (stage2Sectors asm kernel)) i
  stage2 : ∀ i, i < (stage2Of asm kernel).length → byteAt image (1 * sectorSize + i) = byteAt (stage2Of asm kernel) i
  kernel : ∀ i, i < kernel.length →
    byteAt image ((1 + stage2Sectors asm kernel) * sectorSize + i) = byteAt kernel i

theorem buildImage_layout (asm : Assembler) (kernel : Bytes) : Layout asm kernel (buildImage asm kernel).image := by
  obtain ⟨boot2, named⟩ : ∃ boot2, boot2 = stage2Of asm kernel := ⟨_, rfl⟩
  obtain ⟨sectors, count⟩ : ∃ sectors, sectors = stage2Sectors asm kernel := ⟨_, rfl⟩
  have image : (buildImage asm kernel).image = dd (dd (dd (List.replicate (sectorSize * floppySectors) 0) 0
      ((asm.stage1 sectors).take sectorSize)) 1 boot2) (1 + sectors) kernel := by
    rw [named, count]
    rfl
  have size : ((asm.stage1 sectors).take sectorSize).length = sectorSize := by
    rw [List.length_take_of_le (Nat.le_of_eq (asm.stage1Size sectors).symm)]
  have fits : boot2.length ≤ sectors * sectorSize := by
    rw [count, named]
    exact le_sectorsOf _
  rw [sectorSize_eq] at size fits
  constructor
  · intro i hi
    rw [← count, image, byteAt_dd, byteAt_dd, byteAt_dd, if_neg (by rw [sectorSize_eq] at *; omega),
      if_neg (by rw [sectorSize_eq] at *; omega), if_pos (by rw [sectorSize_eq] at *; omega), byteAt_take (by omega),
      Nat.zero_mul, Nat.sub_zero]
  · intro i hi
    rw [← named] at hi ⊢
    rw [image, byteAt_dd, byteAt_dd, if_neg (by rw [sectorSize_eq] at *; omega),
      if_pos (by rw [sectorSize_eq] at *; omega), Nat.add_sub_cancel_left]
  · intro i hi
    rw [← count, image, byteAt_dd, if_pos (by omega), Nat.add_sub_cancel_left]

/-! ## The boot sector loads stage 2 -/

theorem diskOf_run (image : Bytes) (start i : Nat) :
    diskOf image (start + i / 512) (i % 512) = byteAt image (start * sectorSize + i) := by
  unfold diskOf
  rw [sectorSize_eq, show (start + i / 512) * 512 + i % 512 = start * 512 + i from by omega]

theorem readDap_stage1 {v : Stage1Labels} {n : Nat} (small : n < 2 ^ 16) (m : Mem) :
    readDap v (storeDword (storeDword (storeLE (storeLE (storeLE m (v.dap + 2) 2 n) (v.dap + 4) 2 0x0000)
      (v.dap + 6) 2 0x0800) (v.dap + 8) 1) (v.dap + 12) 0) = ⟨n, 0, 0x0800, 1⟩ := by
  unfold readDap storeDword
  simp (disch := omega) only [loadLE_storeLE_apart, loadLE_storeLE_same]
  rw [Nat.mod_eq_of_lt (show n < 256 ^ 2 from small)]
  rfl

/-- A read that fails ends in `disk_error`. -/
theorem stage1_refused (n : Nat) (v : Stage1Labels) (disk : Disk) (dl : BitVec 8) (m : Mem) :
    stage1 n v disk dl true m = none := by
  unfold stage1
  exact if_pos rfl

/-- **Stage 1** loads the sectors behind its own, and changes nothing else but its variables. -/
theorem stage1_spec (v : Stage1Labels) (disk : Disk) (dl : BitVec 8) {n : Nat} (small : n < 2 ^ 16) (m : Mem) :
    ∃ m', stage1 n v disk dl false m = some m' ∧
      (∀ i, i < 512 * n → m' (0x8000 + i) = disk (1 + i / 512) (i % 512)) ∧
      SameOutside (fun x => (v.bootDrive ≤ x ∧ x < v.dap + 16) ∨ 0x8000 ≤ x ∧ x < 0x8000 + 512 * n) m m' := by
  have upper := v.driveUpper
  unfold stage1
  dsimp only
  rw [if_neg Bool.false_ne_true, readDap_stage1 small]
  refine ⟨_, rfl, fun i hi => ?_, fun x out => ?_⟩
  · refine (if_pos ?_).trans ?_
    · unfold DiskRead.address
      dsimp only
      omega
    · unfold DiskRead.address
      dsimp only
      rw [show 0x8000 + i - (0x0800 * 16 + 0) = i from by omega]
  · rw [transfer_out (by unfold DiskRead.address; dsimp only; omega)]
    unfold storeDword
    simp (disch := omega) only [storeLE_out]
    exact storeByte_out (by omega)

/-- **From the image to stage 2.** The firmware accepts the boot sector of the image, and unless the read fails,
stage 1 puts stage 2 to `0x8000`, as it was assembled. -/
theorem stage2_loaded (asm : Assembler) (kernel : Bytes) (v : Stage1Labels) (dl : BitVec 8)
    (small : (stage2Of asm kernel).length ≤ 0x8000) (m : Mem) :
    ∃ m₁ m₂, firmware (diskOf (buildImage asm kernel).image) m = some m₁ ∧
      (∀ i, i < sectorSize → m₁ (0x7C00 + i) = byteAt (asm.stage1 (stage2Sectors asm kernel)) i) ∧
      stage1 (stage2Sectors asm kernel) v (diskOf (buildImage asm kernel).image) dl false m₁ = some m₂ ∧
      ∀ i, i < (stage2Of asm kernel).length → m₂ (0x8000 + i) = byteAt (stage2Of asm kernel) i := by
  have layout := buildImage_layout asm kernel
  generalize (buildImage asm kernel).image = image at *
  have fits := le_sectorsOf (stage2Of asm kernel).length
  have sectors : stage2Sectors asm kernel < 2 ^ 16 := by
    unfold stage2Sectors sectorsOf
    rw [sectorSize_eq]
    omega
  have first : ∀ i, i < sectorSize → diskOf image 0 i = byteAt (asm.stage1 (stage2Sectors asm kernel)) i := by
    intro i hi
    rw [← layout.stage1 i hi, diskOf, Nat.zero_mul, Nat.zero_add]
  have accepted : diskOf image 0 510 = 0x55 ∧ diskOf image 0 511 = 0xAA := by
    rw [first 510 (by decide), first 511 (by decide)]
    exact asm.signature _
  obtain ⟨m₂, run, loaded, -⟩ := stage1_spec v (diskOf image) dl sectors (transfer (diskOf image) bootSector m)
  refine ⟨_, m₂, if_pos accepted, fun i hi => ?_, run, fun i hi => ?_⟩
  · rw [← first i hi]
    rw [sectorSize_eq] at hi
    refine (if_pos ?_).trans ?_
    · unfold DiskRead.address bootSector
      dsimp only
      omega
    · unfold DiskRead.address bootSector
      dsimp only
      rw [show 0x7C00 + i - (0 * 16 + 0x7C00) = i from by omega, Nat.div_eq_of_lt hi, Nat.mod_eq_of_lt hi]
  · have inside : i < 512 * stage2Sectors asm kernel := by
      rw [sectorSize_eq] at fits
      unfold stage2Sectors
      omega
    rw [loaded i inside, diskOf_run]
    exact layout.stage2 i hi

end

end SimpleKernel.Boot
