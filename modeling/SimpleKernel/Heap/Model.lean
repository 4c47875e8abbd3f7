import SimpleKernel.Pmm.Model

/-!
# `heap.c`: the kernel heap

The heap lives in memory: a `heap_block_t` at `b` has its `size` in the eight bytes at
`b`, `next` in the eight at `b + 8` and `free` in the byte at `b + 16`; seven bytes of
padding follow. Pointers are addresses and wrap at 64 bits, the null pointer is `0`.
A walk over the list runs on fuel, one unit a block: there are fewer than `2 ^ 64`
addresses, so `none` is a walk that never ends.
-/

namespace SimpleKernel.Heap
set_option autoImplicit false
open Lib Kstring

def heapAlignment : Nat := 16
def heapPageSize : Nat := 4096
def heapMinSplit : Nat := 32
def sizeofHeapBlock : Nat := 24
def walkFuel : Nat := 2 ^ 64

theorem heapPageSize_eq : heapPageSize = 4096 := rfl
theorem heapMinSplit_eq : heapMinSplit = 32 := rfl
theorem sizeofHeapBlock_eq : sizeofHeapBlock = 24 := rfl
theorem walkFuel_eq : walkFuel = 2 ^ 64 := rfl

/-- Memory, the static variables of `heap.c` and the frame allocator. -/
structure Machine where
  mem : Mem
  heapHead : Nat
  totalBytes : Nat
  usedBytes : Nat
  pmm : Pmm.State

def blockSize (m : Mem) (b : Nat) : Nat := loadLE m b 8
def blockNext (m : Mem) (b : Nat) : Nat := loadLE m (b + 8) 8
def blockFree (m : Mem) (b : Nat) : Bool := m (b + 16) != 0

def setSize (m : Mem) (b v : Nat) : Mem := storeLE m b 8 v
def setNext (m : Mem) (b v : Nat) : Mem := storeLE m (b + 8) 8 v
def setFree (m : Mem) (b : Nat) (v : BitVec 8) : Mem := storeByte m (b + 16) v

def alignUp (value : Nat) : Nat := u64 (value + heapAlignment - 1) &&& not64 (heapAlignment - 1)

/-- The loop of `heap_append_block`: `prev` and `current` where it stops. -/
def findPlace (m : Mem) (target : Nat) : Nat → Nat → Nat → Option (Nat × Nat)
  | 0, _, _ => none
  | fuel + 1, prev, current =>
    if current ≠ 0 ∧ current < target then findPlace m target fuel current (blockNext m current)
    else some (prev, current)

def heapAppendBlock (s : Machine) (block : Nat) : Option Machine :=
  if s.heapHead = 0 then some { s with heapHead := block }
  else
    match findPlace s.mem block walkFuel 0 s.heapHead with
    | none => none
    | some (prev, current) =>
      let m := setNext s.mem block current
      if prev = 0 then some { s with mem := m, heapHead := block }
      else some { s with mem := setNext m prev block }

/-- The loop of `heap_coalesce`. -/
def coalesceLoop : Nat → Mem → Nat → Option Mem
  | 0, _, _ => none
  | fuel + 1, m, block =>
    if block ≠ 0 ∧ blockNext m block ≠ 0 then
      let next := blockNext m block
      let blockEnd := u64 (u64 (block + sizeofHeapBlock) + alignUp (blockSize m block))
      if blockFree m block ∧ blockFree m next ∧ blockEnd = next then
        let m := setSize m block (u64 (blockSize m block + (sizeofHeapBlock + blockSize m next)))
        let m := setNext m block (blockNext m next)
        coalesceLoop fuel m block
      else coalesceLoop fuel m next
    else some m

def heapCoalesce (s : Machine) : Option Machine :=
  (coalesceLoop walkFuel s.mem s.heapHead).map fun m => { s with mem := m }

/-- The frames that `heap_expand` asks for. -/
def expandPages (size : Nat) : Nat :=
  u64 (alignUp (u64 (size + sizeofHeapBlock)) + heapPageSize - 1) / heapPageSize

/-- The new block that `heap_expand` writes at the region. -/
def newBlock (m : Mem) (block pages : Nat) : Mem :=
  setFree (setNext (setSize m block (sub64 (u64 (pages * heapPageSize)) sizeofHeapBlock)) block 0) block 1

def heapExpand (s : Machine) (size : Nat) : Option (Nat × Machine) :=
  let pages := expandPages size
  let (region, pmm) := Pmm.pmmAllocFrames s.pmm pages
  if region = 0 then some (0, { s with pmm })
  else
    let m := newBlock s.mem region pages
    let s := { s with mem := m, totalBytes := u64 (s.totalBytes + blockSize m region), pmm }
    match heapAppendBlock s region with
    | none => none
    | some s => (heapCoalesce s).map fun s => (region, s)

def heapSplitBlock (m : Mem) (block size : Nat) : Mem :=
  let alignedSize := alignUp size
  if blockSize m block < u64 (u64 (alignedSize + sizeofHeapBlock) + heapMinSplit) then m
  else
    let next := u64 (u64 (block + sizeofHeapBlock) + alignedSize)
    let m := setSize m next (sub64 (sub64 (blockSize m block) alignedSize) sizeofHeapBlock)
    let m := setNext m next (blockNext m block)
    let m := setFree m next 1
    let m := setSize m block alignedSize
    setNext m block next

def heapInit (s : Machine) : Machine := { s with heapHead := 0, totalBytes := 0, usedBytes := 0 }

/-- The loop of `kmalloc`: the first free block that is large enough, `0` at the end. -/
def findFree (m : Mem) (size : Nat) : Nat → Nat → Option Nat
  | 0, _ => none
  | fuel + 1, block =>
    if block ≠ 0 then
      if blockFree m block ∧ blockSize m block ≥ size then some block else findFree m size fuel (blockNext m block)
    else some 0

/-- What `kmalloc` does with the block it has chosen. -/
def takeBlock (s : Machine) (block size : Nat) : Nat × Machine :=
  let m := setFree (heapSplitBlock s.mem block size) block 0
  (u64 (block + sizeofHeapBlock), { s with mem := m, usedBytes := u64 (s.usedBytes + blockSize m block) })

def kmalloc (s : Machine) (size : Nat) : Option (Nat × Machine) :=
  if size = 0 then some (0, s)
  else
    let size := alignUp size
    match findFree s.mem size walkFuel s.heapHead with
    | none => none
    | some block =>
      if block ≠ 0 then some (takeBlock s block size)
      else
        match heapExpand s size with
        | none => none
        | some (block, s) => if block = 0 then some (0, s) else some (takeBlock s block size)

def kcalloc (s : Machine) (count size : Nat) : Option (Nat × Machine) :=
  if count = 0 ∨ size = 0 then some (0, s)
  else
    let total := u64 (count * size)
    match kmalloc s total with
    | none => none
    | some (ptr, s) => some (ptr, if ptr ≠ 0 then { s with mem := kmemset s.mem ptr 0 total } else s)

def kfree (s : Machine) (ptr : Nat) : Option Machine :=
  if ptr = 0 then some s
  else
    let block := sub64 ptr sizeofHeapBlock
    if blockFree s.mem block = false then
      heapCoalesce { s with mem := setFree s.mem block 1, usedBytes := sub64 s.usedBytes (blockSize s.mem block) }
    else some s

def heapFreeBytes (s : Machine) : Nat := sub64 s.totalBytes s.usedBytes

theorem alignUp_eq (value : Nat) : alignUp value = u64 (value + 15) / 16 * 16 := by
  have mask := land_not64_mask (n := u64 (value + 15)) (k := 4) (by decide)
  rwa [u64_of_lt (u64_lt _)] at mask

theorem alignUp_of_lt {value : Nat} (h : value + 15 < 2 ^ 64) : alignUp value = (value + 15) / 16 * 16 := by
  rw [alignUp_eq, u64_of_lt h]

theorem alignUp_mod (value : Nat) : alignUp value % 16 = 0 := by
  rw [alignUp_eq]
  omega

theorem alignUp_lt (value : Nat) : alignUp value < 2 ^ 64 := by
  have := u64_lt (value + 15)
  rw [alignUp_eq]
  omega

/-- Rounding twice is rounding once. -/
theorem alignUp_alignUp (value : Nat) : alignUp (alignUp value) = alignUp value := by
  have := alignUp_mod value
  have := alignUp_lt value
  rw [alignUp_of_lt (by omega)]
  omega

end SimpleKernel.Heap
