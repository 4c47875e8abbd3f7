import SimpleKernel.Lib.Word
import SimpleKernel.Kstring

/-!
# `pmm.c`: the physical frame allocator

`State` holds the static variables. `frame_limit` is initialised to `PMM_MAX_FRAMES` and
never written, so it is a constant here. A `u64` is a natural reduced by `u64` wherever
the C expression can wrap. A pointer is its address and the null pointer is `0`.
-/

namespace SimpleKernel.Pmm
set_option autoImplicit false
open Lib Kstring

def pmmPageSize : Nat := 4096
def pmmMaxMemory : Nat := 2 ^ 30
def pmmMaxFrames : Nat := pmmMaxMemory / pmmPageSize
def frameLimit : Nat := pmmMaxFrames

theorem pmmPageSize_eq : pmmPageSize = 4096 := rfl
theorem pmmMaxMemory_eq : pmmMaxMemory = 1073741824 := rfl
theorem pmmMaxFrames_eq : pmmMaxFrames = 262144 := rfl
theorem frameLimit_eq : frameLimit = 262144 := rfl

/-- `memory_map_entry_t`, the fields the allocator reads. -/
structure MemoryMapEntry where
  base : Nat
  length : Nat
  type : Nat
  deriving DecidableEq, Repr

/-- `boot_info_t`, the fields the allocator reads. -/
structure BootInfo where
  memoryMapEntries : Nat
  memoryMapAddr : Nat
  kernelPhysStart : Nat
  kernelPhysEnd : Nat
  deriving DecidableEq, Repr

/-- What `pmm_init` is given: the pointer `boot_info`, the structure it points to and
the array that `memory_map_addr` points to. -/
structure Boot where
  addr : Nat
  info : BootInfo
  entries : Nat → MemoryMapEntry

def sizeofBootInfo : Nat := 56
def sizeofMemoryMapEntry : Nat := 24

/-- The static variables of `pmm.c`. -/
structure State where
  frameBitmap : Mem
  totalFrames : Nat
  freeFrames : Nat

def bitMask (frame : Nat) : BitVec 8 := 1#8 <<< (frame % 8)

def bitSet (p : State) (frame : Nat) : State :=
  { p with frameBitmap := storeByte p.frameBitmap (frame / 8) (p.frameBitmap (frame / 8) ||| bitMask frame) }

def bitClear (p : State) (frame : Nat) : State :=
  { p with
    frameBitmap := storeByte p.frameBitmap (frame / 8) (p.frameBitmap (frame / 8) &&& ~~~bitMask frame) }

def bitTest (p : State) (frame : Nat) : Bool := p.frameBitmap (frame / 8) &&& bitMask frame != 0#8

def pageAlignUp (value : Nat) : Nat := u64 (value + pmmPageSize - 1) &&& not64 (pmmPageSize - 1)

def pageAlignDown (value : Nat) : Nat := value &&& not64 (pmmPageSize - 1)

/-- The addresses of `for (addr = start; addr < end; addr += PMM_PAGE_SIZE)`. -/
def pageAddrs (start fin : Nat) : List Nat :=
  (List.range ((fin - start + pmmPageSize - 1) / pmmPageSize)).map fun i => start + i * pmmPageSize

/-- The loop body of `reserve_range`. -/
def reserveFrame (p : State) (frame : Nat) : State :=
  if bitTest p frame then p else { bitSet p frame with freeFrames := sub64 p.freeFrames 1 }

/-- The loop body of `free_range`. -/
def freeFrame (p : State) (frame : Nat) : State :=
  if bitTest p frame then { bitClear p frame with freeFrames := u64 (p.freeFrames + 1) } else p

def reserveRange (p : State) (base length : Nat) : State :=
  let start := pageAlignDown base
  let fin := pageAlignUp (u64 (base + length))
  if start ≥ pmmMaxMemory then p
  else
    let fin := if fin > pmmMaxMemory then pmmMaxMemory else fin
    (pageAddrs start fin).foldl (fun p addr => reserveFrame p (addr / pmmPageSize)) p

def freeRange (p : State) (base length : Nat) : State :=
  let start := pageAlignUp base
  let fin := pageAlignDown (u64 (base + length))
  if start ≥ fin ∨ start ≥ pmmMaxMemory then p
  else
    let fin := if fin > pmmMaxMemory then pmmMaxMemory else fin
    (pageAddrs start fin).foldl (fun p addr => freeFrame p (addr / pmmPageSize)) p

/-- The loop of `pmm_init` over the memory map. -/
def freeUsable (p : State) (boot : Boot) : State :=
  (List.range boot.info.memoryMapEntries).foldl
    (fun p i => if (boot.entries i).type = 1 then freeRange p (boot.entries i).base (boot.entries i).length else p) p

def pmmInit (p : State) (boot : Boot) : State :=
  let p : State :=
    { frameBitmap := kmemset p.frameBitmap 0 0xFF#8 (pmmMaxFrames / 8), totalFrames := frameLimit, freeFrames := 0 }
  let p := freeUsable p boot
  let p := reserveRange p 0 0x100000
  let p := reserveRange p boot.info.kernelPhysStart (sub64 boot.info.kernelPhysEnd boot.info.kernelPhysStart)
  let p := reserveRange p boot.addr sizeofBootInfo
  let p := reserveRange p boot.info.memoryMapAddr (u64 (sizeofMemoryMapEntry * boot.info.memoryMapEntries))
  reserveRange p 0x1000 0x4000

/-- The scan of `pmm_alloc_frames`: `left` frames remain from `frame` on. The result is
the start of the first run that reaches `count`. -/
def allocScan (p : State) (count : Nat) : Nat → Nat → Nat → Nat → Option Nat
  | 0, _, _, _ => none
  | left + 1, frame, runStart, runLength =>
    if bitTest p frame then allocScan p count left (frame + 1) runStart 0
    else
      let runStart := if runLength = 0 then frame else runStart
      if runLength + 1 = count then some runStart
      else allocScan p count left (frame + 1) runStart (runLength + 1)

/-- `for (i = 0; i < count; i++) bit_set(run_start + i)`. -/
def bitSets (p : State) (runStart count : Nat) : State :=
  (List.range count).foldl (fun p i => bitSet p (runStart + i)) p

/-- The pointer returned and the state after the call. -/
def pmmAllocFrames (p : State) (count : Nat) : Nat × State :=
  if count = 0 ∨ count > frameLimit then (0, p)
  else
    match allocScan p count frameLimit 0 0 0 with
    | none => (0, p)
    | some runStart =>
      (u64 (runStart * pmmPageSize), { bitSets p runStart count with freeFrames := sub64 p.freeFrames count })

def pmmAllocFrame (p : State) : Nat × State := pmmAllocFrames p 1

/-- The loop of `pmm_free_frames`, which stops at the limit or at a clear bit. -/
def freeLoop (p : State) (current : Nat) : Nat → State
  | 0 => p
  | left + 1 =>
    if current ≥ frameLimit ∨ bitTest p current = false then p
    else freeLoop { bitClear p current with freeFrames := u64 (p.freeFrames + 1) } (current + 1) left

def pmmFreeFrames (p : State) (framePtr count : Nat) : State :=
  if framePtr = 0 ∨ count = 0 then p
  else if framePtr / pmmPageSize ≥ frameLimit then p
  else freeLoop p (framePtr / pmmPageSize) count

def pmmFreeFrame (p : State) (framePtr : Nat) : State := pmmFreeFrames p framePtr 1

def pmmTotalBytes (p : State) : Nat := u64 (p.totalFrames * pmmPageSize)
def pmmFreeBytes (p : State) : Nat := u64 (p.freeFrames * pmmPageSize)
def pmmReservedBytes (p : State) : Nat := sub64 (pmmTotalBytes p) (pmmFreeBytes p)

end SimpleKernel.Pmm
