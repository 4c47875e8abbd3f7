import SimpleKernel.Kstring
import SimpleKernel.Lib.Loop

/-!
# `pci.c`: enumeration through the configuration ports

The configuration space is a word for every bus, slot, function and dword register. A
bridge serves it: a write to `0xCF8` latches an address, and a read of `0xCFC` yields
the word that the latched address names. The array of devices is a memory of records, in
which `count` is the next slot.
-/

namespace SimpleKernel.Pci
set_option autoImplicit false
open Lib Kstring

abbrev ConfigSpace := BitVec 8 → BitVec 5 → BitVec 3 → BitVec 6 → BitVec 32

def pciConfigAddressPort : BitVec 16 := 0xCF8
def pciConfigDataPort : BitVec 16 := 0xCFC

/-! ## The bridge -/

/-- The address latched at `0xCF8`. -/
structure Ports where
  configAddress : BitVec 32

def outl (p : Ports) (port : BitVec 16) (value : BitVec 32) : Ports :=
  if port = pciConfigAddressPort then { p with configAddress := value } else p

/-- The word that an address with the enable bit names. -/
def configData (space : ConfigSpace) (address : BitVec 32) : BitVec 32 :=
  if address.getLsbD 31 then
    space (address.extractLsb' 16 8) (address.extractLsb' 11 5) (address.extractLsb' 8 3) (address.extractLsb' 2 6)
  else 0xFFFFFFFF

def inl (space : ConfigSpace) (p : Ports) (port : BitVec 16) : BitVec 32 :=
  if port = pciConfigDataPort then configData space p.configAddress else 0xFFFFFFFF

/-! ## Registers -/

def pciConfigAddress (bus slot function offset : BitVec 8) : BitVec 32 :=
  (1#32 <<< 31) ||| (bus.setWidth 32 <<< 16) ||| (slot.setWidth 32 <<< 11) ||| (function.setWidth 32 <<< 8) |||
    (offset.setWidth 32 &&& 0xFC#32)

section

variable (space : ConfigSpace) (p : Ports) (bus slot function offset : BitVec 8)

def pciConfigRead32 : BitVec 32 × Ports :=
  let p := outl p pciConfigAddressPort (pciConfigAddress bus slot function offset)
  (inl space p pciConfigDataPort, p)

def pciConfigRead16 : BitVec 16 × Ports :=
  let (value, p) := pciConfigRead32 space p bus slot function offset
  (((value >>> ((offset.setWidth 32 &&& 2#32) * 8#32)) &&& 0xFFFF#32).setWidth 16, p)

/-- `pci_device_t`. -/
structure PciDevice where
  bus : BitVec 8
  slot : BitVec 8
  function : BitVec 8
  vendorId : BitVec 16
  deviceId : BitVec 16
  classCode : BitVec 8
  subclass : BitVec 8
  progIf : BitVec 8
  headerType : BitVec 8
  deriving DecidableEq

/-- What `pci_fill_device` leaves in `*device`. -/
def pciFillDevice : PciDevice × Ports :=
  let (id, p) := pciConfigRead32 space p bus slot function 0x00
  let (classReg, p) := pciConfigRead32 space p bus slot function 0x08
  let (headerReg, p) := pciConfigRead32 space p bus slot function 0x0C
  ({ bus, slot, function
     vendorId := (id &&& 0xFFFF#32).setWidth 16
     deviceId := (id >>> 16).setWidth 16
     progIf := ((classReg >>> 8) &&& 0xFF#32).setWidth 8
     subclass := ((classReg >>> 16) &&& 0xFF#32).setWidth 8
     classCode := ((classReg >>> 24) &&& 0xFF#32).setWidth 8
     headerType := ((headerReg >>> 16) &&& 0xFF#32).setWidth 8 }, p)

end

/-! ## Enumeration -/

/-- The ports, the array and `count`. -/
structure Enumeration where
  ports : Ports
  devices : Nat → PciDevice
  count : BitVec 8

section

variable (space : ConfigSpace) (maxDevices : BitVec 8)

/-- `count < max_devices`. -/
def hasRoom (s : Enumeration) : Bool := s.count < maxDevices

/-- `pci_fill_device(&devices[count++], bus, slot, function)`. -/
def addDevice (bus slot function : BitVec 8) (s : Enumeration) : Enumeration :=
  let (device, ports) := pciFillDevice space s.ports bus slot function
  { ports, devices := setCell s.devices s.count.toNat device, count := s.count + 1 }

/-- The loop body over the functions 1 to 7. -/
def functionBody (bus slot : BitVec 8) (function : Nat) (s : Enumeration) : Enumeration :=
  let (vendor, ports) := pciConfigRead16 space s.ports bus slot (BitVec.ofNat 8 function) 0x00
  let s := { s with ports }
  if vendor = 0xFFFF then s else addDevice space bus slot (BitVec.ofNat 8 function) s

/-- The loop body over the slots. -/
def slotBody (bus : BitVec 8) (slot : Nat) (s : Enumeration) : Enumeration :=
  let slot := BitVec.ofNat 8 slot
  let (vendor, ports) := pciConfigRead16 space s.ports bus slot 0 0x00
  let s := { s with ports }
  if vendor = 0xFFFF then s
  else
    let s := addDevice space bus slot 0 s
    let (headerReg, ports) := pciConfigRead32 space s.ports bus slot 0 0x0C
    let s := { s with ports }
    let headerType := ((headerReg >>> 16) &&& 0xFF#32).setWidth 8
    if headerType &&& 0x80#8 = 0 then s else forWhile (hasRoom maxDevices) (functionBody space bus slot) 7 1 s

/-- The loop body over the buses; the variable is a `u16`, cast to `u8`. -/
def busBody (bus : Nat) (s : Enumeration) : Enumeration :=
  forWhile (hasRoom maxDevices) (slotBody space maxDevices (BitVec.ofNat 8 bus)) 32 0 s

/-- The value returned and the array afterwards; `none` is the null pointer. -/
def pciEnumerate (ports : Ports) (devices : Option (Nat → PciDevice)) : BitVec 8 × Option (Nat → PciDevice) × Ports :=
  match devices with
  | none => (0, none, ports)
  | some devices =>
    if maxDevices = 0 then (0, some devices, ports)
    else
      let s := forWhile (hasRoom maxDevices) (busBody space maxDevices) 256 0 ⟨ports, devices, 0⟩
      (s.count, some s.devices, s.ports)

end

end SimpleKernel.Pci
