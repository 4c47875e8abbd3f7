import SimpleKernel.Boot.Stage2
import SimpleKernel.Console.Model
import SimpleKernel.Cpuinfo
import SimpleKernel.Pci.Model
import SimpleKernel.Rtc.Model
import SimpleKernel.Shell.Allocdemo
import SimpleKernel.Shell.Parser
import SimpleKernel.Shell.Screen

/-!
# `shell.c`: the commands

A command gets the pointers to its arguments in `cmd_buffer`, reads the kernel and the devices, and
asks the console for what it prints. `executeCommandFull` runs the one that the command word names.
Straight prints are lists of pieces (`printPieces_spec`); what the commands with arguments print is
said in words of the line (`joinArgs_spec`).
-/

namespace SimpleKernel.Shell
set_option autoImplicit false
open Lib Kstring Console

/-- What the commands read and change, the shell and the console apart: memory with the heap and the
frames, and the static variables of `boot.c` and of `shell.c`. -/
structure Kernel where
  heap : Heap.Machine
  currentBootInfo : Nat
  pciDevices : Nat → Pci.PciDevice

/-- What a command meets while it runs: the devices, the ticks so far and those of every poll, what
the uninitialised locals hold, and a bound on how often a loop that waits goes round. -/
structure Surroundings where
  buffer : Mem
  tmp : Mem
  now : Rtc.RtcTime
  timerTicks : Nat
  ticks : Nat → Nat
  cmos : Rtc.Cmos
  clock : Nat
  space : Pci.ConfigSpace
  ports : Pci.Ports
  cpuid : Cpuinfo.Cpuid
  fuel : Nat

/-- What has been printed, and the kernel; `none` if the command never returns. -/
abbrev Outcome := List Request × Option Kernel

/-- `shell_command_fn`; `none` if it has left an array or mapped memory, or still waits. -/
abbrev ShellCommandFn := Surroundings → Kernel → Mem → List Nat → Option Outcome

def kernelVersion : String := "0.2.0"

def say (s : String) : Request := .kprint (asciiText s)

def Output.request : Output → Request
  | .kprint text => .kprint text
  | .kprintColored text fg bg => .kprintColored text fg bg
  | .scrollView delta => .scrollView delta
  | .scrollToBottom => .scrollToBottom

/-! ## Straight prints -/

/-- One call: `kprint` of a literal or of a text, `kprint_u64` or `kprint_hex`. -/
inductive Piece where
  | lit (s : String)
  | text (t : Line)
  | dec (value : Nat)
  | hex (value : Nat)

def printPiece (e : Surroundings) : Piece → Option (List Request)
  | .lit s => some [say s]
  | .text t => some [.kprint t]
  | .dec value => (kprintU64 e.buffer e.tmp value).map fun o => [o.request]
  | .hex value => (kprintHex e.buffer e.tmp value).map (List.map Output.request)

def printPieces (e : Surroundings) (ps : List Piece) : Option (List Request) :=
  (ps.mapM (printPiece e)).map List.flatten

/-- A command that prints and returns. -/
def prints (e : Surroundings) (k : Kernel) (ps : List Piece) : Option Outcome :=
  (printPieces e ps).map fun out => (out, some k)

/-! ## Arguments -/

/-- The string at a pointer into `cmd_buffer`. -/
def argText (m : Mem) (a : Nat) : Option Line :=
  (scan cmdBufferSize m (fun c => c != 0) cmdBufferSize a).map fun stop =>
    (List.range (stop - a)).map fun i => m (a + i)

/-- `kstrcmp(s, name) == 0` for a pointer into `cmd_buffer` and a literal. -/
def isName (m : Mem) (a : Nat) (name : Line) : Option Bool :=
  (kstrcmp cmdBufferSize (name.length + 1) m (literal name) (cmdBufferSize + 1) a 0).map (· == 0)

/-- The first entry with the name. -/
def lookupName {α : Type} (m : Mem) (a : Nat) : List (Line × α) → Option (Option α)
  | [] => some none
  | (name, x) :: rest => do
    let same ← isName m a name
    if same then some (some x) else lookupName m a rest

/-- The loop of `cmd_echo` and `cmd_rainbow`: the arguments with a space between them. -/
def joinArgs (put : Line → Request) (m : Mem) : List Nat → Option (List Request)
  | [] => some []
  | [a] => do
    let t ← argText m a
    some [put t]
  | a :: rest => do
    let t ← argText m a
    let more ← joinArgs put m rest
    some (put t :: put (asciiText " ") :: more)

/-! ## The commands -/

def cmdHelp : ShellCommandFn := fun e k _ _ => prints e k [
  .lit "Available commands:\n",
  .lit "  help     - Show this help message\n",
  .lit "  clear    - Clear the screen\n",
  .lit "  echo     - Print text\n",
  .lit "  color    - Change text color\n",
  .lit "  rainbow  - Rainbow text demo\n",
  .lit "  version  - Show kernel version\n",
  .lit "  uptime   - Show system uptime\n",
  .lit "  sleep    - Sleep for N milliseconds\n",
  .lit "  time     - Read RTC time\n",
  .lit "  cpuinfo  - Show CPU identification\n",
  .lit "  pci      - Enumerate PCI devices\n",
  .lit "  meminfo  - Show PMM statistics\n",
  .lit "  heapinfo - Show heap statistics\n",
  .lit "  allocdemo- Allocate/free a heap block\n",
  .lit "  mmap     - Show BIOS memory map\n",
  .lit "  panic    - Trigger a panic for testing\n",
  .lit "  reboot   - Reboot the system\n",
  .lit "  halt     - Halt the system\n",
  .lit "  exit     - Exit QEMU successfully\n"]

def cmdClear : ShellCommandFn := fun _ k _ _ => some ([.clear], some k)

def cmdEcho : ShellCommandFn := fun _ k m args => do
  let out ← joinArgs .kprint m args
  some (out ++ [say "\n"], some k)

/-- The names that `cmd_color` knows, in its order. -/
def colourNames : List (Line × BitVec 8) := [
  (asciiText "red", Vga.vgaColorLightRed), (asciiText "green", Vga.vgaColorLightGreen),
  (asciiText "blue", Vga.vgaColorLightBlue), (asciiText "yellow", Vga.vgaColorYellow),
  (asciiText "cyan", Vga.vgaColorLightCyan), (asciiText "magenta", Vga.vgaColorLightMagenta),
  (asciiText "white", Vga.vgaColorWhite)]

def cmdColor : ShellCommandFn := fun _ k m args =>
  match args with
  | [] => some ([say "Usage: color <name>\n"], some k)
  | arg :: _ => do
    match ← lookupName m arg colourNames with
    | none => some ([say "Unknown color\n"], some k)
    | some color => some ([.setcolor (Vga.vgaEntryColor color Vga.vgaColorBlack), say "Color changed!\n"], some k)

def cmdRainbow : ShellCommandFn := fun _ k m args =>
  match args with
  | [] => some ([.kprintRainbow (asciiText "Rainbow text demo!\n")], some k)
  | args => do
    let out ← joinArgs .kprintRainbow m args
    some (out ++ [.kprintRainbow (asciiText "\n")], some k)

def cmdVersion : ShellCommandFn := fun e k _ _ =>
  prints e k [.lit "Kernel version: ", .lit kernelVersion, .lit "\nArchitecture: x86_64\n"]

def cmdUptime : ShellCommandFn := fun e k _ _ =>
  prints e k [.lit "Uptime (ms): ", .dec (SystemTimer.systemGetUptimeMs e.timerTicks), .lit "\n"]

def cmdSleepFn : ShellCommandFn := fun e k m args =>
  (cmdSleep e.ticks e.fuel e.timerTicks e.buffer e.tmp cmdBufferSize m args).map fun r =>
    (r.1.map Output.request, some k)

/-- `kprint_u64` behind a zero if the value has one digit. -/
def twoDigits (value : Nat) : List Piece := if value < 10 then [.lit "0", .dec value] else [.dec value]

/-- The line that `cmd_time` prints. -/
def timePieces (t : Rtc.RtcTime) : List Piece :=
  [.lit "RTC time: ", .dec t.year.toNat, .lit "-"] ++ twoDigits t.month.toNat ++ [.lit "-"] ++ twoDigits t.day.toNat ++
    [.lit " "] ++ twoDigits t.hour.toNat ++ [.lit ":"] ++ twoDigits t.minute.toNat ++ [.lit ":"] ++
    twoDigits t.second.toNat ++ [.lit "\n"]

def cmdTime : ShellCommandFn := fun e k _ _ => do
  let r ← Rtc.rtcReadTime e.cmos e.fuel (some e.now) e.clock
  if r.result = 0 then prints e k [.lit "RTC read failed\n"] else prints e k (timePieces (r.time.getD e.now))

def cmdCpuinfo : ShellCommandFn := fun e k _ _ => do
  let info := Cpuinfo.cpuInfoRead e.cpuid
  let stop ← scan 13 info.vendor (fun c => c != 0) 13 0
  prints e k [.lit "CPU vendor: ", .text ((List.range stop).map info.vendor),
    .lit "\nCPU family: ", .dec info.family.toNat, .lit "\nCPU model: ", .dec info.model.toNat,
    .lit "\nCPU stepping: ", .dec info.stepping.toNat,
    .lit "\nAPIC present: ", .lit (if info.apicPresent ≠ 0 then "yes" else "no"),
    .lit "\nMSR supported: ", .lit (if info.msrSupported ≠ 0 then "yes" else "no"), .lit "\n"]

def pciClassName (classCode subclass : BitVec 8) : String :=
  if classCode = 0x01 then
    if subclass = 0x01 then "IDE storage" else if subclass = 0x06 then "SATA storage" else "Mass storage"
  else if classCode = 0x02 then "Network controller"
  else if classCode = 0x03 then "Display controller"
  else if classCode = 0x04 then "Multimedia controller"
  else if classCode = 0x06 then
    if subclass = 0x00 then "Host bridge" else if subclass = 0x01 then "ISA bridge"
    else if subclass = 0x04 then "PCI bridge" else "Bridge device"
  else if classCode = 0x0C then
    if subclass = 0x03 then "USB controller" else "Serial bus controller"
  else "Unknown device"

/-- The line of a device. -/
def pciPieces (d : Pci.PciDevice) : List Piece :=
  [.lit "bus=", .dec d.bus.toNat, .lit " slot=", .dec d.slot.toNat, .lit " func=", .dec d.function.toNat,
    .lit " vendor=", .hex d.vendorId.toNat, .lit " device=", .hex d.deviceId.toNat,
    .lit " class=", .lit (pciClassName d.classCode d.subclass), .lit "\n"]

def pciMaxFunctions : BitVec 8 := 64

def cmdPci : ShellCommandFn := fun e k _ _ =>
  let (count, devices, _) := Pci.pciEnumerate e.space pciMaxFunctions e.ports (some k.pciDevices)
  let devices := devices.getD k.pciDevices
  prints e { k with pciDevices := devices } ([.lit "PCI devices: ", .dec count.toNat, .lit "\n"] ++
    (List.range count.toNat).flatMap fun i => pciPieces (devices i))

def cmdMeminfo : ShellCommandFn := fun e k _ _ =>
  prints e k [.lit "PMM total bytes: ", .dec (Pmm.pmmTotalBytes k.heap.pmm), .lit "\nPMM free bytes: ",
    .dec (Pmm.pmmFreeBytes k.heap.pmm), .lit "\nPMM reserved bytes: ",
    .dec (Pmm.pmmReservedBytes k.heap.pmm), .lit "\n"]

def cmdHeapinfo : ShellCommandFn := fun e k _ _ =>
  prints e k [.lit "Heap total bytes: ", .dec k.heap.totalBytes, .lit "\nHeap used bytes: ", .dec k.heap.usedBytes,
    .lit "\nHeap free bytes: ", .dec (Heap.heapFreeBytes k.heap), .lit "\n"]

def cmdAllocdemoFn : ShellCommandFn := fun e k m args =>
  (cmdAllocdemo e.buffer e.tmp cmdBufferSize m args k.heap).map fun r =>
    (r.1.map Output.request, some { k with heap := r.2 })

def bootMemoryTypeName (type : Nat) : String :=
  if type = 1 then "usable" else if type = 2 then "reserved" else if type = 3 then "acpi_reclaim"
  else if type = 4 then "acpi_nvs" else if type = 5 then "bad_memory" else "unknown"

/-- The first GiB is mapped. -/
def Mapped (a n : Nat) : Prop := u64 a + n ≤ 2 ^ 30

instance (a n : Nat) : Decidable (Mapped a n) := inferInstanceAs (Decidable (_ ≤ _))

/-- A load through the page tables, which faults elsewhere. -/
def loadMapped (m : Mem) (a n : Nat) : Option Nat := if Mapped a n then some (loadLE m (u64 a) n) else none

/-- `boot_get_memory_map` through the page tables. -/
def bootGetMemoryMapMapped (m : Mem) (currentBootInfo : Nat) : Option (Nat × Nat) :=
  if currentBootInfo = 0 then some (0, 0)
  else do
    let count ← loadMapped m (currentBootInfo + 8) 4
    let entries ← loadMapped m (currentBootInfo + 16) 8
    some (entries, count)

/-- The line of an entry. -/
def mmapPieces (i base length type : Nat) : List Piece :=
  [.lit "[", .dec i, .lit "] base=", .hex base, .lit " len=", .hex length, .lit " type=",
    .lit (bootMemoryTypeName type), .lit "\n"]

/-- The line of the entry at `a`, whose last field is not read. -/
def mmapEntry (m : Mem) (i a : Nat) : Option (List Piece) := do
  let base ← loadMapped m a 8
  let length ← loadMapped m (a + 8) 8
  let type ← loadMapped m (a + 16) 4
  some (mmapPieces i base length type)

def cmdMmap : ShellCommandFn := fun e k _ _ => do
  let (entries, count) ← bootGetMemoryMapMapped k.heap.mem k.currentBootInfo
  if entries = 0 ∨ count = 0 then prints e k [.lit "No memory map available\n"]
  else do
    let lines ← (List.range count).mapM fun i => mmapEntry k.heap.mem i (entries + i * Boot.sizeofMemoryMapEntry)
    prints e k lines.flatten

/-- `panic`, which does not return. -/
def panic (message : String) : List Request :=
  [.kprintColored (asciiText "\nPANIC: ") Vga.vgaColorLightRed Vga.vgaColorBlack, say message, say "\n"]

def cmdPanic : ShellCommandFn := fun _ _ _ _ => some (panic "panic command invoked", none)

def cmdReboot : ShellCommandFn := fun _ _ _ _ =>
  some ([.kprintColored (asciiText "Rebooting system...\n") Vga.vgaColorYellow Vga.vgaColorBlack], none)

def cmdHalt : ShellCommandFn := fun _ _ _ _ =>
  some ([.kprintColored (asciiText "System halted.\n") Vga.vgaColorRed Vga.vgaColorBlack], none)

def commands : List (Line × ShellCommandFn) := [
  (asciiText "help", cmdHelp), (asciiText "clear", cmdClear), (asciiText "echo", cmdEcho),
  (asciiText "color", cmdColor), (asciiText "rainbow", cmdRainbow), (asciiText "version", cmdVersion),
  (asciiText "uptime", cmdUptime), (asciiText "sleep", cmdSleepFn), (asciiText "time", cmdTime),
  (asciiText "cpuinfo", cmdCpuinfo), (asciiText "pci", cmdPci), (asciiText "meminfo", cmdMeminfo),
  (asciiText "heapinfo", cmdHeapinfo), (asciiText "allocdemo", cmdAllocdemoFn), (asciiText "mmap", cmdMmap),
  (asciiText "panic", cmdPanic), (asciiText "reboot", cmdReboot), (asciiText "halt", cmdHalt)]

/-- What `execute_command` leaves; `exits` is its result. -/
structure Executed where
  out : List Request
  kernel : Option Kernel
  exits : Bool

/-- `execute_command` with the commands, of which `executeCommand` is the result. -/
def executeCommandFull (e : Surroundings) (k : Kernel) (m : Mem) (cmd : Nat) (args : List Nat) : Option Executed := do
  let c ← loadIn cmdBufferSize m cmd
  if c = 0 then some ⟨[], some k, false⟩
  else do
    let exits ← isName m cmd exitName
    if exits then some ⟨[], some k, true⟩
    else do
      match ← lookupName m cmd commands with
      | some fn =>
        let r ← fn e k m args
        some ⟨r.1, r.2, false⟩
      | none =>
        let t ← argText m cmd
        some ⟨[say "Unknown command: ", .kprint t, say "\n"], some k, false⟩

/-! ## What is printed -/

/-- The characters of a piece. -/
def Piece.chars : Piece → Line
  | .lit s => asciiText s
  | .text t => t
  | .dec value => decimal.numeral value
  | .hex value => asciiText "0x" ++ hexadecimal.numeral value

/-- Its number, if it has one, is a `u64`. -/
def Piece.Small : Piece → Prop
  | .lit _ => True
  | .text _ => True
  | .dec value => value < 2 ^ 64
  | .hex value => value < 2 ^ 64

/-- `kprint` and nothing else, of a text. -/
def Plainly (out : List Request) (t : Line) : Prop := texts out = t ∧ ∀ r ∈ out, ∃ u, r = .kprint u

section

variable {e : Surroundings} {k : Kernel} {m : Mem} {a cmd : Nat} {s : Line} {ps : List Piece} {args : List Nat}
  {words : List Line} {put : Line → Request}

theorem plainly_nil : Plainly [] [] := ⟨rfl, by simp⟩

theorem Plainly.append {out out' : List Request} {t t' : Line} (h : Plainly out t) (h' : Plainly out' t') :
    Plainly (out ++ out') (t ++ t') := by
  constructor
  · rw [texts, List.flatMap_append]
    exact congrArg₂ _ h.1 h'.1
  · intro r member
    exact (List.mem_append.1 member).elim (h.2 r) (h'.2 r)

theorem plainly_kprint (t : Line) : Plainly [.kprint t] t :=
  ⟨List.append_nil t, fun _ member => ⟨t, List.mem_singleton.1 member⟩⟩

theorem printPiece_spec {p : Piece} (small : p.Small) : ∃ out, printPiece e p = some out ∧ Plainly out p.chars := by
  cases p with
  | lit s => exact ⟨_, rfl, plainly_kprint _⟩
  | text t => exact ⟨_, rfl, plainly_kprint _⟩
  | dec value => exact ⟨_, by rw [printPiece, kprintU64_eq small]; rfl, plainly_kprint _⟩
  | hex value =>
    refine ⟨[say "0x", .kprint (hexadecimal.numeral value)], ?_, (plainly_kprint _).append (plainly_kprint _)⟩
    rw [printPiece, kprintHex_eq small]
    rfl

/-- **Straight prints** end and print their pieces. -/
theorem printPieces_spec (small : ∀ p ∈ ps, p.Small) :
    ∃ out, printPieces e ps = some out ∧ Plainly out (ps.flatMap Piece.chars) := by
  induction ps with
  | nil => exact ⟨[], rfl, plainly_nil⟩
  | cons p ps ih =>
    obtain ⟨first, run, plain⟩ := @printPiece_spec e p (small p List.mem_cons_self)
    obtain ⟨rest, runs, plains⟩ := ih fun q hq => small q (List.mem_cons_of_mem _ hq)
    unfold printPieces at *
    obtain ⟨outs, mapped, rfl⟩ := Option.map_eq_some_iff.1 runs
    refine ⟨first ++ outs.flatten, ?_, List.flatMap_cons ▸ plain.append plains⟩
    rw [List.mapM_cons, run, mapped]
    rfl

theorem argText_eq (str : StrAt m a s) (inside : a + s.length < cmdBufferSize) : argText m a = some s := by
  have stop : scan cmdBufferSize m (fun c => c != 0) cmdBufferSize a = some (a + s.length) :=
    scan_string str inside (by omega)
  rw [argText, stop, Option.map_some, Nat.add_sub_cancel_left]
  refine congrArg some (List.ext_getElem (by simp) fun i hi hi' => ?_)
  rw [List.getElem_map, List.getElem_range]
  exact str.bytes i hi'

theorem isName_eq (str : StrAt m a s) (inside : a + s.length < cmdBufferSize) {name : Line}
    (nonzero : ∀ c ∈ name, c ≠ 0) :
    isName m a name = some (decide (s = name)) := by
  obtain ⟨d, run, zero⟩ := @kstrcmp_spec cmdBufferSize (name.length + 1) m (literal name) s name
    (cmdBufferSize + 1) a 0 str (strAt_getD nonzero) inside (by omega) (by omega)
  rw [isName]
  refine (congrArg _ run).trans ?_
  rw [Option.map_some, Option.some.injEq]
  exact decide_eq_decide.2 zero

theorem lookupName_eq {α : Type} (str : StrAt m a s) (inside : a + s.length < cmdBufferSize) {table : List (Line × α)}
    (nonzero : ∀ x ∈ table, ∀ c ∈ x.1, c ≠ 0) :
    lookupName m a table = some ((table.find? fun x => decide (s = x.1)).map Prod.snd) := by
  induction table with
  | nil => rfl
  | cons x table ih =>
    have rest := ih fun y hy => nonzero y (List.mem_cons_of_mem _ hy)
    rw [lookupName, isName_eq str inside (nonzero x List.mem_cons_self)]
    rw [List.find?_cons]
    by_cases same : s = x.1
    · rw [decide_eq_true same]
      rfl
    · rw [decide_eq_false same, ← rest]
      rfl

/-- **The loop over the arguments**, in words. -/
theorem joinArgs_eq (strs : List.Forall₂ (fun a t => StrAt m a t ∧ a + t.length < cmdBufferSize) args words) :
    joinArgs put m args = some ((words.map put).intersperse (put (asciiText " "))) := by
  induction strs with
  | nil => rfl
  | cons first rest ih =>
    have head := argText_eq first.1 first.2
    cases rest with
    | nil =>
      rw [joinArgs, head]
      rfl
    | cons second rest =>
      rw [joinArgs, head, ih]
      · rfl
      · exact nofun

/-- The names in bytes. -/
def commandNames : List Line := [
  [0x68, 0x65, 0x6C, 0x70], [0x63, 0x6C, 0x65, 0x61, 0x72], [0x65, 0x63, 0x68, 0x6F], [0x63, 0x6F, 0x6C, 0x6F, 0x72],
  [0x72, 0x61, 0x69, 0x6E, 0x62, 0x6F, 0x77], [0x76, 0x65, 0x72, 0x73, 0x69, 0x6F, 0x6E],
  [0x75, 0x70, 0x74, 0x69, 0x6D, 0x65], [0x73, 0x6C, 0x65, 0x65, 0x70], [0x74, 0x69, 0x6D, 0x65],
  [0x63, 0x70, 0x75, 0x69, 0x6E, 0x66, 0x6F], [0x70, 0x63, 0x69], [0x6D, 0x65, 0x6D, 0x69, 0x6E, 0x66, 0x6F],
  [0x68, 0x65, 0x61, 0x70, 0x69, 0x6E, 0x66, 0x6F], [0x61, 0x6C, 0x6C, 0x6F, 0x63, 0x64, 0x65, 0x6D, 0x6F],
  [0x6D, 0x6D, 0x61, 0x70], [0x70, 0x61, 0x6E, 0x69, 0x63], [0x72, 0x65, 0x62, 0x6F, 0x6F, 0x74],
  [0x68, 0x61, 0x6C, 0x74]]

theorem commands_names : commands.map Prod.fst = commandNames := by decide

theorem commands_named : ∀ x ∈ commands, ∀ c ∈ x.1, c ≠ 0 := by
  have names : ∀ x ∈ commandNames, 0 ∉ x := by simp [commandNames]
  intro x hx c hc zero
  exact names x.1 (commands_names ▸ List.mem_map_of_mem hx) (zero ▸ hc)

/-- No two commands have one name, and none has none or is `exit`. -/
theorem commands_apart : (exitName :: [] :: commands.map Prod.fst).Nodup := by
  rw [commands_names]
  refine List.Nodup.of_map (fun w : Line => w.foldl (fun n c => n * 256 + c.toNat) 0) ?_
  decide

end

end SimpleKernel.Shell
