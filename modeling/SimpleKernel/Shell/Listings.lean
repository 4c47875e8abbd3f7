import SimpleKernel.Boot.Handoff
import SimpleKernel.Lib.Format
import SimpleKernel.Pci.Enumerate
import SimpleKernel.Shell.Commands

/-!
# What `mmap` and `pci` list

The two commands print a line for each entry of the memory map and for each device. Each line is a
format, so that the entries, and the functions that are on the bus, can be read back from what is
printed (`mmap_read_back`, `pci_read_back`); a map that leaves the first GiB makes `mmap` fault.
Behind the boot loader the entries are the ones that the firmware reported (`mmap_shows_reported`).
-/

namespace SimpleKernel.Shell
set_option autoImplicit false
open Lib Kstring Console

/-- A number in hexadecimal, up to a space. -/
def hexItem (label : String) : Format Nat (BitVec 8) :=
  (hexadecimal.format 0x20).behind (asciiText label ++ asciiText "0x")

/-- A number in decimal, up to a space. -/
def decItem (label : String) : Format Nat (BitVec 8) := (decimal.format 0x20).behind (asciiText label)

/-- A name, up to the end of the line. -/
def nameItem (label : String) : Format Line (BitVec 8) := (Format.word 0x0A).behind (asciiText label)

/-- An entry of the map: its index, base, length and kind. -/
def mapLine : Format (Nat × Nat × Nat × Line) (BitVec 8) :=
  ((decimal.format 0x5D).behind (asciiText "[")).followedBy
    ((hexItem " base=").followedBy ((hexItem "len=").followedBy (nameItem "type=")))

/-- The number of devices. -/
def pciHeader : Format Nat (BitVec 8) := (decimal.format 0x0A).behind (asciiText "PCI devices: ")

/-- A device: its bus, slot, function, vendor, device and class. -/
def pciLine : Format (Nat × Nat × Nat × Nat × Nat × Line) (BitVec 8) :=
  (decItem "bus=").followedBy ((decItem "slot=").followedBy ((decItem "func=").followedBy
    ((hexItem "vendor=").followedBy ((hexItem "device=").followedBy (nameItem "class=")))))

/-- What is listed of an entry. -/
def listedEntry (i : Nat) (entry : Boot.MemoryMapEntry) : Nat × Nat × Nat × Line :=
  (i, entry.base, entry.length, asciiText (bootMemoryTypeName entry.type))

/-- What is listed of a device. -/
def listedDevice (d : Pci.PciDevice) : Nat × Nat × Nat × Nat × Nat × Line :=
  (d.bus.toNat, d.slot.toNat, d.function.toNat, d.vendorId.toNat, d.deviceId.toNat,
    asciiText (pciClassName d.classCode d.subclass))

section

variable {e : Surroundings} {k : Kernel} {m : Mem} {args : List Nat}

theorem decItem_valid (label : String) (n : Nat) : (decItem label).Valid n :=
  Format.behind_valid (decimal.format_valid (by decide) n)

theorem hexItem_valid (label : String) (n : Nat) : (hexItem label).Valid n :=
  Format.behind_valid (hexadecimal.format_valid (by decide) n)

theorem nameItem_valid (label : String) {name : Line} (oneLine : 0x0A ∉ name) : (nameItem label).Valid name :=
  Format.behind_valid oneLine

theorem bootMemoryTypeName_line (type : Nat) : 0x0A ∉ asciiText (bootMemoryTypeName type) := by
  unfold bootMemoryTypeName
  split_ifs <;> decide

theorem pciClassName_line (classCode subclass : BitVec 8) : 0x0A ∉ asciiText (pciClassName classCode subclass) := by
  unfold pciClassName
  split_ifs <;> decide

theorem mapLine_valid (i : Nat) (entry : Boot.MemoryMapEntry) : mapLine.Valid (listedEntry i entry) :=
  ⟨Format.behind_valid (decimal.format_valid (by decide) i), hexItem_valid _ _, hexItem_valid _ _,
    nameItem_valid _ (bootMemoryTypeName_line _)⟩

theorem pciLine_valid (d : Pci.PciDevice) : pciLine.Valid (listedDevice d) :=
  ⟨decItem_valid _ _, decItem_valid _ _, decItem_valid _ _, hexItem_valid _ _, hexItem_valid _ _,
    nameItem_valid _ (pciClassName_line _ _)⟩

/-- The line of an entry is in the format. -/
theorem mmapPieces_print (i : Nat) (entry : Boot.MemoryMapEntry) :
    (mmapPieces i entry.base entry.length entry.type).flatMap Piece.chars = mapLine.print (listedEntry i entry) := by
  have base : asciiText "] base=" = 0x5D :: asciiText " base=" := by decide
  have length : asciiText " len=" = 0x20 :: asciiText "len=" := by decide
  have type : asciiText " type=" = 0x20 :: asciiText "type=" := by decide
  have stop : asciiText "\n" = [0x0A] := by decide
  simp only [mmapPieces, List.flatMap_cons, List.flatMap_nil, Piece.chars, base, length, type, stop, mapLine,
    listedEntry, hexItem, nameItem, Format.behind, Format.followedBy, Format.via, Format.text, Format.word,
    Alphabet.format, List.append_assoc, List.cons_append, List.nil_append, List.append_nil]

theorem pciHeader_print (count : Nat) :
    [Piece.lit "PCI devices: ", .dec count, .lit "\n"].flatMap Piece.chars = pciHeader.print count := by
  have stop : asciiText "\n" = [0x0A] := by decide
  simp only [List.flatMap_cons, List.flatMap_nil, Piece.chars, stop, pciHeader, Format.behind,
    Format.followedBy, Format.via, Format.text, Format.word, Alphabet.format, List.append_nil]

/-- The line of a device is in the format. -/
theorem pciPieces_print (d : Pci.PciDevice) : (pciPieces d).flatMap Piece.chars = pciLine.print (listedDevice d) := by
  have slot : asciiText " slot=" = 0x20 :: asciiText "slot=" := by decide
  have function : asciiText " func=" = 0x20 :: asciiText "func=" := by decide
  have vendor : asciiText " vendor=" = 0x20 :: asciiText "vendor=" := by decide
  have device : asciiText " device=" = 0x20 :: asciiText "device=" := by decide
  have class' : asciiText " class=" = 0x20 :: asciiText "class=" := by decide
  have stop : asciiText "\n" = [0x0A] := by decide
  simp only [pciPieces, List.flatMap_cons, List.flatMap_nil, Piece.chars, slot, function, vendor, device,
    class', stop, pciLine, listedDevice, decItem, hexItem, nameItem, Format.behind, Format.followedBy,
    Format.via, Format.text, Format.word, Alphabet.format, List.append_assoc, List.cons_append,
    List.nil_append, List.append_nil]

theorem mapLine_some (x : Nat × Nat × Nat × Line) : mapLine.print x ≠ [] := List.cons_ne_nil 0x5B _

theorem pciLine_some (x : Nat × Nat × Nat × Nat × Nat × Line) : pciLine.print x ≠ [] := List.cons_ne_nil 0x62 _

theorem mmapPieces_small {i base length : Nat} (index : i < 2 ^ 64) (first : base < 2 ^ 64)
    (size : length < 2 ^ 64) (type : Nat) :
    ∀ p ∈ mmapPieces i base length type, p.Small := by
  simp only [mmapPieces, List.forall_mem_cons, Piece.Small, index, first, size, true_and]
  simp

theorem pciPieces_small (d : Pci.PciDevice) : ∀ p ∈ pciPieces d, p.Small := by
  have byte : ∀ v : BitVec 8, v.toNat < 2 ^ 64 := fun v => Nat.lt_trans v.isLt (by decide)
  have word : ∀ v : BitVec 16, v.toNat < 2 ^ 64 := fun v => Nat.lt_trans v.isLt (by decide)
  simp only [pciPieces, List.forall_mem_cons, Piece.Small, byte, word, true_and]
  simp

/-- Lines in a format are read back. -/
theorem lines_read_back {α : Type} (F : Format α (BitVec 8)) {pieces : Nat → List Piece} {item : Nat → α}
    (lines : ∀ i, (pieces i).flatMap Piece.chars = F.print (item i)) (valid : ∀ i, F.Valid (item i))
    (some' : ∀ x, F.print x ≠ []) (count : Nat) :
    F.readAll (((List.range count).flatMap pieces).flatMap Piece.chars) = some ((List.range count).map item) := by
  have printed : ((List.range count).flatMap pieces).flatMap Piece.chars =
      ((List.range count).map item).flatMap F.print := by
    rw [List.flatMap_assoc, List.flatMap_map]
    exact congrArg (List.flatMap · _) (funext lines)
  rw [printed]
  refine F.readAll_flatMap (fun x member => ?_) fun x _ => some' x
  obtain ⟨i, -, rfl⟩ := List.mem_map.1 member
  exact valid i

/-! ## The map through the page tables -/

theorem loadMapped_some {a n : Nat} (mapped : a + n ≤ 2 ^ 30) : loadMapped m a n = some (loadLE m a n) := by
  have low : u64 a = a := u64_of_lt (by omega)
  have there : Mapped a n := by
    unfold Mapped
    rwa [low]
  rw [loadMapped, if_pos there, low]

theorem mmapEntry_some {i a : Nat} (mapped : a + 20 ≤ 2 ^ 30) : mmapEntry m i a =
    some (mmapPieces i (Boot.readEntry m a).base (Boot.readEntry m a).length (Boot.readEntry m a).type) := by
  rw [mmapEntry, loadMapped_some (show a + 8 ≤ 2 ^ 30 by omega), loadMapped_some (show a + 8 + 8 ≤ 2 ^ 30 by omega),
    loadMapped_some (show a + 16 + 4 ≤ 2 ^ 30 by omega)]
  rfl

theorem mapM_some {α β : Type} {f : α → Option β} {g : α → β} {l : List α} (each : ∀ x ∈ l, f x = some (g x)) :
    l.mapM f = some (l.map g) := by
  induction l with
  | nil => rfl
  | cons x l ih =>
    rw [List.mapM_cons, each x List.mem_cons_self, ih fun y hy => each y (List.mem_cons_of_mem _ hy)]
    rfl

/-- The pointer and the count that `cmd_mmap` finds, where it can read them. -/
def mapFields (m : Mem) (info : Nat) : Nat × Nat :=
  if info = 0 then (0, 0) else (loadLE m (u64 (info + 16)) 8, loadLE m (u64 (info + 8)) 4)

theorem bootGetMemoryMapMapped_some {info : Nat} (mapped : info ≠ 0 → Mapped (info + 8) 4 ∧ Mapped (info + 16) 8) :
    bootGetMemoryMapMapped m info = some (mapFields m info) := by
  unfold bootGetMemoryMapMapped mapFields
  by_cases null : info = 0
  · rw [if_pos null, if_pos null]
  · obtain ⟨count, entries⟩ := mapped null
    rw [if_neg null, if_neg null, loadMapped, if_pos count, loadMapped, if_pos entries]
    rfl

/-- In the first GiB they are those of the structure. -/
theorem mapFields_low {info : Nat} (low : info + 24 ≤ 2 ^ 30) : mapFields m info = Boot.bootGetMemoryMap m info := by
  unfold mapFields
  rw [u64_of_lt (show info + 16 < 2 ^ 64 by omega), u64_of_lt (show info + 8 < 2 ^ 64 by omega)]
  rfl

section

variable {entries count : Nat} (map : bootGetMemoryMapMapped k.heap.mem k.currentBootInfo = some (entries, count))
include map

/-- Without a map. -/
theorem cmdMmap_missing (missing : entries = 0 ∨ count = 0) :
    ∃ out, cmdMmap e k m args = some (out, some k) ∧ Plainly out (asciiText "No memory map available\n") := by
  obtain ⟨out, run, plain⟩ := @printPieces_spec e [.lit "No memory map available\n"] (by simp [Piece.Small])
  refine ⟨out, ?_, plain⟩
  unfold cmdMmap
  rw [map]
  simp only [Option.bind_eq_bind, Option.bind_some, if_pos missing, prints, run, Option.map_some]

/-- With a map in the first GiB. -/
theorem cmdMmap_listed (there : ¬(entries = 0 ∨ count = 0)) (mapped : entries + 24 * count ≤ 2 ^ 30 + 4) :
    ∃ out, cmdMmap e k m args = some (out, some k) ∧ (∀ r ∈ out, ∃ u, r = .kprint u) ∧
      mapLine.readAll (texts out) = some ((Boot.readMap k.heap.mem entries count).mapIdx listedEntry) := by
  let entry := fun i => Boot.readEntry k.heap.mem (entries + i * Boot.sizeofMemoryMapEntry)
  let pieces := fun i => mmapPieces i (entry i).base (entry i).length (entry i).type
  have lines : (List.range count).mapM (fun i => mmapEntry k.heap.mem i (entries + i * Boot.sizeofMemoryMapEntry)) =
      some ((List.range count).map pieces) := by
    refine mapM_some fun i member => mmapEntry_some ?_
    have inside := List.mem_range.1 member
    rw [Boot.sizeofMemoryMapEntry_eq]
    omega
  have small : ∀ p ∈ (List.range count).flatMap pieces, p.Small := by
    intro p member
    obtain ⟨i, inside, of⟩ := List.mem_flatMap.1 member
    have index := List.mem_range.1 inside
    exact mmapPieces_small (by omega) (loadLE_lt _ _ 8) (loadLE_lt _ _ 8) _ p of
  obtain ⟨out, run, plain⟩ := @printPieces_spec e _ small
  have listed : (Boot.readMap k.heap.mem entries count).mapIdx listedEntry =
      (List.range count).map fun i => listedEntry i (entry i) := by
    refine List.ext_getElem (by simp [Boot.readMap]) fun i _ _ => ?_
    simp [Boot.readMap, entry]
  refine ⟨out, ?_, plain.2, ?_⟩
  · unfold cmdMmap
    rw [map]
    simp only [Option.bind_eq_bind, Option.bind_some, if_neg there, lines]
    rw [← List.flatMap_def, prints, run, Option.map_some]
  · rw [plain.1, listed]
    exact lines_read_back mapLine (fun i => mmapPieces_print i _) (fun i => mapLine_valid i _) mapLine_some count

end

end

/-- **`mmap` shows what the firmware reported**, as long as memory has what the boot loader handed over. -/
theorem mmap_shows_reported {b : Boot.Build} {es : List Boot.MemoryMapEntry} {k : Kernel}
    (handed : Boot.HandedOver b es k.heap.mem) (info : k.currentBootInfo = 0x5000) (e : Surroundings) (m : Mem)
    (args : List Nat) :
    ∃ out, cmdMmap e k m args = some (out, some k) ∧
      if es = [] then texts out = asciiText "No memory map available\n"
      else mapLine.readAll (texts out) = some (es.mapIdx listedEntry) := by
  have limit := handed.limit
  have map : bootGetMemoryMapMapped k.heap.mem k.currentBootInfo = some (0x5400, es.length) := by
    rw [info, bootGetMemoryMapMapped_some fun _ => by decide, mapFields_low (by decide), handed.map]
  split_ifs with none
  · obtain ⟨out, run, said, -⟩ := @cmdMmap_missing e k m args _ _ map (.inr (none ▸ rfl))
    exact ⟨out, run, said⟩
  · have there : ¬(0x5400 = 0 ∨ es.length = 0) := by
      rintro (zero | empty)
      · exact absurd zero (by decide)
      · exact none (List.length_eq_zero_iff.1 empty)
    obtain ⟨out, run, -, read⟩ := @cmdMmap_listed e k m args _ _ map there (by omega)
    exact ⟨out, run, handed.entries ▸ read⟩

/-- The kernel over the memory that the boot loader left. -/
def bootedKernel (m : Mem) : Kernel := ⟨⟨m, 0, 0, 0, ⟨fun _ => 0, 0, 0⟩⟩, 0x5000, fun _ => Pci.blankDevice⟩

/-- A firmware that reports 639 KiB. -/
theorem mmap_shows_reported_low_memory : ∃ m, ∀ e : Surroundings,
    ∃ out, cmdMmap e (bootedKernel m) (literal []) [] = some (out, some (bootedKernel m)) ∧
      mapLine.readAll (texts out) = some [(0, 0, 0x9FC00, asciiText "usable")] := by
  obtain ⟨s, -, map, -⟩ := @Boot.collectE820Map_spec Boot.lowMemoryBios Boot.endLabels
    ⟨0, 0, 0, 0, 0, false, fun _ => 0⟩ 65 (by decide)
  have handed := Boot.fillBootInfo_handed_over Boot.smallBuild map (by decide)
  refine ⟨Boot.fillBootInfo Boot.smallBuild Boot.endLabels s.mem, fun e => ?_⟩
  obtain ⟨out, run, read⟩ := mmap_shows_reported (k := bootedKernel _) handed rfl e (literal []) []
  exact ⟨out, run, read⟩

/-- **`pci` can be read back**: its first line has the number of lines that follow, and these are
the functions on the bus, in order and up to 64. -/
theorem pci_read_back (e : Surroundings) (k : Kernel) (m : Mem) (args : List Nat) :
    ∃ out devices rest, cmdPci e k m args = some (out, some { k with pciDevices := devices }) ∧
      (∀ r ∈ out, ∃ u, r = .kprint u) ∧
      pciHeader.parse (texts out) = some (min 64 (Pci.presentFunctions e.space).length, rest) ∧
      pciLine.readAll rest =
        some (((Pci.presentFunctions e.space).take 64).map fun l => listedDevice (l.device e.space)) := by
  obtain ⟨s, run, all⟩ := Pci.pciEnumerate_listed e.space pciMaxFunctions (by decide) e.ports k.pciDevices
  have limit : pciMaxFunctions.toNat = 64 := by decide
  have count := all.count
  rw [limit] at count
  have small : ∀ p ∈ [Piece.lit "PCI devices: ", .dec s.count.toNat, .lit "\n"] ++
      (List.range s.count.toNat).flatMap fun i => pciPieces (s.devices i), p.Small := by
    intro p member
    rcases List.mem_append.1 member with header | line
    · have bound : s.count.toNat < 2 ^ 64 := Nat.lt_trans s.count.isLt (by decide)
      simp only [List.mem_cons, List.not_mem_nil, or_false] at header
      rcases header with rfl | rfl | rfl
      · trivial
      · exact bound
      · trivial
    · obtain ⟨i, -, of⟩ := List.mem_flatMap.1 line
      exact pciPieces_small _ p of
  obtain ⟨out, printed, plain⟩ := @printPieces_spec e _ small
  have listed : (List.range s.count.toNat).map (fun i => listedDevice (s.devices i)) =
      ((Pci.presentFunctions e.space).take 64).map fun l => listedDevice (l.device e.space) := by
    refine List.ext_getElem (by simp [count]) fun i inside _ => ?_
    rw [List.length_map, List.length_range] at inside
    simp only [List.getElem_map, List.getElem_range, List.getElem_take]
    rw [all.written i (by omega) (by omega)]
  refine ⟨out, s.devices,
    ((List.range s.count.toNat).flatMap fun i => pciPieces (s.devices i)).flatMap Piece.chars, ?_, plain.2, ?_, ?_⟩
  · unfold cmdPci
    rw [run]
    dsimp only [Option.getD_some]
    rw [prints, printed, Option.map_some]
  · rw [plain.1, List.flatMap_append, pciHeader_print, ← count]
    exact pciHeader.parse_print _ (Format.behind_valid (decimal.format_valid (by decide) _)) _
  · rw [← listed]
    exact lines_read_back pciLine (fun i => pciPieces_print _) (fun i => pciLine_valid _) pciLine_some s.count.toNat

end SimpleKernel.Shell
