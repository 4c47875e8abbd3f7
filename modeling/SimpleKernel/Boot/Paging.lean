import SimpleKernel.Boot.Stage2
import SimpleKernel.Pmm.Ledger

/-!
# The identity map

`setup_page_tables` clears three tables and fills them: the first entry of each of the
upper two, and all 512 of the last, each for a page of 2 MiB (`Tables`). The processor's
walk over these tables maps the first GiB to itself and nothing else, and the first GiB
is all that `pmm.c` hands out of.
-/

namespace SimpleKernel.Boot
set_option autoImplicit false
open Lib

/-! ## The walk -/

def present (entry : Nat) : Bool := entry % 2 = 1

def writable (entry : Nat) : Bool := entry / 2 % 2 = 1

/-- The page-size bit. -/
def large (entry : Nat) : Bool := entry / 2 ^ 7 % 2 = 1

/-- The address in an entry, a multiple of `2 ^ k` below `2 ^ 52`. -/
def entryAddr (k entry : Nat) : Nat := entry % 2 ^ 52 / 2 ^ k * 2 ^ k

/-- The entry of the table at `table` for the address `v`, whose index starts at bit `shift`. -/
def tableEntry (m : Mem) (table shift v : Nat) : Nat := loadLE m (table + 8 * (v / 2 ^ shift % 512)) 8

/-- **The 4-level walk**: the physical address and whether the page can be written, `none`
where an entry is not present. -/
def pageWalk (m : Mem) (cr3 v : Nat) : Option (Nat × Bool) :=
  let pml4e := tableEntry m (entryAddr 12 cr3) 39 v
  if present pml4e = false then none
  else
    let pdpte := tableEntry m (entryAddr 12 pml4e) 30 v
    if present pdpte = false then none
    else if large pdpte then some (entryAddr 30 pdpte + v % 2 ^ 30, writable pml4e && writable pdpte)
    else
      let pde := tableEntry m (entryAddr 12 pdpte) 21 v
      if present pde = false then none
      else if large pde then
        some (entryAddr 21 pde + v % 2 ^ 21, writable pml4e && writable pdpte && writable pde)
      else
        let pte := tableEntry m (entryAddr 12 pde) 12 v
        if present pte = false then none
        else
          some (entryAddr 12 pte + v % 2 ^ 12,
            writable pml4e && writable pdpte && writable pde && writable pte)

/-- The addresses whose bits from 47 on are equal. -/
def Canonical (v : Nat) : Prop := v < 2 ^ 47 ∨ (2 ^ 64 - 2 ^ 47 ≤ v ∧ v < 2 ^ 64)

/-! ## The tables -/

/-- The bytes of the three tables. -/
def TableBytes (a : Nat) : Prop := 0x1000 ≤ a ∧ a < 0x4000

/-- What the three tables hold. -/
structure Tables (m : Mem) : Prop where
  pml4 : ∀ i, i < 512 → loadLE m (0x1000 + 8 * i) 8 = if i = 0 then 0x2003 else 0
  pdpt : ∀ i, i < 512 → loadLE m (0x2000 + 8 * i) 8 = if i = 0 then 0x3003 else 0
  pd : ∀ i, i < 512 → loadLE m (0x3000 + 8 * i) 8 = i * largePageSize + 0x83

theorem Tables.congr {m m' : Mem} (h : Tables m) (same : ∀ a, TableBytes a → m' a = m a) : Tables m' := by
  unfold TableBytes at same
  constructor
  · intro i hi
    rw [loadLE_congr fun a lo up => same a (by omega)]
    exact h.pml4 i hi
  · intro i hi
    rw [loadLE_congr fun a lo up => same a (by omega)]
    exact h.pdpt i hi
  · intro i hi
    rw [loadLE_congr fun a lo up => same a (by omega)]
    exact h.pd i hi

section

variable {m : Mem} {v : Nat}

theorem Tables.entries (h : Tables m) :
    tableEntry m (entryAddr 12 0x1000) 39 v = (if v / 2 ^ 39 % 512 = 0 then 0x2003 else 0) ∧
      tableEntry m (entryAddr 12 0x2003) 30 v = (if v / 2 ^ 30 % 512 = 0 then 0x3003 else 0) ∧
      tableEntry m (entryAddr 12 0x3003) 21 v = v / 2 ^ 21 % 512 * largePageSize + 0x83 :=
  ⟨h.pml4 _ (Nat.mod_lt _ (by decide)), h.pdpt _ (Nat.mod_lt _ (by decide)), h.pd _ (Nat.mod_lt _ (by decide))⟩

/-- The last table maps page `i` to itself. -/
theorem pde_fields {i : Nat} (small : i < 512) :
    present (i * largePageSize + 0x83) = true ∧ writable (i * largePageSize + 0x83) = true ∧
      large (i * largePageSize + 0x83) = true ∧ entryAddr 21 (i * largePageSize + 0x83) = i * largePageSize := by
  unfold present writable large entryAddr
  rw [largePageSize_eq]
  simp only [decide_eq_true_eq]
  omega

/-- The upper tables lead to the last one, and their other entries are not present. -/
theorem link_fields : present 0x2003 = true ∧ writable 0x2003 = true ∧ present 0x3003 = true ∧ writable 0x3003 = true ∧
    large 0x3003 = false ∧ present 0 = false := by
  decide

/-- **The first GiB is mapped to itself.** -/
theorem Tables.identity (h : Tables m) (low : v < 2 ^ 30) : pageWalk m 0x1000 v = some (v, true) := by
  obtain ⟨pml4, pdpt, pd⟩ := @Tables.entries m v h
  obtain ⟨there, write, page, addr⟩ := @pde_fields (v / 2 ^ 21 % 512) (Nat.mod_lt _ (by decide))
  obtain ⟨there₁, write₁, there₂, write₂, link, -⟩ := link_fields
  have whole : v / 2 ^ 21 % 512 * largePageSize + v % 2 ^ 21 = v := by
    rw [largePageSize_eq]
    omega
  rw [if_pos (by omega)] at pml4 pdpt
  unfold pageWalk
  simp only [pml4, pdpt, pd, there₁, write₁, there₂, write₂, link, there, write, page, addr, whole, Bool.true_eq_false,
    Bool.false_eq_true, if_false, if_true, Bool.and_self]

/-- **Nothing else is mapped.** -/
theorem Tables.unmapped (h : Tables m) (canonical : Canonical v) (high : 2 ^ 30 ≤ v) : pageWalk m 0x1000 v = none := by
  obtain ⟨pml4, pdpt, -⟩ := @Tables.entries m v h
  obtain ⟨there, -, -, -, -, absent⟩ := link_fields
  unfold Canonical at canonical
  unfold pageWalk
  dsimp only
  by_cases lower : v / 2 ^ 39 % 512 = 0
  · have upper : ¬ v / 2 ^ 30 % 512 = 0 := by omega
    rw [if_pos lower] at pml4
    rw [if_neg upper] at pdpt
    rw [pml4, pdpt, there, if_neg (fun eq => nomatch eq)]
    exact if_pos absent
  · rw [if_neg lower] at pml4
    rw [pml4]
    exact if_pos absent

end

/-! ## `setup_page_tables` -/

/-- `rep stosd` of zeros, upwards. -/
theorem repStosd_spec {n : Nat} {s : Protected} (zero : s.eax = 0) (fits : s.edi + 4 * n < 2 ^ 32) :
    (∀ a, s.edi ≤ a → a < s.edi + 4 * n → (repStosd false n s).mem a = 0) ∧
      SameOutside (fun a => s.edi ≤ a ∧ a < s.edi + 4 * n) s.mem (repStosd false n s).mem := by
  induction n generalizing s with
  | zero =>
    constructor
    · intro a lo hi
      omega
    · exact .refl _ _
  | succ n ih =>
    obtain ⟨s', step⟩ : ∃ s', s' = { s with
      mem := storeDword s.mem s.edi s.eax
      edi := if false = true then u32 (s.edi + 2 ^ 32 - 4) else u32 (s.edi + 4) } := ⟨_, rfl⟩
    have edi : s'.edi = s.edi + 4 := by
      rw [step]
      show (if false = true then u32 (s.edi + 2 ^ 32 - 4) else u32 (s.edi + 4)) = s.edi + 4
      rw [if_neg Bool.false_ne_true, u32_of_lt (by omega)]
    have mem : s'.mem = storeDword s.mem s.edi 0 := by rw [step, zero]
    obtain ⟨cleared, out⟩ := @ih s' (by rw [step]; exact zero) (by omega)
    rw [repStosd, ← step]
    rw [edi] at cleared out
    rw [mem] at out
    constructor
    · intro a lo hi
      by_cases first : a < s.edi + 4
      · rw [out a (by omega)]
        show (if s.edi ≤ a ∧ a < s.edi + 4 then BitVec.ofNat 8 (0 / 256 ^ (a - s.edi)) else s.mem a) = 0
        rw [if_pos ⟨lo, first⟩, Nat.zero_div]
        rfl
      · exact cleared a (by omega) (by omega)
    · refine ((storeLE_same_outside s.mem s.edi 4 0).mono ?_).trans (out.mono ?_)
      · intro a ha
        omega
      · intro a ha
        omega

/-- `rep stosd` from the tables on, in either direction: downwards it goes on below `2 ^ 32`. -/
theorem repStosd_outside {df : Bool} {n : Nat} {s : Protected} (count : n ≤ 3072)
    (up : df = false → s.edi + 4 * n ≤ 0x4000)
    (down : df = true → s.edi ≤ 0x1000 ∨ 2 ^ 31 + 4 * n ≤ s.edi ∧ s.edi < 2 ^ 32) :
    SameOutside (fun a => a < 0x4000 ∨ 2 ^ 31 ≤ a) s.mem (repStosd df n s).mem := by
  induction n generalizing s with
  | zero => exact .refl _ _
  | succ n ih =>
    obtain ⟨s', step⟩ : ∃ s', s' = { s with
      mem := storeDword s.mem s.edi s.eax
      edi := if df then u32 (s.edi + 2 ^ 32 - 4) else u32 (s.edi + 4) } := ⟨_, rfl⟩
    have mem : s'.mem = storeDword s.mem s.edi s.eax := by rw [step]
    have edi : s'.edi = if df then u32 (s.edi + 2 ^ 32 - 4) else u32 (s.edi + 4) := by rw [step]
    unfold u32 at edi
    have out : SameOutside (fun a => a < 0x4000 ∨ 2 ^ 31 ≤ a) s'.mem (repStosd df n s').mem := by
      refine ih (by omega) ?_ ?_
      · intro clear
        have before := up clear
        rw [clear, if_neg Bool.false_ne_true] at edi
        omega
      · intro set
        have before := down set
        rw [set, if_pos rfl] at edi
        omega
    rw [mem] at out
    rw [repStosd, ← step]
    refine ((storeLE_same_outside s.mem s.edi 4 s.eax).mono ?_).trans out
    intro a ha
    cases df with
    | false =>
      have before := up rfl
      omega
    | true =>
      have before := down rfl
      omega

theorem mapBody_spec {page : Nat} {s : Protected} (table : s.edi + 8 < 2 ^ 32) (pages : s.eax + page < 2 ^ 32) :
    (mapBody page s).edi = s.edi + 8 ∧ (mapBody page s).eax = s.eax + page ∧
      (mapBody page s).mem = storeDword (storeDword s.mem s.edi s.eax) (s.edi + 4) 0 ∧
      (mapBody page s).cr3 = s.cr3 := by
  have four : u32 (s.edi + 4) = s.edi + 4 := u32_of_lt (by omega)
  unfold mapBody
  rw [four, u32_of_lt pages, u32_of_lt table]
  exact ⟨rfl, rfl, rfl, rfl⟩

/-- `.map_loop`: the entries from `edi` on, for pages from `eax` on. -/
theorem mapLoop_spec {page n : Nat} {s : Protected} (table : s.edi + 8 * n < 2 ^ 32)
    (pages : s.eax + n * page < 2 ^ 32) :
    (∀ i, i < n → loadLE (mapLoop page n s).mem (s.edi + 8 * i) 8 = s.eax + i * page) ∧
      SameOutside (fun a => s.edi ≤ a ∧ a < s.edi + 8 * n) s.mem (mapLoop page n s).mem ∧
      (mapLoop page n s).cr3 = s.cr3 := by
  induction n generalizing s with
  | zero =>
    refine ⟨?_, .refl _ _, rfl⟩
    intro i hi
    exact absurd hi (Nat.not_lt_zero i)
  | succ n ih =>
    rw [Nat.succ_mul] at pages
    obtain ⟨edi, eax, entry, cr3⟩ := @mapBody_spec page s (by omega) (by omega)
    rw [mapLoop]
    generalize mapBody page s = s' at *
    obtain ⟨filled, out, kept⟩ := @ih s' (by omega) (by omega)
    rw [edi] at out
    refine ⟨?_, ?_, kept.trans cr3⟩
    · intro i hi
      cases i with
      | zero =>
        rw [Nat.mul_zero, Nat.zero_mul, Nat.add_zero, Nat.add_zero, out.loadLE_eq fun a lo up => by omega, entry,
          loadLE_add _ _ 4 4]
        unfold storeDword
        rw [loadLE_storeLE_apart (by omega), loadLE_storeLE_same, loadLE_storeLE_same, Nat.zero_mod, Nat.mul_zero,
          Nat.add_zero]
        exact Nat.mod_eq_of_lt (by omega)
      | succ i =>
        have rest := filled i (by omega)
        rw [edi, eax] at rest
        rw [show s.edi + 8 * (i + 1) = s.edi + 8 + 8 * i by omega, rest, Nat.succ_mul]
        omega
    · rw [entry] at out
      refine ((storeLE_same_outside s.mem s.edi 4 s.eax).mono ?_).trans
        (((storeLE_same_outside _ (s.edi + 4) 4 0).mono ?_).trans (out.mono ?_))
      · intro a ha
        omega
      · intro a ha
        omega
      · intro a ha
        omega

/-- An entry that links to the next table, in a cleared table. -/
theorem linked_table {m : Mem} {a link : Nat} (first : loadLE m a 4 = link)
    (cleared : ∀ x, a + 4 ≤ x → x < a + 4096 → m x = 0) {i : Nat} (small : i < 512) :
    loadLE m (a + 8 * i) 8 = if i = 0 then link else 0 := by
  cases i with
  | zero =>
    rw [Nat.mul_zero, Nat.add_zero, loadLE_add m a 4 4, first, loadLE_eq_zero.2 fun x lo hi => cleared x lo (by omega)]
    rfl
  | succ i => exact loadLE_eq_zero.2 fun x lo hi => cleared x (by omega) (by omega)

theorem repStosd_tables {n : Nat} {s : Protected} (count : n = 3072) (zero : s.eax = 0) (edi : s.edi = 0x1000) :
    (∀ a, TableBytes a → (repStosd false n s).mem a = 0) ∧ SameOutside TableBytes s.mem (repStosd false n s).mem := by
  unfold TableBytes
  obtain ⟨cleared, out⟩ := @repStosd_spec n s zero (by omega)
  rw [edi] at cleared out
  constructor
  · intro a ha
    exact cleared a ha.1 (by omega)
  · apply out.mono
    intro a ha
    omega

theorem clearTables_spec (s : Protected) : (∀ a, TableBytes a → (clearTables false s).mem a = 0) ∧
    SameOutside TableBytes s.mem (clearTables false s).mem := by
  unfold clearTables
  exact @repStosd_tables 3072 { s with edi := pageTableBase, eax := 0 } rfl rfl rfl

theorem linkTables_spec (s : Protected) :
    ((linkTables s).edi = 0x3000 ∧ (linkTables s).eax = 0x83 ∧ (linkTables s).cr3 = 0x1000) ∧
      loadLE (linkTables s).mem 0x1000 4 = 0x2003 ∧ loadLE (linkTables s).mem 0x2000 4 = 0x3003 ∧
      SameOutside (fun a => 0x1000 ≤ a ∧ a < 0x1004 ∨ 0x2000 ≤ a ∧ a < 0x2004) s.mem (linkTables s).mem := by
  unfold linkTables storeDword pageTableBase
  dsimp only
  refine ⟨⟨rfl, rfl, rfl⟩, ?_, ?_, ?_⟩
  · rw [loadLE_storeLE_apart (by omega)]
    exact (loadLE_storeLE_same _ _ _ _).trans (by decide)
  · exact (loadLE_storeLE_same _ _ _ _).trans (by decide)
  · intro a out
    rw [storeLE_out (by omega), storeLE_out (by omega)]

/-- The last table filled over the two that link to it. -/
theorem mapLoop_tables {page n : Nat} {s : Protected} (large : page = largePageSize) (count : n = 512)
    (edi : s.edi = 0x3000) (eax : s.eax = 0x83) (pml4 : loadLE s.mem 0x1000 4 = 0x2003)
    (pdpt : loadLE s.mem 0x2000 4 = 0x3003)
    (zero : ∀ x, 0x1004 ≤ x → x < 0x3000 → ¬ (0x2000 ≤ x ∧ x < 0x2004) → s.mem x = 0) :
    Tables (mapLoop page n s).mem ∧ SameOutside (fun a => 0x3000 ≤ a ∧ a < 0x4000) s.mem (mapLoop page n s).mem ∧
      (mapLoop page n s).cr3 = s.cr3 := by
  have pages : n * page = 0x40000000 := by rw [count, large, largePageSize_eq]
  obtain ⟨pd, out, cr3⟩ := @mapLoop_spec page n s (by omega) (by omega)
  rw [edi] at pd out
  rw [eax] at pd
  generalize mapLoop page n s = s' at *
  have kept : ∀ x, 0x1004 ≤ x → x < 0x3000 → ¬ (0x2000 ≤ x ∧ x < 0x2004) → s'.mem x = 0 := by
    intro x lo hi other
    rw [out x (by omega)]
    exact zero x lo hi other
  rw [← out.loadLE_eq fun a lo hi => by omega] at pml4 pdpt
  refine ⟨⟨?_, ?_, ?_⟩, ?_, cr3⟩
  · intro i hi
    exact linked_table pml4 (fun x lo up => kept x lo (by omega) (by omega)) hi
  · intro i hi
    exact linked_table pdpt (fun x lo up => kept x (by omega) (by omega) (by omega)) hi
  · intro i hi
    rw [← large, Nat.add_comm (i * page)]
    exact pd i (by omega)
  · apply out.mono
    intro a ha
    omega

/-- **`setup_page_tables`** with the direction flag clear, over any memory. -/
theorem setupPageTables_spec (s : Protected) : Tables (setupPageTables false s).mem ∧
    SameOutside TableBytes s.mem (setupPageTables false s).mem ∧ (setupPageTables false s).cr3 = 0x1000 := by
  obtain ⟨cleared, out₁⟩ := clearTables_spec s
  unfold setupPageTables
  generalize clearTables false s = s₁ at *
  obtain ⟨⟨edi, eax, cr3⟩, pml4, pdpt, out₂⟩ := linkTables_spec s₁
  generalize linkTables s₁ = s₂ at *
  obtain ⟨n, count⟩ : ∃ n, n = 512 := ⟨_, rfl⟩
  rw [← count]
  unfold TableBytes at *
  obtain ⟨tables, out₃, kept⟩ := mapLoop_tables rfl count edi eax pml4 pdpt fun x lo hi other => by
    rw [out₂ x (by omega)]
    exact cleared x (by omega)
  refine ⟨tables, ?_, kept.trans cr3⟩
  intro x out
  rw [out₃ x (by omega), out₂ x (by omega)]
  exact out₁ x (by omega)

/-- Whatever the direction flag is, it stays below and far above what the boot loader hands over. -/
theorem setupPageTables_outside (df : Bool) (s : Protected) :
    SameOutside (fun a => a < 0x4000 ∨ 2 ^ 31 ≤ a) s.mem (setupPageTables df s).mem := by
  have out₁ : SameOutside (fun a => a < 0x4000 ∨ 2 ^ 31 ≤ a) s.mem (clearTables df s).mem := by
    obtain ⟨n, count⟩ : ∃ n, n = 3072 := ⟨_, rfl⟩
    unfold clearTables
    rw [← count]
    refine @repStosd_outside df n { s with edi := pageTableBase, eax := 0 } (by omega) (fun _ => ?_)
      fun _ => .inl (Nat.le_refl _)
    show pageTableBase + 4 * n ≤ 0x4000
    unfold pageTableBase
    omega
  unfold setupPageTables
  generalize clearTables df s = s₁ at *
  obtain ⟨⟨edi, eax, -⟩, -, -, out₂⟩ := linkTables_spec s₁
  generalize linkTables s₁ = s₂ at *
  obtain ⟨n, count⟩ : ∃ n, n = 512 := ⟨_, rfl⟩
  have pages : n * largePageSize = 0x40000000 := by rw [count, largePageSize_eq]
  rw [← count]
  obtain ⟨-, out₃, -⟩ := @mapLoop_spec largePageSize n s₂ (by omega) (by omega)
  intro x out
  rw [out₃ x (by omega), out₂ x (by omega)]
  exact out₁ x out

/-! ## What the frame allocator hands out -/

/-- A run of frames lies in the first GiB, in whatever state the allocator is. -/
theorem alloc_low {q : Pmm.State} {count a : Nat} (granted : (Pmm.pmmAllocFrames q count).1 ≠ 0)
    (hi : a < (Pmm.pmmAllocFrames q count).1 + count * 4096) : a < 2 ^ 30 := by
  obtain ⟨start, -, -, run, eq⟩ := Pmm.alloc_granted granted
  have upper := run.upper
  rw [Pmm.frameLimit_eq] at upper
  rw [eq] at hi
  dsimp only at hi
  omega

/-- **Everything handed out is identity mapped.** After `setup_page_tables` on any memory, with the
direction flag clear, and as long as its tables stay, the walk maps the first GiB to itself, present
and writable, and no other canonical address; every byte of every run that `pmm_alloc_frames`
returns, in any state, is mapped to itself. -/
theorem handed_out_mapped (s : Protected) (m : Mem)
    (tables : ∀ a, TableBytes a → m a = (setupPageTables false s).mem a) :
    (∀ v, v < 2 ^ 30 → pageWalk m (setupPageTables false s).cr3 v = some (v, true)) ∧
      (∀ v, Canonical v → 2 ^ 30 ≤ v → pageWalk m (setupPageTables false s).cr3 v = none) ∧
      ∀ q count a, (Pmm.pmmAllocFrames q count).1 ≠ 0 → (Pmm.pmmAllocFrames q count).1 ≤ a →
        a < (Pmm.pmmAllocFrames q count).1 + count * 4096 →
        pageWalk m (setupPageTables false s).cr3 a = some (a, true) := by
  obtain ⟨built, -, cr3⟩ := setupPageTables_spec s
  have now := built.congr tables
  rw [cr3]
  refine ⟨?_, ?_, ?_⟩
  · intro v low
    exact now.identity low
  · intro v canonical high
    exact now.unmapped canonical high
  · intro q count a granted _ hi
    exact now.identity (alloc_low granted hi)

theorem handed_out_mapped_cleared :
    pageWalk (setupPageTables false ⟨0, 0, 0, 0, fun _ => 0⟩).mem
      (setupPageTables false ⟨0, 0, 0, 0, fun _ => 0⟩).cr3 0x100000 = some (0x100000, true) := by
  obtain ⟨low, -⟩ := handed_out_mapped ⟨0, 0, 0, 0, fun _ => 0⟩ _ fun _ _ => rfl
  exact low 0x100000 (by decide)

end SimpleKernel.Boot
