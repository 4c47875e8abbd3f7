import SimpleKernel.Kstring
import SimpleKernel.Lib.CString
import Mathlib.Tactic.Common

/-!
# `cpuinfo.c`: the processor's name and signature

The vendor string is three registers side by side. The signature has four bits each for a family and
a model, and more bits for those that do not fit: a processor with family `0xF` or above adds the
extended family, and the extended model belongs to the model. `cpu_info_read` adds it for the
families `0x6` and `0xF` only, and this loses nothing exactly for those and for models that fit four
bits (`cpu_signature_iff`).
-/

namespace SimpleKernel.Cpuinfo
set_option autoImplicit false
open Lib Kstring

/-- What `cpuid` leaves in the registers. -/
structure Registers where
  eax : BitVec 32
  ebx : BitVec 32
  ecx : BitVec 32
  edx : BitVec 32

/-- The answers by leaf and subleaf. -/
abbrev Cpuid := BitVec 32 → BitVec 32 → Registers

/-- `cpu_info_t`. -/
structure CpuInfo where
  vendor : Mem
  family : BitVec 32
  model : BitVec 32
  stepping : BitVec 32
  apicPresent : BitVec 8
  msrSupported : BitVec 8

/-- `vendor[0]` to `vendor[12]`, over bytes that `kmemset` has cleared. -/
def readVendor (cpuid : Cpuid) (vendor : Mem) : Mem :=
  let r := cpuid 0 0
  let m := storeLE vendor 0 4 r.ebx.toNat
  let m := storeLE m 4 4 r.edx.toNat
  let m := storeLE m 8 4 r.ecx.toNat
  storeByte m 12 0

/-- What is left in `*info`; `info` is not null. -/
def cpuInfoRead (cpuid : Cpuid) : CpuInfo :=
  let vendor := readVendor cpuid fun _ => 0
  let r := cpuid 1 0
  let baseFamily := (r.eax >>> 8) &&& 0xF#32
  let extFamily := (r.eax >>> 20) &&& 0xFF#32
  let baseModel := (r.eax >>> 4) &&& 0xF#32
  let extModel := (r.eax >>> 16) &&& 0xF#32
  { vendor
    family := if baseFamily = 0xF then baseFamily + extFamily else baseFamily
    model := if baseFamily = 0x6 ∨ baseFamily = 0xF then baseModel ||| extModel <<< 4 else baseModel
    stepping := r.eax &&& 0xF#32
    apicPresent := if (r.edx >>> 9) &&& 1#32 ≠ 0 then 1 else 0
    msrSupported := if (r.edx >>> 5) &&& 1#32 ≠ 0 then 1 else 0 }

/-! ## The signature -/

/-- A processor's signature: `kind` and `high` stand for the bits that are none of the three's. -/
structure Signature where
  family : Nat
  model : Nat
  stepping : Nat
  kind : Nat
  high : Nat
  familyBound : family ≤ 0xF + 0xFF
  modelBound : model < 0x100
  steppingBound : stepping < 0x10
  kindBound : kind < 0x10
  highBound : high < 0x10

/-- How a processor reports it: what does not fit goes to the extended fields. -/
def Signature.eax (s : Signature) : Nat :=
  s.stepping + 0x10 * (s.model % 0x10 + 0x10 * (min s.family 0xF + 0x10 * (s.kind + 0x10 * (s.model / 0x10 +
    0x10 * (s.family - 0xF + 0x100 * s.high)))))

section

variable {s : Signature} {cpuid : Cpuid}

/-- Digits in base 16, from the low one on. -/
theorem hex_digits {a b c d e f n : Nat} (ha : a < 16) (hb : b < 16) (hc : c < 16) (hd : d < 16) (he : e < 16)
    (eq : n = a + 16 * (b + 16 * (c + 16 * (d + 16 * (e + 16 * f))))) :
    n % 16 = a ∧ n / 16 % 16 = b ∧ n / 256 % 16 = c ∧ n / 65536 % 16 = e ∧ n / 1048576 = f := by
  have first : n / 16 = b + 16 * (c + 16 * (d + 16 * (e + 16 * f))) := by omega
  have second : n / 256 = c + 16 * (d + 16 * (e + 16 * f)) := by
    rw [show 256 = 16 * 16 from rfl, ← Nat.div_div_eq_div_mul, first]
    omega
  have third : n / 4096 = d + 16 * (e + 16 * f) := by
    rw [show 4096 = 256 * 16 from rfl, ← Nat.div_div_eq_div_mul, second]
    omega
  have fourth : n / 65536 = e + 16 * f := by
    rw [show 65536 = 4096 * 16 from rfl, ← Nat.div_div_eq_div_mul, third]
    omega
  have fifth : n / 1048576 = f := by
    rw [show 1048576 = 65536 * 16 from rfl, ← Nat.div_div_eq_div_mul, fourth]
    omega
  refine ⟨?_, ?_, ?_, ?_, fifth⟩ <;> omega

theorem Signature.digits (s : Signature) :
    s.eax % 16 = s.stepping ∧ s.eax / 16 % 16 = s.model % 0x10 ∧ s.eax / 256 % 16 = min s.family 0xF ∧
      s.eax / 65536 % 16 = s.model / 0x10 ∧ s.eax / 1048576 = s.family - 0xF + 0x100 * s.high := by
  have := s.modelBound
  exact hex_digits s.steppingBound (Nat.mod_lt _ (by decide)) (by omega) s.kindBound (by omega) rfl

theorem Signature.eax_lt (s : Signature) : s.eax < 2 ^ 32 := by
  have top := s.digits.2.2.2.2
  have := s.familyBound
  have := s.highBound
  omega

/-- A field of `n` bits at bit `k`. -/
theorem field_toNat (v : BitVec 32) {k n mask : Nat} (ones : mask = 2 ^ n - 1) (small : mask < 2 ^ 32) :
    ((v >>> k) &&& BitVec.ofNat 32 mask).toNat = v.toNat / 2 ^ k % 2 ^ n := by
  rw [BitVec.toNat_and, BitVec.toNat_ushiftRight, BitVec.toNat_ofNat, Nat.mod_eq_of_lt small, ones,
    Nat.and_two_pow_sub_one_eq_mod, Nat.shiftRight_eq_div_pow]

/-- What `cpu_info_read` takes from the signature. -/
theorem signature_fields (s : Signature) :
    ((BitVec.ofNat 32 s.eax >>> 8) &&& 0xF#32).toNat = min s.family 0xF ∧
    ((BitVec.ofNat 32 s.eax >>> 20) &&& 0xFF#32).toNat = s.family - 0xF ∧
    ((BitVec.ofNat 32 s.eax >>> 4) &&& 0xF#32).toNat = s.model % 0x10 ∧
    ((BitVec.ofNat 32 s.eax >>> 16) &&& 0xF#32).toNat = s.model / 0x10 ∧
    (BitVec.ofNat 32 s.eax &&& 0xF#32).toNat = s.stepping := by
  have value : (BitVec.ofNat 32 s.eax).toNat = s.eax := by rw [BitVec.toNat_ofNat, Nat.mod_eq_of_lt s.eax_lt]
  have bound := s.familyBound
  have family := @field_toNat (BitVec.ofNat 32 s.eax) 8 4 0xF (by decide) (by decide)
  have ext := @field_toNat (BitVec.ofNat 32 s.eax) 20 8 0xFF (by decide) (by decide)
  have low := @field_toNat (BitVec.ofNat 32 s.eax) 4 4 0xF (by decide) (by decide)
  have high := @field_toNat (BitVec.ofNat 32 s.eax) 16 4 0xF (by decide) (by decide)
  have stepping := @field_toNat (BitVec.ofNat 32 s.eax) 0 4 0xF (by decide) (by decide)
  rw [BitVec.ushiftRight_zero] at stepping
  obtain ⟨d₀, d₁, d₂, d₄, d₅⟩ := s.digits
  rw [family, ext, low, high, stepping, value]
  simp only [Nat.reducePow]
  refine ⟨d₂, ?_, d₁, d₄, ?_⟩
  · rw [d₅]
    omega
  · rw [Nat.div_one]
    exact d₀

/-- The two halves of a model side by side. -/
theorem model_halves {low high : BitVec 32} (lowSmall : low.toNat < 16) (highSmall : high.toNat < 16) :
    (low ||| high <<< 4).toNat = low.toNat + 16 * high.toNat := by
  have shifted : (high <<< 4).toNat = 16 * high.toNat := by
    rw [BitVec.toNat_shiftLeft, Nat.shiftLeft_eq]
    omega
  rw [BitVec.toNat_or, shifted, Nat.or_comm, show 16 * high.toNat = 2 ^ 4 * high.toNat by rfl,
    ← Nat.two_pow_add_eq_or_of_lt (by omega)]
  omega

/-- **The family and the stepping are always right.** -/
theorem cpuInfoRead_family (answer : (cpuid 1 0).eax = BitVec.ofNat 32 s.eax) :
    (cpuInfoRead cpuid).family.toNat = s.family ∧ (cpuInfoRead cpuid).stepping.toNat = s.stepping := by
  obtain ⟨base, ext, -, -, stepping⟩ := signature_fields s
  have bound := s.familyBound
  unfold cpuInfoRead
  dsimp only
  rw [answer]
  refine ⟨?_, stepping⟩
  split
  · rename_i full
    rw [full] at base ⊢
    have fifteen : BitVec.toNat (15 : BitVec 32) = 15 := rfl
    rw [fifteen] at base
    rw [BitVec.toNat_add, ext, fifteen]
    omega
  · rename_i part
    rw [base]
    have less : min s.family 0xF ≠ 15 := fun same => part (BitVec.eq_of_toNat_eq (base.trans same))
    omega

/-- The model, with its upper half for some families. -/
theorem cpuInfoRead_model (answer : (cpuid 1 0).eax = BitVec.ofNat 32 s.eax) :
    (cpuInfoRead cpuid).model.toNat = if s.family = 6 ∨ 0xF ≤ s.family then s.model else s.model % 0x10 := by
  obtain ⟨base, -, low, high, -⟩ := signature_fields s
  have bound := s.modelBound
  unfold cpuInfoRead
  dsimp only
  rw [answer]
  have six : (BitVec.ofNat 32 s.eax >>> 8) &&& 0xF#32 = 0x6 ↔ s.family = 6 := by
    rw [← BitVec.toNat_inj, base]
    show min s.family 15 = 6 ↔ _
    omega
  have fifteen : (BitVec.ofNat 32 s.eax >>> 8) &&& 0xF#32 = 0xF ↔ 0xF ≤ s.family := by
    rw [← BitVec.toNat_inj, base]
    show min s.family 15 = 15 ↔ _
    omega
  simp only [six, fifteen]
  split
  · rw [model_halves (by omega) (by omega), low, high]
    omega
  · exact low

/-- The three registers side by side, and a NUL. -/
theorem readVendor_spec (cpuid : Cpuid) (m : Mem) :
    loadLE (readVendor cpuid m) 0 4 = (cpuid 0 0).ebx.toNat ∧ loadLE (readVendor cpuid m) 4 4 = (cpuid 0 0).edx.toNat ∧
      loadLE (readVendor cpuid m) 8 4 = (cpuid 0 0).ecx.toNat ∧ readVendor cpuid m 12 = 0 := by
  have word : ∀ v : BitVec 32, v.toNat % 256 ^ 4 = v.toNat := fun v =>
    Nat.mod_eq_of_lt (Nat.lt_of_lt_of_eq v.isLt (by decide))
  unfold readVendor
  dsimp only
  refine ⟨?_, ?_, ?_, storeByte_self _ _ _⟩
  · rw [loadLE_storeByte_apart (by omega), loadLE_storeLE_apart (by omega), loadLE_storeLE_apart (by omega),
      loadLE_storeLE_same, word]
  · rw [loadLE_storeByte_apart (by omega), loadLE_storeLE_apart (by omega), loadLE_storeLE_same, word]
  · rw [loadLE_storeByte_apart (by omega), loadLE_storeLE_same, word]

end

/-- **When the signature is read right.** The vendor is the text of three registers. Whatever the
other bits are, `cpu_info_read` finds the family and the stepping that the processor reports; it
finds the model exactly when it fits four bits or the family is 6, 15 or above. -/
theorem cpu_signature_iff (s : Signature) (cpuid : Cpuid) (answer : (cpuid 1 0).eax = BitVec.ofNat 32 s.eax) :
    (loadLE (cpuInfoRead cpuid).vendor 0 4 = (cpuid 0 0).ebx.toNat ∧
      loadLE (cpuInfoRead cpuid).vendor 4 4 = (cpuid 0 0).edx.toNat ∧
      loadLE (cpuInfoRead cpuid).vendor 8 4 = (cpuid 0 0).ecx.toNat ∧ (cpuInfoRead cpuid).vendor 12 = 0) ∧
    (cpuInfoRead cpuid).family.toNat = s.family ∧ (cpuInfoRead cpuid).stepping.toNat = s.stepping ∧
    ((cpuInfoRead cpuid).model.toNat = s.model ↔ s.model < 0x10 ∨ s.family = 6 ∨ 0xF ≤ s.family) := by
  obtain ⟨family, stepping⟩ := cpuInfoRead_family answer
  refine ⟨readVendor_spec cpuid _, family, stepping, ?_⟩
  rw [cpuInfoRead_model answer]
  split <;> omega

/-- Family 6, model 94, stepping 3. -/
def skylake : Signature := ⟨6, 0x5E, 3, 0, 0, by decide, by decide, by decide, by decide, by decide⟩

theorem cpu_signature_iff_skylake : (cpuInfoRead fun _ _ => ⟨0x506E3, 0, 0, 0⟩).family.toNat = 6 ∧
    (cpuInfoRead fun _ _ => ⟨0x506E3, 0, 0, 0⟩).model.toNat = 0x5E := by
  obtain ⟨-, family, -, model⟩ := cpu_signature_iff skylake (fun _ _ => ⟨0x506E3, 0, 0, 0⟩) (by decide)
  exact ⟨family, model.2 (.inr (.inl rfl))⟩

end SimpleKernel.Cpuinfo
