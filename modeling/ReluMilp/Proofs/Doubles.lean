import Mathlib
import ReluMilp.Value

/-!
# Doubles and their order

A double is read from its bits in two ways: as `Parts`, which numbers are written and rounded with, and as the
unpacked number that comparisons are defined on. They say the same, so a sign that is read from the bits is the
sign that a comparison with zero sees.

* `exponent_toNat`, `mantissa_toNat`, `sign_toNat` — the fields of the bits;
* `Parts.ofUnpacked`, `ofFloat_eq` — the parts of a double are those of the unpacked number;
* `nonneg_or_isNaN`, `not_lt_zero`, `nonneg_of_finite`, `negative_of_finite` — the order at zero;
* `BinaryFormat.nearest_bounded` — a rounded significand and its exponent fit into the format;
* `ofFloat_toFloat_positive` — what is written without a sign is read without one;
* `ofWhole_nonneg` — a whole number that is not negative is nearest to a double that is not negative.

Mathlib is imported whole for the lemmas on packing what was unpacked, which none of its modules gives alone.
-/

namespace ReluMilp

open Float.Model Float.Model.UnpackedFloat

/-! ### Fields of the bits -/

theorem exponent_toNat (b : UInt64) :
    (@unpackExponent .binary64 b.toBitVec).toNat = b.toNat / 2 ^ 52 % 2 ^ 11 := by
  simp [unpackExponent, Nat.shiftRight_eq_div_pow]

theorem mantissa_toNat (b : UInt64) : (@unpackMantissa .binary64 b.toBitVec).toNat = b.toNat % 2 ^ 52 := by
  simp [unpackMantissa]

theorem sign_toNat (b : UInt64) : (@unpackSign .binary64 b.toBitVec).toNat = b.toNat / 2 ^ 63 % 2 := by
  simp [unpackSign, Nat.shiftRight_eq_div_pow]

/-- Whether a sign is the negative one. -/
def isMinus : Sign → Bool
  | .negative => true
  | .positive => false

theorem isMinus_ofBitVec (b : UInt64) :
    isMinus (.ofBitVec (@unpackSign .binary64 b.toBitVec)) = decide (Nat.pow 2 63 ≤ b.toNat) := by
  have hsign := sign_toNat b
  have hlt : b.toNat < 2 ^ 64 := b.toNat_lt
  show _ = decide (2 ^ 63 ≤ b.toNat)
  unfold Sign.ofBitVec
  by_cases hneg : 2 ^ 63 ≤ b.toNat
  · have hbit : ¬ @unpackSign .binary64 b.toBitVec = 0#1 := by
      intro hzero
      rw [hzero, BitVec.toNat_ofNat] at hsign
      omega
    rw [if_neg hbit, decide_eq_true hneg]
    rfl
  · have hbit : @unpackSign .binary64 b.toBitVec = 0#1 := by
      apply BitVec.eq_of_toNat_eq
      rw [hsign, BitVec.toNat_ofNat]
      omega
    rw [if_pos hbit, decide_eq_false hneg]
    rfl

/-! ### Parts of the unpacked number -/

/-- The parts of an unpacked number. -/
def Parts.ofUnpacked : UnpackedFloat → Parts
  | .infinity s => .infinite (isMinus s)
  | .notANumber => .undefined
  | .zero s => .finite (isMinus s) 0 (-1074)
  | .finite s m e _ => .finite (isMinus s) m e

/-- Reading the bits and unpacking them give the same parts. -/
theorem ofFloat_eq (x : Float) : Parts.ofFloat x = .ofUnpacked x.toModel.unpack := by
  have hones : @unpackExponent .binary64 x.toBits.toBitVec = -1#_ ↔
      x.toBits.toNat / 2 ^ 52 % 2 ^ 11 = 2047 := by
    rw [← exponent_toNat, ← BitVec.toNat_inj]
    rfl
  have hzero : @unpackExponent .binary64 x.toBits.toBitVec = 0#_ ↔
      x.toBits.toNat / 2 ^ 52 % 2 ^ 11 = 0 := by
    rw [← exponent_toNat, ← BitVec.toNat_inj]
    rfl
  have hfraction : @unpackMantissa .binary64 x.toBits.toBitVec = 0#_ ↔ x.toBits.toNat % 2 ^ 52 = 0 := by
    rw [← mantissa_toNat, ← BitVec.toNat_inj]
    rfl
  have hhidden : (1#1 ++ @unpackMantissa .binary64 x.toBits.toBitVec).toNat =
      2 ^ 52 + x.toBits.toNat % 2 ^ 52 := by
    rw [BitVec.toNat_append, ← Nat.shiftLeft_add_eq_or_of_lt (BitVec.isLt _), mantissa_toNat,
      Nat.shiftLeft_eq]
    rfl
  show Parts.ofFloat x = .ofUnpacked (unpack .binary64 x.toBits.toBitVec)
  unfold Parts.ofFloat UnpackedFloat.unpack
  dsimp only
  rw [← isMinus_ofBitVec]
  by_cases h1 : x.toBits.toNat / 2 ^ 52 % 2 ^ 11 = 2047
  · rw [if_pos (hones.2 h1)]
    show (if x.toBits.toNat / 2 ^ 52 % 2 ^ 11 = 2047 then _ else _) = _
    rw [if_pos h1]
    by_cases hf : x.toBits.toNat % 2 ^ 52 = 0
    · rw [if_pos (hfraction.2 hf)]
      exact if_pos hf
    · rw [if_neg (mt hfraction.1 hf)]
      exact if_neg hf
  · rw [if_neg (mt hones.1 h1)]
    show (if x.toBits.toNat / 2 ^ 52 % 2 ^ 11 = 2047 then _ else _) = _
    rw [if_neg h1]
    by_cases h0 : x.toBits.toNat / 2 ^ 52 % 2 ^ 11 = 0
    · rw [if_pos (hzero.2 h0)]
      show (if x.toBits.toNat / 2 ^ 52 % 2 ^ 11 = 0 then _ else _) = _
      rw [if_pos h0]
      by_cases hf : x.toBits.toNat % 2 ^ 52 = 0
      · rw [dif_pos (hfraction.2 hf)]
        show Parts.finite _ (x.toBits.toNat % 2 ^ 52) _ = _
        rw [hf]
        rfl
      · rw [dif_neg (mt hfraction.1 hf)]
        show Parts.finite _ (x.toBits.toNat % 2 ^ 52) _ = Parts.finite _ _ _
        rw [mantissa_toNat, exponent_toNat, h0]
        rfl
    · rw [if_neg (mt hzero.1 h0)]
      show (if x.toBits.toNat / 2 ^ 52 % 2 ^ 11 = 0 then _ else _) = _
      rw [if_neg h0]
      show Parts.finite _ (2 ^ 52 + x.toBits.toNat % 2 ^ 52) _ = Parts.finite _ _ _
      rw [hhidden, exponent_toNat]
      rfl

/-! ### Order at zero -/

theorem unpack_zero : (0 : Float).toModel.unpack = .zero .positive :=
  (unpack_eq_zero_iff_of_valid (0 : Float).toModel.valid).2 (by decide)

theorem lt_zero_iff {x : Float} : x < 0 ↔ x.toModel.unpack.lt (.zero .positive) = true := by
  rw [← unpack_zero]
  exact decide_eq_true_iff

theorem zero_le_iff {x : Float} : 0 ≤ x ↔ UnpackedFloat.le (.zero .positive) x.toModel.unpack = true := by
  rw [← unpack_zero]
  exact decide_eq_true_iff

/-- A double that is not below zero is at least zero, or it is no number. -/
theorem nonneg_or_isNaN {x : Float} (h : ¬ x < 0) : 0 ≤ x ∨ x.isNaN = true := by
  rw [lt_zero_iff] at h
  rw [zero_le_iff, show x.isNaN = x.toModel.unpack.isNaN from rfl]
  generalize x.toModel.unpack = u at h ⊢
  cases u with
  | notANumber => exact .inr rfl
  | infinity s =>
    cases s with
    | negative => exact absurd rfl h
    | positive => exact .inl rfl
  | zero s => exact .inl rfl
  | finite s m e hm =>
    cases s with
    | negative => exact absurd rfl h
    | positive => exact .inl rfl

/-- Neither numbers from zero on nor undefined ones are below zero. -/
theorem not_lt_zero {x : Float} (h : 0 ≤ x ∨ x.isNaN = true) : ¬ x < 0 := by
  rw [zero_le_iff, show x.isNaN = x.toModel.unpack.isNaN from rfl] at h
  rw [lt_zero_iff]
  generalize x.toModel.unpack = u at h ⊢
  rcases h with h | h
  · cases u with
    | notANumber => cases h
    | infinity s =>
      cases s with
      | negative => cases h
      | positive => decide
    | zero s => cases s <;> decide
    | finite s m e hm =>
      cases s with
      | negative => cases h
      | positive => simp [UnpackedFloat.lt, UnpackedFloat.compare]
  · cases u with
    | notANumber => decide
    | infinity s => cases h
    | zero s => cases h
    | finite s m e hm => cases h

/-- A double that is read without a sign is not negative. -/
theorem nonneg_of_finite {x : Float} {m : Nat} {q : Int} (h : Parts.ofFloat x = .finite false m q) : 0 ≤ x := by
  rw [ofFloat_eq] at h
  rw [zero_le_iff]
  generalize x.toModel.unpack = u at h ⊢
  cases u with
  | notANumber => cases h
  | infinity s => cases h
  | zero s => rfl
  | finite s m e hm =>
    cases s with
    | negative => cases h
    | positive => rfl

/-- A double that is read with a sign is negative, unless it is zero. -/
theorem negative_of_finite {x : Float} {m : Nat} {q : Int} (h : Parts.ofFloat x = .finite true m q)
    (hm : m ≠ 0) : x < 0 := by
  rw [ofFloat_eq] at h
  rw [lt_zero_iff]
  generalize x.toModel.unpack = u at h ⊢
  cases u with
  | notANumber => cases h
  | infinity s => cases h
  | zero s =>
    cases s with
    | negative => cases h; exact absurd rfl hm
    | positive => cases h
  | finite s m e hm =>
    cases s with
    | negative => rfl
    | positive => cases h

/-! ### Rounded numbers -/

theorem roundDiv_le (a b : Nat) : roundDiv a b ≤ a / b + 1 := by
  unfold roundDiv
  dsimp only
  split
  · omega
  · split
    · omega
    · split <;> omega

namespace BinaryFormat

/-- A quotient divided by a power of two. -/
def scaled (num den : Nat) (q : Int) : Nat × Nat :=
  if 0 ≤ q then (num, den * Nat.pow 2 q.toNat) else (num * Nat.pow 2 (-q).toNat, den)

/-- The exponent that a quotient is rounded with. -/
def place (f : BinaryFormat) (num den : Nat) : Int :=
  let guess : Int := (num.log2 : Int) - den.log2 - f.precision
  let q :=
    if (scaled num den guess).1 < Nat.pow 2 f.precision * (scaled num den guess).2 then guess else guess + 1
  if q < f.least then f.least else q

variable {f : BinaryFormat} {num den : Nat}

/-- The rounded significand; if it became too long, one bit shorter. -/
theorem nearest_eq (h : num ≠ 0) : f.nearest num den =
    let q := f.place num den
    let m := roundDiv (scaled num den q).1 (scaled num den q).2
    let r := if m = Nat.pow 2 f.precision then (Nat.pow 2 (f.precision - 1), q + 1) else (m, q)
    if f.greatest < r.2 then none else some r := by
  unfold nearest
  rw [if_neg h]
  simp only [decide_eq_true_eq]
  rfl

/-- From the estimate of the exponent on, a quotient is below the bound of significands. -/
theorem scaled_lt {p : Nat} {q : Int} (hden : den ≠ 0) (hq : (num.log2 : Int) - den.log2 - p + 1 ≤ q) :
    (scaled num den q).1 < 2 ^ p * (scaled num den q).2 := by
  have hnum : num < 2 ^ (num.log2 + 1) := Nat.lt_log2_self
  have hdown : 2 ^ den.log2 ≤ den := Nat.log2_self_le hden
  unfold scaled
  by_cases h0 : 0 ≤ q
  · rw [if_pos h0]
    have hpow : num.log2 + 1 ≤ p + (den.log2 + q.toNat) := by omega
    calc num < 2 ^ (num.log2 + 1) := hnum
      _ ≤ 2 ^ (p + (den.log2 + q.toNat)) := Nat.pow_le_pow_right (by omega) hpow
      _ = 2 ^ p * (2 ^ den.log2 * 2 ^ q.toNat) := by rw [pow_add, pow_add]
      _ ≤ 2 ^ p * (den * 2 ^ q.toNat) := Nat.mul_le_mul_left _ (Nat.mul_le_mul_right _ hdown)
  · rw [if_neg h0]
    have hpow : num.log2 + 1 + (-q).toNat ≤ p + den.log2 := by omega
    calc num * 2 ^ (-q).toNat < 2 ^ (num.log2 + 1) * 2 ^ (-q).toNat :=
          Nat.mul_lt_mul_of_pos_right hnum (by positivity)
      _ = 2 ^ (num.log2 + 1 + (-q).toNat) := (pow_add _ _ _).symm
      _ ≤ 2 ^ (p + den.log2) := Nat.pow_le_pow_right (by omega) hpow
      _ = 2 ^ p * 2 ^ den.log2 := pow_add _ _ _
      _ ≤ 2 ^ p * den := Nat.mul_le_mul_left _ hdown

theorem place_spec (f : BinaryFormat) (num : Nat) (hden : den ≠ 0) :
    f.least ≤ f.place num den ∧ (scaled num den (f.place num den)).1 <
      2 ^ f.precision * (scaled num den (f.place num den)).2 := by
  obtain ⟨guess, hguess⟩ : ∃ guess : Int, guess = (num.log2 : Int) - den.log2 - f.precision := ⟨_, rfl⟩
  obtain ⟨q, hq⟩ : ∃ q, q =
      if (scaled num den guess).1 < 2 ^ f.precision * (scaled num den guess).2 then guess else guess + 1 :=
    ⟨_, rfl⟩
  have hplace : f.place num den = if q < f.least then f.least else q := by
    rw [hq, hguess]
    rfl
  have hinner : guess ≤ q ∧ (scaled num den q).1 < 2 ^ f.precision * (scaled num den q).2 := by
    split at hq
    · rename_i hfits
      rw [hq]
      exact ⟨le_rfl, hfits⟩
    · exact ⟨by omega, scaled_lt hden (by omega)⟩
  rw [hplace]
  split
  · exact ⟨le_rfl, scaled_lt hden (by omega)⟩
  · exact ⟨by omega, hinner.2⟩

/-- The significand and the exponent of a rounded quotient are those of a value of the format. -/
theorem nearest_bounded (hprecision : 0 < f.precision) (hrange : f.least ≤ f.greatest) (hden : den ≠ 0)
    {m : Nat} {q : Int} (h : f.nearest num den = some (m, q)) :
    m < 2 ^ f.precision ∧ f.least ≤ q ∧ q ≤ f.greatest := by
  have hpow : 2 ^ (f.precision - 1) < 2 ^ f.precision := Nat.pow_lt_pow_right (by omega) (by omega)
  by_cases h0 : num = 0
  · rw [nearest, if_pos h0] at h
    cases h
    exact ⟨by positivity, le_rfl, hrange⟩
  · obtain ⟨hleast, hfits⟩ := f.place_spec num hden
    rw [nearest_eq h0] at h
    dsimp only at h
    generalize f.place num den = q' at h hleast hfits
    have hquot : (scaled num den q').1 / (scaled num den q').2 < 2 ^ f.precision :=
      Nat.div_lt_of_lt_mul (by rwa [mul_comm] at hfits)
    have hround := roundDiv_le (scaled num den q').1 (scaled num den q').2
    by_cases hlong : roundDiv (scaled num den q').1 (scaled num den q').2 = Nat.pow 2 f.precision
    · rw [if_pos hlong] at h
      split at h
      · cases h
      · rename_i hgreatest
        cases h
        exact ⟨hpow, by omega, not_lt.1 hgreatest⟩
    · rw [if_neg hlong] at h
      split at h
      · cases h
      · rename_i hgreatest
        cases h
        change ¬ _ = 2 ^ f.precision at hlong
        exact ⟨by omega, hleast, not_lt.1 hgreatest⟩

end BinaryFormat

/-! ### Written numbers -/

/-- Bits that are no bits of an undefined number or of an infinity are kept. -/
theorem toBits_ofBits {b : UInt64} (h : b.toNat / 2 ^ 52 % 2 ^ 11 ≠ 2047) : (Float.ofBits b).toBits = b := by
  have hvalid : Float.Model.Format.binary64.Valid b.toBitVec := by
    refine ⟨fun hones _ => absurd ?_ h⟩
    rw [← exponent_toNat, hones]
    rfl
  show UInt64.ofBitVec (UnpackedFloat.pack .binary64 (unpack .binary64 b.toBitVec)) = b
  rw [pack_unpack_of_valid hvalid]

/-- What is written without a sign is read without one. -/
theorem ofFloat_toFloat_positive {m : Nat} {q : Int} (hm : m < 2 ^ 53) (hq : q ≤ 971) :
    ∃ m' q', Parts.ofFloat (Parts.finite false m q).toFloat = .finite false m' q' := by
  obtain ⟨magnitude, hmagnitude, hwritten⟩ : ∃ n : Nat, n < 2047 * 2 ^ 52 ∧
      (Parts.finite false m q).toFloat = Float.ofBits (.ofNat n) := by
    refine ⟨0 + if m < Nat.pow 2 52 then m else (q + 1075).toNat * Nat.pow 2 52 + (m - Nat.pow 2 52), ?_, rfl⟩
    show 0 + (if m < 2 ^ 52 then m else (q + 1075).toNat * 2 ^ 52 + (m - 2 ^ 52)) < _
    have hplace : (q + 1075).toNat ≤ 2046 := by omega
    split <;> omega
  have hbits : (UInt64.ofNat magnitude).toNat = magnitude := by
    rw [UInt64.toNat_ofNat']
    omega
  have hkept : (Float.ofBits (.ofNat magnitude)).toBits.toNat = magnitude := by
    rw [toBits_ofBits (by rw [hbits]; omega), hbits]
  have hexponent : ¬ magnitude / Nat.pow 2 52 % Nat.pow 2 11 = 2047 := by
    show ¬ magnitude / 2 ^ 52 % 2 ^ 11 = 2047
    omega
  have hsign : decide (Nat.pow 2 63 ≤ magnitude) = false := by
    show decide (2 ^ 63 ≤ magnitude) = false
    rw [decide_eq_false_iff_not]
    omega
  rw [hwritten]
  unfold Parts.ofFloat
  rw [hkept]
  dsimp only
  rw [hsign, if_neg hexponent]
  split
  · exact ⟨_, _, rfl⟩
  · exact ⟨_, _, rfl⟩

/-- The double nearest to a whole number that is not negative is not negative. -/
theorem ofWhole_nonneg {n : Int} {x : Float} (hn : 0 ≤ n) (h : Value.ofWhole n = .ok x) : 0 ≤ x := by
  unfold Value.ofWhole at h
  rw [decide_eq_false (not_lt.2 hn)] at h
  unfold Parts.ofQuotient at h
  cases hnearest : BinaryFormat.double.nearest n.natAbs 1 with
  | none =>
    rw [hnearest] at h
    cases h
  | some r =>
    obtain ⟨m, q⟩ := r
    rw [hnearest] at h
    obtain ⟨hm, -, hq⟩ := BinaryFormat.nearest_bounded (by decide) (by decide) one_ne_zero hnearest
    obtain ⟨m', q', hread⟩ := ofFloat_toFloat_positive hm hq
    cases h
    exact nonneg_of_finite hread

end ReluMilp
