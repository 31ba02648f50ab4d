import Mathlib
import DocStore.Proofs.Number.Rounding

/-!
# Whole numbers as floats

The float of a whole number of 64 bits is the number rounded to 53 significant bits, and two such
floats stand in the order of the rounded numbers.
-/

namespace DocStore.Doubles

open DocStore.Rounding
open Float.Model (Format totalExponent UnpackedFloat)
open Float.Model.UnpackedFloat

variable {j k m n : ℕ} {e : ℤ} {f g : UnpackedFloat} {u v x y : ℤ}

/-- The mantissa is `n` without its last `k` bits, which are told by the two other bits: whether
they are at least a half, and whether they are neither zero nor exactly a half. -/
structure Shifted (em : ExtendedMantissa) (n k : ℕ) : Prop where
  mantissa : em.mantissa = n / 2 ^ k
  half : em.roundBit = true ↔ 2 ^ k ≤ 2 * (n % 2 ^ k)
  inexact : em.stickyBit = true ↔ n % 2 ^ k ≠ 0 ∧ 2 * (n % 2 ^ k) ≠ 2 ^ k

theorem Shifted.step {em : ExtendedMantissa} (h : Shifted em n k) :
    Shifted em.shiftRightOne n (k + 1) := by
  have hr : n % 2 ^ k < 2 ^ k := Nat.mod_lt _ (Nat.two_pow_pos k)
  have hmod : n % 2 ^ (k + 1) = n % 2 ^ k + 2 ^ k * (n / 2 ^ k % 2) := Nat.mod_pow_succ
  have hbit : n / 2 ^ k % 2 = 0 ∨ n / 2 ^ k % 2 = 1 := by omega
  refine ⟨?_, ?_, ?_⟩
  · rw [ExtendedMantissa.shiftRightOne, h.mantissa, Nat.div_div_eq_div_mul, Nat.pow_succ]
  · rw [ExtendedMantissa.shiftRightOne, h.mantissa, bne_iff_ne, hmod, Nat.pow_succ]
    rcases hbit with hb | hb <;> rw [hb] <;> omega
  · rw [ExtendedMantissa.shiftRightOne, Bool.or_eq_true, h.half, h.inexact, hmod, Nat.pow_succ]
    rcases hbit with hb | hb <;> rw [hb] <;> omega

theorem shifted (n k : ℕ) :
    Shifted (ExtendedMantissa.ofMantissaAndAccuracy n .exact >>> k) n k := by
  induction k with
  | zero =>
    refine ⟨(Nat.div_one n).symm, ⟨nofun, fun h => ?_⟩, ⟨nofun, fun h => ?_⟩⟩ <;> omega
  | succ k ih => exact ih.step

theorem Shifted.roundedMantissa {em : ExtendedMantissa} (h : Shifted em n k) :
    em.roundedMantissa = quotient n k := by
  have hpos : 0 < 2 ^ k := Nat.two_pow_pos k
  obtain ⟨hm, hh, hi⟩ := h
  obtain ⟨m, half, inexact⟩ := em
  obtain rfl : m = n / 2 ^ k := hm
  cases half <;> cases inexact <;> simp only [Bool.false_eq_true, true_iff, false_iff] at hh hi
  · exact (if_pos (by omega)).symm
  · exact (if_pos (by omega)).symm
  · rw [quotient, if_neg (by omega), if_neg (by omega)]
    rfl
  · rw [quotient, if_neg (by omega), if_pos (by omega)]
    rfl

/-- The 53 bits of a positive number with the place of the last one. A carry out of them moves it
by one place. -/
def rounded (n : ℕ) : UnpackedFloat :=
  if h : n = 0 then .zero .positive
  else if significand n < 2 ^ 53 then
    .finite .positive (significand n) (n.log2 - 52)
      (Nat.lt_of_lt_of_le (Nat.two_pow_pos 52) (le_significand h))
  else .finite .positive (2 ^ 52) (n.log2 - 51) (Nat.two_pow_pos 52)

theorem targetExponent_eq (m : ℕ) (e : ℤ) :
    Format.binary64.targetExponent (totalExponent m e) = max (m.log2 + e - 52) (-1074) := by
  simp only [Format.targetExponent, totalExponent, Format.mantissaBits, Format.minExponent]
  omega

theorem shiftToTargetExponent_eq (accuracy : Accuracy) (h : max (m.log2 + e - 52) (-1074) = e + k) :
    shiftToTargetExponent Format.binary64 m e accuracy =
      (ExtendedMantissa.ofMantissaAndAccuracy m accuracy >>> k, e + k) := by
  have hk : (e + k - e).toNat = k := by omega
  rw [shiftToTargetExponent, targetExponent_eq, h, shiftToExponent, hk]

theorem roundWithAccuracy_of_shifts {sign : Sign} {accuracy : Accuracy}
    {first : ExtendedMantissa} {e₁ e₂ : ℤ}
    (hfirst : shiftToTargetExponent Format.binary64 m e accuracy = (first, e₁))
    (hsecond : shiftToTargetExponent Format.binary64 first.roundedMantissa e₁ .exact =
      (ExtendedMantissa.ofMantissaAndAccuracy n .exact, e₂)) (hpos : 0 < n) :
    roundWithAccuracy Format.binary64 sign m e accuracy = .finite sign n e₂ hpos := by
  have hmantissa : (ExtendedMantissa.ofMantissaAndAccuracy n .exact).mantissa = n := rfl
  simp only [roundWithAccuracy, hfirst, hsecond, hmantissa, dif_neg hpos.ne']

theorem shiftToTargetExponent_self (hlow : 2 ^ 52 ≤ m) (hhigh : m < 2 ^ 53) (he : -1074 ≤ e) :
    shiftToTargetExponent Format.binary64 m e .exact =
      (ExtendedMantissa.ofMantissaAndAccuracy m .exact, e) := by
  have hlog : m.log2 = 52 := (Nat.log2_eq_iff (by omega)).2 ⟨hlow, hhigh⟩
  rw [shiftToTargetExponent_eq (k := 0) .exact (by omega), Int.natCast_zero, Int.add_zero]
  rfl

theorem shiftToTargetExponent_carry (he : -1074 ≤ e) :
    shiftToTargetExponent Format.binary64 (2 ^ 53) e .exact =
      (ExtendedMantissa.ofMantissaAndAccuracy (2 ^ 52) .exact, e + 1) := by
  have hlog : (2 ^ 53).log2 = 53 := Nat.log2_two_pow
  exact shiftToTargetExponent_eq (k := 1) .exact (by omega)

/-- However many zero bits stand behind it, a number is rounded to its 53 bits. -/
theorem roundWithAccuracy_eq (hn : n ≠ 0) (hj : 52 ≤ n.log2 + j) (hlog : n.log2 < 64) :
    roundWithAccuracy Format.binary64 .positive (n * 2 ^ j) (-j) .exact = rounded n := by
  have hfirst : shiftToTargetExponent Format.binary64 (n * 2 ^ j) (-j) .exact =
      (ExtendedMantissa.ofMantissaAndAccuracy (n * 2 ^ j) .exact >>> (n.log2 + j - 52),
        (n.log2 - 52 : ℤ)) := by
    have hexponent : -(j : ℤ) + (n.log2 + j - 52 : ℕ) = n.log2 - 52 := by omega
    rw [← hexponent]
    exact shiftToTargetExponent_eq _ (by rw [log2_mul_two_pow hn]; omega)
  have hrounded := (shifted (n * 2 ^ j) (n.log2 + j - 52)).roundedMantissa
  rw [quotient_eq_significand n hj] at hrounded
  have hlow := le_significand hn
  rw [rounded, dif_neg hn]
  split
  · next h =>
    refine roundWithAccuracy_of_shifts hfirst ?_ _
    rw [hrounded]
    exact shiftToTargetExponent_self hlow h (by omega)
  · next h =>
    have hcarry : (n.log2 - 52 : ℤ) + 1 = n.log2 - 51 := by omega
    refine roundWithAccuracy_of_shifts hfirst ?_ _
    rw [hrounded, significand_of_not_lt hn h, ← hcarry]
    exact shiftToTargetExponent_carry (by omega)

/-- A float with 53 bits from some place of a whole number on, or a zero, and its value as a
multiple of the last place of one. -/
inductive HasUnits : UnpackedFloat → ℤ → Prop
  | zero (sign : Sign) : HasUnits (.zero sign) 0
  | finite (sign : Sign) {m k : ℕ} {e : ℤ} {pos : 0 < m} (low : 2 ^ 52 ≤ m) (high : m < 2 ^ 53)
      (exponent : e = k - 52) (bounded : k ≤ 64) :
      HasUnits (.finite sign m e pos) (sign.apply (m * 2 ^ k : ℕ))

theorem hasUnits_rounded (hlog : n.log2 < 64) :
    HasUnits (rounded n) (nearestNat n * 2 ^ 52 : ℕ) := by
  unfold rounded
  split
  · next h => exact h ▸ HasUnits.zero .positive
  · next h =>
    rw [nearestNat_mul_two_pow]
    split
    · next hhigh =>
      exact HasUnits.finite .positive (le_significand h) hhigh rfl (by omega)
    · next hcarry =>
      have hunits : significand n * 2 ^ n.log2 = 2 ^ 52 * 2 ^ (n.log2 + 1) := by
        rw [significand_of_not_lt h hcarry, Nat.pow_succ 2 n.log2]
        omega
      rw [hunits]
      exact HasUnits.finite .positive (Nat.le_refl _) (by decide) (by omega) (by omega)

theorem HasUnits.neg (h : HasUnits f u) : HasUnits f.neg (-u) := by
  cases h with
  | zero sign => exact HasUnits.zero (-sign)
  | finite sign low high exponent bounded =>
    cases sign with
    | positive => exact HasUnits.finite .negative low high exponent bounded
    | negative =>
      rw [Sign.apply, Int.neg_neg]
      exact HasUnits.finite .positive low high exponent bounded

/-- Of two numbers of 53 bits the one with the higher first place is greater. -/
theorem compare_exponent_mantissa {m₁ m₂ k₁ k₂ : ℕ} {e₁ e₂ : ℤ} (h₁ : 2 ^ 52 ≤ m₁ ∧ m₁ < 2 ^ 53)
    (h₂ : 2 ^ 52 ≤ m₂ ∧ m₂ < 2 ^ 53) (he₁ : e₁ = k₁ - 52) (he₂ : e₂ = k₂ - 52) :
    (compare e₁ e₂).then (compare m₁ m₂) = compare (m₁ * 2 ^ k₁) (m₂ * 2 ^ k₂) := by
  have hlt : ∀ {a b i j : ℕ}, a < 2 ^ 53 → 2 ^ 52 ≤ b → i < j → a * 2 ^ i < b * 2 ^ j := by
    intro a b i j ha hb hij
    calc a * 2 ^ i < 2 ^ 53 * 2 ^ i := Nat.mul_lt_mul_of_pos_right ha (Nat.two_pow_pos i)
      _ = 2 ^ 52 * 2 ^ (i + 1) := by rw [Nat.pow_succ 2 i]; omega
      _ ≤ b * 2 ^ j := Nat.mul_le_mul hb (Nat.pow_le_pow_right (by decide) hij)
  rcases lt_trichotomy k₁ k₂ with hk | rfl | hk
  · rw [compare_lt_iff_lt.2 (show e₁ < e₂ by omega), compare_lt_iff_lt.2 (hlt h₁.2 h₂.1 hk)]
    rfl
  · rw [compare_eq_iff_eq.2 (show e₁ = e₂ by omega), Ordering.eq_then, Nat.compare_eq_ite_lt,
      Nat.compare_eq_ite_lt]
    simp only [Nat.mul_lt_mul_right (Nat.two_pow_pos k₁)]
  · rw [compare_gt_iff_gt.2 (show e₁ > e₂ by omega), compare_gt_iff_gt.2 (hlt h₂.2 h₁.1 hk)]
    rfl

theorem compare_natCast (a b : ℕ) : compare (a : ℤ) (b : ℤ) = compare a b := by
  simp only [Int.compare_eq_ite_lt, Nat.compare_eq_ite_lt, Nat.cast_lt]

theorem compare_neg_natCast (a b : ℕ) : compare (-(a : ℤ)) (-(b : ℤ)) = (compare a b).swap := by
  rw [Nat.compare_swap]
  simp only [Int.compare_eq_ite_lt, Nat.compare_eq_ite_lt, Int.neg_lt_neg_iff, Nat.cast_lt]

theorem HasUnits.compare (hf : HasUnits f u) (hg : HasUnits g v) :
    f.compare g = some (Ord.compare u v) := by
  cases hf with
  | zero s =>
    cases hg with
    | zero => rfl
    | @finite t m k _ pos =>
      have hpos : 0 < ((m * 2 ^ k : ℕ) : ℤ) := by positivity
      cases t with
      | positive => exact congrArg some (compare_lt_iff_lt.2 hpos).symm
      | negative => exact congrArg some (compare_gt_iff_gt.2 (Int.neg_neg_of_pos hpos)).symm
  | @finite s m₁ k₁ e₁ pos₁ low₁ high₁ he₁ _ =>
    have hpos₁ : 0 < ((m₁ * 2 ^ k₁ : ℕ) : ℤ) := by positivity
    cases hg with
    | zero =>
      cases s with
      | positive => exact congrArg some (compare_gt_iff_gt.2 hpos₁).symm
      | negative => exact congrArg some (compare_lt_iff_lt.2 (Int.neg_neg_of_pos hpos₁)).symm
    | @finite t m₂ k₂ e₂ pos₂ low₂ high₂ he₂ _ =>
      have hpos₂ : 0 < ((m₂ * 2 ^ k₂ : ℕ) : ℤ) := by positivity
      have hnat := compare_exponent_mantissa ⟨low₁, high₁⟩ ⟨low₂, high₂⟩ he₁ he₂
      cases s with
      | positive =>
        cases t with
        | positive => exact congrArg some (hnat.trans (compare_natCast _ _).symm)
        | negative =>
          have hlt := (Int.neg_neg_of_pos hpos₂).trans hpos₁
          exact congrArg some (compare_gt_iff_gt.2 hlt).symm
      | negative =>
        cases t with
        | positive =>
          have hlt := (Int.neg_neg_of_pos hpos₁).trans hpos₂
          exact congrArg some (compare_lt_iff_lt.2 hlt).symm
        | negative =>
          exact congrArg some ((congrArg Ordering.swap hnat).trans (compare_neg_natCast _ _).symm)

theorem unpack_packComponents {x : BitVec 11} {y : BitVec 52} {pos : 0 < m} (sign : Sign)
    (hzero : x ≠ 0#11) (hones : x ≠ -1#11) (hmantissa : (1#1 ++ y).toNat = m)
    (hexponent : (x.toNat : ℤ) - 1075 = e) :
    unpack Format.binary64 (packComponents Format.binary64 sign x y) = .finite sign m e pos := by
  subst hmantissa hexponent
  simp only [unpack, unpackMantissa_packComponents, unpackExponent_packComponents,
    unpackSign_packComponents, Sign.ofBitVec_toBitVec, if_neg hzero, if_neg hones]
  rfl

theorem pack_finite {pos : 0 < m} (sign : Sign) (low : 2 ^ 52 ≤ m) (high : m < 2 ^ 53)
    (exponent : e = k - 52) (bounded : k ≤ 64) :
    pack Format.binary64 (.finite sign m e pos) =
      packComponents Format.binary64 sign (BitVec.ofNat 11 (k + 1023)) (BitVec.ofNat 52 m) := by
  have hlog : m.log2 = 52 := (Nat.log2_eq_iff (by omega)).2 ⟨low, high⟩
  have hbiased : (e + Format.binary64.exponentBias +
      Format.binary64.mantissaBitsWithoutImplicit).toNat = k + 1023 := by
    show (e + 1023 + 52).toNat = k + 1023
    omega
  have hbound : ¬ 2 ^ Format.binary64.exponentBits ≤ k + 1023 + 1 := by
    show ¬ 2048 ≤ k + 1023 + 1
    omega
  simp only [pack, hbiased, hlog, if_neg hbound]
  rfl

theorem HasUnits.unpack_pack (h : HasUnits f u) : (Float.Model.pack f).unpack = f := by
  show unpack Format.binary64 (pack Format.binary64 f) = f
  cases h with
  | zero s => cases s <;> rfl
  | @finite s m k e pos low high exponent bounded =>
    have hexponent : (BitVec.ofNat 11 (k + 1023)).toNat = k + 1023 := Nat.mod_eq_of_lt (by omega)
    have hmantissa : (1#1 ++ BitVec.ofNat 52 m).toNat = m := by
      rw [BitVec.toNat_append, ← Nat.shiftLeft_add_eq_or_of_lt (BitVec.isLt _),
        BitVec.toNat_ofNat, BitVec.toNat_ofNat, Nat.shiftLeft_eq]
      omega
    rw [pack_finite s low high exponent bounded]
    refine unpack_packComponents s (fun h => ?_) (fun h => ?_) hmantissa (by omega)
    · rw [h, BitVec.toNat_ofNat] at hexponent
      omega
    · rw [h] at hexponent
      have hones : (-1#11).toNat = 2047 := rfl
      omega

/-- The bits of one. -/
theorem unpack_one (pos : 0 < 2 ^ 52) :
    (Float.ofBits 0x3FF0000000000000).toModel.unpack = .finite .positive (2 ^ 52) (-52) pos :=
  rfl

theorem unpack_toFloat (h : n < 2 ^ 53) : n.toUInt64.toFloat.toModel.unpack = rounded n := by
  have hn : n.toUInt64.toNat = n := Nat.mod_eq_of_lt (by omega)
  show (Float.Model.pack
    (UnpackedFloat.normalize Format.binary64 (n.toUInt64.toNat : ℤ) 0 .positive)).unpack = _
  rw [hn]
  rcases Nat.eq_zero_or_pos n with rfl | hpos
  · rfl
  · have hlog : n.log2 < 53 := log2_lt_of_lt (by decide) h
    have htarget : Format.binary64.targetExponent (totalExponent n 0) = n.log2 - 52 := by
      rw [targetExponent_eq]
      omega
    have hshift : (0 - ((n.log2 : ℤ) - 52)).toNat = 52 - n.log2 := by omega
    have hexponent : 0 - ((52 - n.log2 : ℕ) : ℤ) = -((52 - n.log2 : ℕ) : ℤ) := Int.zero_sub _
    have hround : UnpackedFloat.normalize Format.binary64 (n : ℤ) 0 .positive = rounded n := by
      rw [UnpackedFloat.normalize, compare_gt_iff_gt.2 (Int.natCast_pos.2 hpos)]
      show UnpackedFloat.round _ _ _ _ = _
      simp only [UnpackedFloat.round, Int.toNat_natCast, htarget, decreaseExponent, hshift,
        Nat.shiftLeft_eq, hexponent]
      exact roundWithAccuracy_eq hpos.ne' (by omega) (by omega)
    rw [hround]
    exact (hasUnits_rounded (by omega)).unpack_pack

theorem mul_one_rounded {pos : 0 < 2 ^ 52} (h : n < 2 ^ 53) :
    mul Format.binary64 (rounded n) (.finite .positive (2 ^ 52) (-52) pos) = rounded n := by
  rcases Nat.eq_zero_or_pos n with rfl | hn
  · rfl
  have hlog : n.log2 < 53 := log2_lt_of_lt (by decide) h
  have hround : rounded n = .finite .positive (significand n) (n.log2 - 52)
      (Nat.lt_of_lt_of_le (Nat.two_pow_pos 52) (le_significand hn.ne')) := by
    rw [rounded, dif_neg hn.ne', if_pos (significand_lt hn.ne' h)]
  have hmantissa : significand n * 2 ^ 52 = n * 2 ^ (104 - n.log2) := by
    have hplaces : 52 - n.log2 + 52 = 104 - n.log2 := by omega
    rw [significand_of_lt h, Nat.mul_assoc, ← Nat.pow_add, hplaces]
  have hexponent : (n.log2 : ℤ) - 52 + -52 = -((104 - n.log2 : ℕ) : ℤ) := by omega
  have hmul : mul Format.binary64 (rounded n) (.finite .positive (2 ^ 52) (-52) pos) =
      roundWithAccuracy Format.binary64 .positive (significand n * 2 ^ 52) (n.log2 - 52 + -52)
        .exact := by
    rw [hround]
    rfl
  rw [hmul, hmantissa, hexponent]
  exact roundWithAccuracy_eq hn.ne' (by omega) (by omega)

/-- A greater number is multiplied by one with 53 bits more. -/
theorem ofScientific_eq (hn : n ≠ 0) (hlog : n.log2 < 64) :
    UnpackedFloat.ofScientific Format.binary64 n 0 = rounded n := by
  have hlarge : ¬ (0 : ℤ) > 2 ^ Format.binary64.exponentBits := by decide
  have hsmall : ¬ (0 : ℤ) < -((2 ^ Format.binary64.exponentBits : ℤ) + n.log2) := by
    show ¬ (0 : ℤ) < -(2048 + n.log2)
    omega
  have hbits : Format.binary64.mantissaBits = 53 := rfl
  rw [UnpackedFloat.ofScientific, dif_neg hn, if_neg hlarge, if_neg hsmall, if_pos (Int.le_refl 0)]
  simp only [mul, hbits, Int.toNat_zero, Nat.shiftLeft_eq, Nat.pow_zero, Nat.mul_one, Int.add_zero]
  exact roundWithAccuracy_eq hn (by omega) hlog

theorem unpack_ofNat (hlog : n.log2 < 64) : (Float.ofNat n).toModel.unpack = rounded n := by
  have hpacked := (hasUnits_rounded hlog).unpack_pack
  show (Float.ofScientific n false 0).toModel.unpack = _
  rw [Float.ofScientific]
  split
  · next hsmall =>
    show (Float.Model.pack (mul Format.binary64 n.toUInt64.toFloat.toModel.unpack
      (Float.ofBits 0x3FF0000000000000).toModel.unpack)).unpack = _
    rw [unpack_toFloat hsmall.1, unpack_one (by decide), mul_one_rounded hsmall.1, hpacked]
  · next hlarge =>
    have hn : n ≠ 0 := by omega
    show (Float.Model.pack (UnpackedFloat.ofScientific Format.binary64 n 0)).unpack = _
    rw [ofScientific_eq hn hlog, hpacked]

theorem hasUnits_ofNat (h : n < 2 ^ 64) :
    HasUnits (Float.ofNat n).toModel.unpack (nearestNat n * 2 ^ 52 : ℕ) := by
  have hlog : n.log2 < 64 := log2_lt_of_lt (by decide) h
  rw [unpack_ofNat hlog]
  exact hasUnits_rounded hlog

/-- The float of a whole number has the value of the number rounded to 53 significant bits. -/
theorem hasUnits_ofInt (h : x.natAbs < 2 ^ 64) :
    HasUnits (Float.ofInt x).toModel.unpack (nearest x * 2 ^ 52) := by
  cases x with
  | ofNat n =>
    have hnat := hasUnits_ofNat (n := n) h
    push_cast at hnat
    exact hnat
  | negSucc n =>
    have hneg := (hasUnits_ofNat (n := n + 1) h).neg
    show HasUnits (Float.Model.pack (Float.ofNat (n + 1)).toModel.unpack.neg).unpack _
    rw [hneg.unpack_pack, nearest, Int.neg_mul]
    push_cast at hneg
    exact hneg

theorem compare_ofInt (hx : x.natAbs < 2 ^ 64) (hy : y.natAbs < 2 ^ 64) :
    (Float.ofInt x).toModel.unpack.compare (Float.ofInt y).toModel.unpack =
      some (compare (nearest x) (nearest y)) := by
  rw [(hasUnits_ofInt hx).compare (hasUnits_ofInt hy)]
  have hpos : (0 : ℤ) < 2 ^ 52 := by decide
  simp only [Int.compare_eq_ite_lt, Int.mul_lt_mul_right hpos]

theorem ofInt_lt_iff (hx : x.natAbs < 2 ^ 64) (hy : y.natAbs < 2 ^ 64) :
    Float.ofInt x < Float.ofInt y ↔ nearest x < nearest y := by
  have hlt : Float.ofInt x < Float.ofInt y ↔
      (Float.ofInt x).toModel.unpack.lt (Float.ofInt y).toModel.unpack = true :=
    decide_eq_true_iff
  rw [hlt, UnpackedFloat.lt, compare_ofInt hx hy, beq_iff_eq, Option.some_inj, compare_lt_iff_lt]

theorem ofInt_le_iff (hx : x.natAbs < 2 ^ 64) (hy : y.natAbs < 2 ^ 64) :
    Float.ofInt x ≤ Float.ofInt y ↔ nearest x ≤ nearest y := by
  have hle : Float.ofInt x ≤ Float.ofInt y ↔
      (Float.ofInt x).toModel.unpack.le (Float.ofInt y).toModel.unpack = true :=
    decide_eq_true_iff
  rw [hle, UnpackedFloat.le, compare_ofInt hx hy, Option.any_some, Std.isLE_compare]

end DocStore.Doubles
