import Mathlib.Data.Nat.Log
import Mathlib.Tactic.Linarith

/-!
# Whole numbers of 53 significant bits

`nearest` rounds a whole number to 53 significant bits, to the nearest such number and halfway to
the one whose last bit is zero. Numbers up to `2 ^ 53` stay as they are, and the order of numbers is
kept, though different ones may become the same.
-/

namespace DocStore.Rounding

variable {a b j k n : ℕ}

/-- The quotient by `2 ^ k` rounded to the nearest whole number, a half to the even one. -/
def quotient (n k : ℕ) : ℕ :=
  if 2 * (n % 2 ^ k) < 2 ^ k then n / 2 ^ k
  else if 2 ^ k < 2 * (n % 2 ^ k) then n / 2 ^ k + 1
  else n / 2 ^ k + n / 2 ^ k % 2

def excess (n : ℕ) : ℕ :=
  n.log2 - 52

def nearestNat (n : ℕ) : ℕ :=
  quotient n (excess n) * 2 ^ excess n

/-- The nearest number of 53 significant bits, halfway the one whose last bit is zero. -/
def nearest : ℤ → ℤ
  | .ofNat n => nearestNat n
  | .negSucc n => -(nearestNat (n + 1))

theorem div_le_quotient (n k : ℕ) : n / 2 ^ k ≤ quotient n k := by
  unfold quotient
  split
  · exact Nat.le_refl _
  · split <;> exact Nat.le_add_right _ _

theorem quotient_le (n k : ℕ) : quotient n k ≤ n / 2 ^ k + 1 := by
  unfold quotient
  split
  · exact Nat.le_succ _
  · split
    · exact Nat.le_refl _
    · exact Nat.add_le_add_left (Nat.le_of_lt_succ (Nat.mod_lt _ (by decide))) _

@[simp] theorem quotient_zero (n : ℕ) : quotient n 0 = n := by
  rw [quotient, if_pos (by omega), Nat.pow_zero, Nat.div_one]

/-- Zero bits at the end do not count. -/
theorem quotient_mul (n j k : ℕ) : quotient (n * 2 ^ j) (k + j) = quotient n k := by
  have hpos : 0 < 2 ^ j := Nat.two_pow_pos j
  have hmul : ∀ x, 2 * (x * 2 ^ j) = 2 * x * 2 ^ j := fun x => (Nat.mul_assoc 2 x _).symm
  unfold quotient
  rw [Nat.pow_add, Nat.mul_mod_mul_right, Nat.mul_div_mul_right _ _ hpos, hmul]
  simp only [Nat.mul_lt_mul_right hpos]

theorem quotient_mono (k : ℕ) (h : a ≤ b) : quotient a k ≤ quotient b k := by
  have hdiv : a / 2 ^ k ≤ b / 2 ^ k := Nat.div_le_div_right h
  rcases Nat.lt_or_eq_of_le hdiv with hlt | heq
  · exact (quotient_le a k).trans (Nat.le_trans hlt (div_le_quotient b k))
  · have hmod : a % 2 ^ k ≤ b % 2 ^ k := by
      have ha := Nat.div_add_mod a (2 ^ k)
      have hb := Nat.div_add_mod b (2 ^ k)
      rw [heq] at ha
      omega
    unfold quotient
    rw [heq]
    split <;> split <;> (try split) <;> (try split) <;> omega

theorem log2_mul_two_pow (h : n ≠ 0) (j : ℕ) : (n * 2 ^ j).log2 = n.log2 + j := by
  have hpos : 0 < 2 ^ j := Nat.two_pow_pos j
  rw [Nat.log2_eq_iff (Nat.mul_ne_zero h hpos.ne'), Nat.pow_add, Nat.add_right_comm, Nat.pow_add]
  exact ⟨Nat.mul_le_mul_right _ (Nat.log2_self_le h),
    Nat.mul_lt_mul_of_pos_right Nat.lt_log2_self hpos⟩

theorem log2_lt_of_lt (hk : 0 < k) (h : n < 2 ^ k) : n.log2 < k := by
  rcases Nat.eq_zero_or_pos n with rfl | hn
  · exact hk
  · exact (Nat.log2_lt hn.ne').2 h

theorem excess_eq_zero (h : n < 2 ^ 53) : excess n = 0 :=
  Nat.sub_eq_zero_of_le (Nat.le_of_lt_succ (log2_lt_of_lt (by decide) h))

/-- The 53 bits from the first bit of a number on, which may be rounded up to 54. -/
def significand (n : ℕ) : ℕ :=
  quotient (n * 2 ^ (52 - n.log2)) (n.log2 - 52)

theorem nearestNat_mul_two_pow (n : ℕ) :
    nearestNat n * 2 ^ 52 = significand n * 2 ^ n.log2 := by
  rw [nearestNat, significand, excess]
  rcases Nat.le_total n.log2 52 with h | h
  · rw [Nat.sub_eq_zero_of_le h, quotient_zero, quotient_zero, Nat.pow_zero, Nat.mul_one,
      Nat.mul_assoc, ← Nat.pow_add, Nat.sub_add_cancel h]
  · rw [Nat.sub_eq_zero_of_le h, Nat.pow_zero, Nat.mul_one, Nat.mul_assoc, ← Nat.pow_add,
      Nat.sub_add_cancel h]

/-- A number written with more bits is rounded alike. -/
theorem quotient_eq_significand (n : ℕ) {j : ℕ} (h : 52 ≤ n.log2 + j) :
    quotient (n * 2 ^ j) (n.log2 + j - 52) = significand n := by
  obtain ⟨i, rfl⟩ : ∃ i, j = 52 - n.log2 + i := ⟨j - (52 - n.log2), by omega⟩
  have hk : n.log2 + (52 - n.log2 + i) - 52 = n.log2 - 52 + i := by omega
  rw [hk, Nat.pow_add, ← Nat.mul_assoc, quotient_mul, significand]

theorem le_significand (h : n ≠ 0) : 2 ^ 52 ≤ significand n := by
  have hm : n * 2 ^ (52 - n.log2) ≠ 0 := Nat.mul_ne_zero h (Nat.two_pow_pos _).ne'
  have hle := Nat.log2_self_le hm
  rw [log2_mul_two_pow h] at hle
  refine Nat.le_trans ?_ (div_le_quotient _ _)
  rw [Nat.le_div_iff_mul_le (Nat.two_pow_pos _), ← Nat.pow_add]
  exact Nat.le_trans (Nat.pow_le_pow_right (by decide) (by omega)) hle

theorem significand_le (h : n ≠ 0) : significand n ≤ 2 ^ 53 := by
  have hlt := Nat.lt_log2_self (n := n * 2 ^ (52 - n.log2))
  rw [log2_mul_two_pow h] at hlt
  refine Nat.le_trans (quotient_le _ _) (Nat.succ_le_of_lt ?_)
  rw [Nat.div_lt_iff_lt_mul (Nat.two_pow_pos _), ← Nat.pow_add]
  exact Nat.lt_of_lt_of_le hlt (Nat.pow_le_pow_right (by decide) (by omega))

/-- Rounding up may carry. -/
theorem significand_of_not_lt (hn : n ≠ 0) (h : ¬significand n < 2 ^ 53) :
    significand n = 2 ^ 53 :=
  Nat.le_antisymm (significand_le hn) (Nat.le_of_not_lt h)

/-- The bits of a number of at most 53 bits are not rounded. -/
theorem significand_of_lt (h : n < 2 ^ 53) : significand n = n * 2 ^ (52 - n.log2) := by
  have hexcess : n.log2 - 52 = 0 := excess_eq_zero h
  rw [significand, hexcess, quotient_zero]

theorem significand_lt (hn : n ≠ 0) (h : n < 2 ^ 53) : significand n < 2 ^ 53 := by
  have hlog := (Nat.log2_lt hn).2 h
  have hm : n * 2 ^ (52 - n.log2) ≠ 0 := Nat.mul_ne_zero hn (Nat.two_pow_pos _).ne'
  rw [significand_of_lt h, ← Nat.log2_lt hm, log2_mul_two_pow hn]
  omega

theorem le_nearestNat (h : n ≠ 0) : 2 ^ n.log2 ≤ nearestNat n := by
  have hle := Nat.mul_le_mul_right (2 ^ n.log2) (le_significand h)
  rw [← nearestNat_mul_two_pow] at hle
  omega

theorem nearestNat_le (h : n ≠ 0) : nearestNat n ≤ 2 ^ (n.log2 + 1) := by
  have hle := Nat.mul_le_mul_right (2 ^ n.log2) (significand_le h)
  rw [← nearestNat_mul_two_pow] at hle
  rw [Nat.pow_succ]
  omega

theorem nearestNat_mono (h : a ≤ b) : nearestNat a ≤ nearestNat b := by
  rcases Nat.eq_zero_or_pos a with rfl | ha
  · exact Nat.zero_le _
  · have hlog : a.log2 ≤ b.log2 := by
      rw [Nat.le_log2 (by omega)]
      exact Nat.le_trans (Nat.log2_self_le (by omega)) h
    rcases Nat.lt_or_eq_of_le hlog with hlt | heq
    · calc nearestNat a ≤ 2 ^ (a.log2 + 1) := nearestNat_le (by omega)
        _ ≤ 2 ^ b.log2 := Nat.pow_le_pow_right (by decide) hlt
        _ ≤ nearestNat b := le_nearestNat (by omega)
    · rw [nearestNat, nearestNat, excess, excess, heq]
      exact Nat.mul_le_mul_right _ (quotient_mono _ h)

theorem nearestNat_eq_self (h : n ≤ 2 ^ 53) : nearestNat n = n := by
  rcases Nat.lt_or_eq_of_le h with hlt | rfl
  · rw [nearestNat, excess_eq_zero hlt, quotient_zero, Nat.pow_zero, Nat.mul_one]
  · decide

theorem nearest_mono {x y : ℤ} (h : x ≤ y) : nearest x ≤ nearest y := by
  cases x with
  | ofNat a =>
    cases y with
    | ofNat b => exact Int.ofNat_le.2 (nearestNat_mono (Int.ofNat_le.1 h))
    | negSucc b => exact absurd (h.trans_lt (Int.negSucc_lt_zero b)) (Int.natCast_nonneg a).not_gt
  | negSucc a =>
    cases y with
    | ofNat b =>
      exact (Int.neg_nonpos_of_nonneg (Int.natCast_nonneg _)).trans (Int.natCast_nonneg _)
    | negSucc b =>
      have hle : b + 1 ≤ a + 1 := by omega
      exact Int.neg_le_neg (Int.ofNat_le.2 (nearestNat_mono hle))

theorem nearest_eq_self {x : ℤ} (h : x.natAbs ≤ 2 ^ 53) : nearest x = x := by
  cases x with
  | ofNat n => exact congrArg Int.ofNat (nearestNat_eq_self h)
  | negSucc n =>
    have hn : nearestNat (n + 1) = n + 1 := nearestNat_eq_self h
    rw [nearest, hn]
    rfl

/-- Two neighbours become the same number. -/
example : nearest (2 ^ 53 + 1) = 2 ^ 53 ∧ nearest (2 ^ 53 + 3) = 2 ^ 53 + 4 := by decide

end DocStore.Rounding
