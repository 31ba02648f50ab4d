import DocStore.Guid
import Mathlib.Algebra.Group.Nat.Defs
import Mathlib.Data.List.Basic

/-!
# The text of a guid

A guid is read back from the text that is written for it.
-/

namespace DocStore

namespace Hex

theorem value?_digit (n : Nat) : value? (digit n) = some (n % 16) := by
  have h : ∀ i < 16, value? (Nat.digitChar i) = some i := by decide
  exact h _ (Nat.mod_lt n (by decide))

theorem length_digits (count n : Nat) : (digits count n).length = count := by
  induction count with
  | zero => rfl
  | succ count ih => rw [digits, List.length_cons, ih]

/-- The digits of a number have its value, behind whatever stands before them. -/
theorem exists_values_digits (count n : Nat) : ∃ values,
    (digits count n).mapM value? = some values ∧
      ∀ before, values.foldl (fun n d => 16 * n + d) before =
        16 ^ count * before + n % 16 ^ count := by
  induction count with
  | zero =>
    refine ⟨[], rfl, fun before => ?_⟩
    simp [Nat.mod_one]
  | succ count ih =>
    obtain ⟨values, hvalues, hfold⟩ := ih
    refine ⟨n / 16 ^ count % 16 :: values, ?_, fun before => ?_⟩
    · have hfirst : value? (digit (n / Nat.pow 16 count)) = some (n / 16 ^ count % 16) :=
        value?_digit _
      rw [digits, List.mapM_cons, hfirst, hvalues]
      rfl
    · rw [List.foldl_cons, hfold, Nat.pow_succ, Nat.mod_mul, Nat.mul_add, Nat.mul_assoc]
      omega

end Hex

namespace Guid

theorem length_digits (g : Guid) : g.digits.length = 32 :=
  Hex.length_digits 32 _

theorem ofDigits?_digits (g : Guid) : ofDigits? g.digits = some g := by
  obtain ⟨values, hvalues, hfold⟩ := Hex.exists_values_digits 32 g.bits.toNat
  have hlt : g.bits.toNat < 16 ^ 32 := g.bits.isLt
  have hbits : values.foldl (fun n d => 16 * n + d) 0 = g.bits.toNat := by
    rw [hfold, Nat.mod_eq_of_lt hlt, Nat.mul_zero, Nat.zero_add]
  rw [ofDigits?, if_pos g.length_digits, digits, hvalues, Option.map_some, hbits,
    BitVec.ofNat_toNat, BitVec.setWidth_eq]

theorem ofHyphenated?_append {a b c d e : List Char} (ha : a.length = 8) (hb : b.length = 4)
    (hc : c.length = 4) (hd : d.length = 4) (he : e.length = 12) :
    ofHyphenated? (a ++ '-' :: b ++ '-' :: c ++ '-' :: d ++ '-' :: e) =
      ofDigits? (a ++ b ++ c ++ d ++ e) := by
  simp [ofHyphenated?, ha, hb, hc, hd, he, List.drop_append, List.drop_eq_nil_of_le]

theorem length_group (g : Guid) {start count : Nat} (h : start + count ≤ 32) :
    (g.group start count).length = count := by
  rw [group, List.length_take, List.length_drop, length_digits]
  omega

/-- Groups that follow one another are one group. -/
theorem group_append (g : Guid) (start count next : Nat) :
    g.group start count ++ g.group (start + count) next = g.group start (count + next) := by
  rw [group, group, group, List.take_add, List.drop_drop]

theorem toList_text (g : Guid) : g.text.toList = g.group 0 8 ++ '-' :: g.group 8 4 ++
    '-' :: g.group 12 4 ++ '-' :: g.group 16 4 ++ '-' :: g.group 20 12 :=
  String.toList_ofList

theorem ofText?_text (g : Guid) : ofText? g.text = some g := by
  have hlength : g.text.toList.length = 36 := by
    rw [toList_text]
    simp [length_group]
  have hdigits : ofDigits? g.text.toList = none := by
    rw [ofDigits?, if_neg (by omega)]
  have hgroups : g.group 0 8 ++ g.group 8 4 ++ g.group 12 4 ++ g.group 16 4 ++ g.group 20 12 =
      g.digits := by
    rw [g.group_append 0 8 4, g.group_append 0 12 4, g.group_append 0 16 4, g.group_append 0 20 12,
      group, List.drop_zero]
    exact List.take_of_length_le (Nat.le_of_eq g.length_digits)
  have hhyphenated : ofHyphenated? g.text.toList = some g := by
    rw [toList_text, ofHyphenated?_append (g.length_group (by decide)) (g.length_group (by decide))
      (g.length_group (by decide)) (g.length_group (by decide)) (g.length_group (by decide)),
      hgroups, ofDigits?_digits]
  unfold ofText?
  simp only [hdigits, hhyphenated, Option.orElse_none, Option.orElse_some]

end Guid

end DocStore
