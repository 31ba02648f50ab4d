import DocStore.Checksum
import Mathlib.Algebra.Group.Nat.Defs
import Mathlib.Logic.Function.Iterate

/-!
# What the checksum tells apart

Taking a bit is linear and loses nothing. Four bytes are taken together as one number, so that texts
which differ in their last four bytes only have different checksums.
-/

namespace DocStore.Checksum

variable {a b : BitVec 32}

theorem shift_xor (a b : BitVec 32) : shift (a ^^^ b) = shift a ^^^ shift b := by
  have hcancel : ∀ x y : BitVec 32, x ^^^ polynomial ^^^ (y ^^^ polynomial) = x ^^^ y := by
    intro x y
    rw [BitVec.xor_comm y, ← BitVec.xor_assoc, BitVec.xor_assoc x, BitVec.xor_self,
      BitVec.xor_zero]
  unfold shift
  rw [BitVec.getLsbD_xor, BitVec.ushiftRight_xor_distrib]
  cases a.getLsbD 0 <;> cases b.getLsbD 0 <;> simp only [Bool.xor_false, Bool.xor_true,
    Bool.not_false, Bool.not_true, Bool.false_eq_true, if_true, if_false]
  · rw [BitVec.xor_assoc]
  · rw [BitVec.xor_assoc, BitVec.xor_assoc, BitVec.xor_comm polynomial]
  · rw [hcancel]

/-- The polynomial has the bit that is clear behind a shift. -/
theorem eq_zero_of_shift (h : shift a = 0) : a = 0 := by
  unfold shift at h
  split at h
  · have hbit := congrArg (BitVec.getLsbD · 31) h
    simp [polynomial] at hbit
  · next hlow =>
    have hhalf := congrArg BitVec.toNat h
    rw [BitVec.toNat_ushiftRight, Nat.shiftRight_eq_div_pow] at hhalf
    have hparity : a.toNat % 2 = 0 := by
      rw [BitVec.getLsbD, Nat.testBit_zero] at hlow
      simpa using hlow
    have hzero : (0 : BitVec 32).toNat = 0 := rfl
    apply BitVec.eq_of_toNat_eq
    omega

theorem shift_injective : Function.Injective shift := by
  intro a b h
  have hzero : shift (a ^^^ b) = 0 := by
    rw [shift_xor, h, BitVec.xor_self]
    rfl
  exact BitVec.xor_eq_zero_iff.1 (eq_zero_of_shift hzero)

/-- Behind clear bits a number only moves down. -/
theorem shift_shiftLeft {n : Nat} (hn : n < 8) (ha : a.toNat < 2 ^ 24) :
    shift (a <<< (n + 1)) = a <<< n := by
  have hlow : (a <<< (n + 1)).getLsbD 0 = false := by simp
  have hpow : 2 ^ (n + 1) ≤ 2 ^ 8 := Nat.pow_le_pow_right (by decide) hn
  have hmul : a.toNat * 2 ^ (n + 1) < 2 ^ 24 * 2 ^ 8 :=
    Nat.mul_lt_mul_of_lt_of_le ha hpow (by decide)
  have hlt : a.toNat * 2 ^ (n + 1) < 2 ^ 32 := Nat.lt_of_lt_of_le hmul (by decide)
  unfold shift
  rw [hlow, if_neg Bool.false_ne_true]
  apply BitVec.eq_of_toNat_eq
  rw [BitVec.toNat_ushiftRight, BitVec.toNat_shiftLeft, BitVec.toNat_shiftLeft,
    Nat.shiftLeft_eq, Nat.shiftLeft_eq, Nat.shiftRight_eq_div_pow, Nat.mod_eq_of_lt hlt]
  rw [Nat.pow_succ, ← Nat.mul_assoc] at hlt ⊢
  rw [Nat.mod_eq_of_lt (by omega)]
  omega

theorem shiftByte_xor (a b : BitVec 32) : shiftByte (a ^^^ b) = shiftByte a ^^^ shiftByte b := by
  simp only [shiftByte, shift_xor]

theorem shiftByte_injective : Function.Injective shiftByte := by
  intro a b h
  exact shift_injective (shift_injective (shift_injective (shift_injective (shift_injective
    (shift_injective (shift_injective (shift_injective h)))))))

theorem shiftByte_shiftLeft (ha : a.toNat < 2 ^ 24) : shiftByte (a <<< 8) = a := by
  unfold shiftByte
  rw [shift_shiftLeft (by decide) ha, shift_shiftLeft (by decide) ha,
    shift_shiftLeft (by decide) ha, shift_shiftLeft (by decide) ha, shift_shiftLeft (by decide) ha,
    shift_shiftLeft (by decide) ha, shift_shiftLeft (by decide) ha, shift_shiftLeft (by decide) ha,
    BitVec.shiftLeft_zero]

/-- Up to four bytes as one number, the first the lowest. -/
def word : List UInt8 → BitVec 32
  | [] => 0
  | byte :: bytes => byte.toBitVec.setWidth 32 ^^^ word bytes <<< 8

theorem word_lt (bytes : List UInt8) : (word bytes).toNat < 2 ^ (8 * bytes.length) := by
  induction bytes with
  | nil => decide
  | cons byte bytes ih =>
    have hbyte : (byte.toBitVec.setWidth 32).toNat < 2 ^ (8 * (bytes.length + 1)) := by
      have hpow : 2 ^ 8 ≤ 2 ^ (8 * (bytes.length + 1)) :=
        Nat.pow_le_pow_right (by decide) (by omega)
      rw [BitVec.toNat_setWidth]
      exact Nat.lt_of_lt_of_le (Nat.lt_of_le_of_lt (Nat.mod_le _ _) byte.toBitVec.isLt) hpow
    have hrest : (word bytes <<< 8).toNat < 2 ^ (8 * (bytes.length + 1)) := by
      rw [BitVec.toNat_shiftLeft, Nat.shiftLeft_eq, Nat.mul_add, Nat.pow_add]
      exact Nat.lt_of_le_of_lt (Nat.mod_le _ _) (Nat.mul_lt_mul_of_pos_right ih (by decide))
    rw [word, BitVec.toNat_xor, List.length_cons]
    exact Nat.xor_lt_two_pow hbyte hrest

/-- Bytes are taken together as the number that they make. -/
theorem foldl_push {bytes : List UInt8} (h : bytes.length ≤ 4) (r : BitVec 32) :
    bytes.foldl push r = shiftByte^[bytes.length] (r ^^^ word bytes) := by
  induction bytes generalizing r with
  | nil => simp [word]
  | cons byte bytes ih =>
    have hlength : bytes.length ≤ 3 := Nat.le_of_succ_le_succ h
    have hpow : 2 ^ (8 * bytes.length) ≤ 2 ^ 24 := Nat.pow_le_pow_right (by decide) (by omega)
    have hlt : (word bytes).toNat < 2 ^ 24 := Nat.lt_of_lt_of_le (word_lt bytes) hpow
    have hpush : push r byte ^^^ word bytes = shiftByte (r ^^^ word (byte :: bytes)) := by
      calc
        push r byte ^^^ word bytes
          = shiftByte (r ^^^ byte.toBitVec.setWidth 32) ^^^ shiftByte (word bytes <<< 8) := by
            rw [push, shiftByte_shiftLeft hlt]
        _ = shiftByte (r ^^^ word (byte :: bytes)) := by
            rw [← shiftByte_xor, word, BitVec.xor_assoc]
    rw [List.foldl_cons, ih (by omega), hpush, List.length_cons, Function.iterate_succ_apply]

theorem word_inj {xs ys : List UInt8} (hl : xs.length = ys.length) (h : xs.length ≤ 4)
    (heq : word xs = word ys) : xs = ys := by
  induction xs generalizing ys with
  | nil => exact (List.length_eq_zero_iff.1 hl.symm).symm
  | cons x xs ih =>
    cases ys with
    | nil => cases hl
    | cons y ys =>
      have hlength : xs.length ≤ 3 := Nat.le_of_succ_le_succ h
      have hpow : 2 ^ (8 * xs.length) ≤ 2 ^ 24 := Nat.pow_le_pow_right (by decide) (by omega)
      have hxs : (word xs).toNat < 2 ^ 24 := Nat.lt_of_lt_of_le (word_lt xs) hpow
      have hl' : xs.length = ys.length := by simpa using hl
      have hys : (word ys).toNat < 2 ^ 24 := Nat.lt_of_lt_of_le (word_lt ys) (hl' ▸ hpow)
      have hbyte : x.toBitVec = y.toBitVec := by
        apply BitVec.eq_of_getLsbD_eq
        intro i hi
        have hbit := congrArg (BitVec.getLsbD · i) heq
        have hi' : i < 32 := by omega
        simpa [word, hi, hi'] using hbit
      obtain rfl : x = y := UInt8.eq_of_toBitVec_eq hbyte
      have hrest : word xs <<< 8 = word ys <<< 8 := (BitVec.xor_right_inj _).1 heq
      have hword : word xs = word ys := by
        rw [← shiftByte_shiftLeft hxs, hrest, shiftByte_shiftLeft hys]
      rw [ih hl' (by omega) hword]

/-- Texts with a common beginning are told apart by their last four bytes. -/
theorem crc32_append_inj {front xs ys : List UInt8} (hl : xs.length = ys.length)
    (h : xs.length ≤ 4) (hsum : crc32 (front ++ xs) = crc32 (front ++ ys)) : xs = ys := by
  have hys : ys.length ≤ 4 := hl ▸ h
  unfold crc32 at hsum
  rw [List.foldl_append, List.foldl_append, foldl_push h, foldl_push hys, hl] at hsum
  have hword := shiftByte_injective.iterate _ (BitVec.not_inj.1 hsum)
  exact word_inj hl h ((BitVec.xor_right_inj _).1 hword)

theorem toList_loop (bytes : ByteArray) (i : Nat) (r : List UInt8) :
    ByteArray.toList.loop bytes i r = r.reverse ++ bytes.data.toList.drop i := by
  unfold ByteArray.toList.loop
  split
  · next hi =>
    have hget : bytes.get! i = bytes.data.toList[i] := getElem!_pos bytes.data i hi
    have hdrop := List.drop_eq_getElem_cons (show i < bytes.data.toList.length from hi)
    rw [toList_loop bytes (i + 1), hget, List.reverse_cons, List.append_assoc, hdrop]
    rfl
  · next hi =>
    have hdrop : bytes.data.toList.drop i = [] := List.drop_eq_nil_of_le (Nat.not_lt.1 hi)
    rw [hdrop, List.append_nil]
termination_by bytes.size - i

theorem toList_eq (bytes : ByteArray) : bytes.toList = bytes.data.toList :=
  toList_loop bytes 0 []

/-- Texts with a common beginning are told apart by an ending of up to four bytes. -/
theorem ofText_append_inj {front s t : String} (hs : s.utf8ByteSize ≤ 4)
    (hl : s.utf8ByteSize = t.utf8ByteSize) (h : ofText (front ++ s) = ofText (front ++ t)) :
    s = t := by
  have hbytes : ∀ u : String, (front ++ u).toUTF8.toList =
      front.toByteArray.data.toList ++ u.toByteArray.data.toList := by
    intro u
    rw [toList_eq, String.toUTF8, String.toByteArray_append, ByteArray.toList_data_append]
  have hlength : ∀ u : String, u.toByteArray.data.toList.length = u.utf8ByteSize := by
    intro u
    rw [← String.size_toByteArray]
    rfl
  unfold ofText at h
  rw [hbytes, hbytes] at h
  have hlist := crc32_append_inj (by rw [hlength, hlength, hl]) (hlength s ▸ hs) h
  apply String.toByteArray_inj.1
  exact ByteArray.ext (Array.toList_inj.1 hlist)

end DocStore.Checksum
