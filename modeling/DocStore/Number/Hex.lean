/-!
# Hexadecimal digits
-/

namespace DocStore.Hex

def value? (c : Char) : Option Nat :=
  if '0' ≤ c ∧ c ≤ '9' then some (c.toNat - '0'.toNat)
  else if 'a' ≤ c ∧ c ≤ 'f' then some (c.toNat - 'a'.toNat + 10)
  else if 'A' ≤ c ∧ c ≤ 'F' then some (c.toNat - 'A'.toNat + 10)
  else none

def digit (n : Nat) : Char :=
  Nat.digitChar (n % 16)

def digits (count n : Nat) : List Char :=
  match count with
  | 0 => []
  | count + 1 => digit (n / Nat.pow 16 count) :: digits count n

end DocStore.Hex
