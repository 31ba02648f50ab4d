/-!
# Shortest decimal text of a floating-point number

A finite magnitude is `m · 2 ^ q`. Every real number closer to it than to its neighbours reads back
as the same number, and the ends of that interval do so when `m` is even. `Decimal.shortest` finds
a decimal number in the interval with the fewest digits: for one digit, then two, and so on, it
tests the two points of that decimal grid around the magnitude, and of two hits it takes the
nearer. `Tie` decides when both are equally near.
-/

namespace DocStore

/-- The number `digits · 10 ^ exponent`. -/
structure Decimal where
  digits : Nat
  exponent : Int
  deriving DecidableEq, Repr

/-- The number `mantissa · 2 ^ exponent`; `lowest` marks the smallest mantissa of its binade, below
which numbers lie twice as dense. -/
structure Magnitude where
  mantissa : Nat
  exponent : Int
  lowest : Bool
  deriving DecidableEq, Repr

inductive Tie where
  | larger
  | even
  deriving DecidableEq, Repr

namespace Magnitude

/-- The magnitude that the sign-free part of a 64-bit pattern encodes. -/
def ofBits (bits : UInt64) : Magnitude :=
  let fraction : Nat := bits.toNat % Nat.pow 2 52
  let biased : Nat := bits.toNat / Nat.pow 2 52 % Nat.pow 2 11
  if biased = 0 then ⟨fraction, -1074, false⟩
  else ⟨Nat.pow 2 52 + fraction, (biased : Int) - 1075, decide (fraction = 0 ∧ biased ≠ 1)⟩

/-- Numerator and denominator of a quarter of the magnitude's unit `2 ^ exponent`. -/
def scale (m : Magnitude) : Nat × Nat :=
  (Nat.pow 2 (m.exponent - 2).toNat, Nat.pow 2 (2 - m.exponent).toNat)

/-- The interval that reads back as the magnitude, in quarters of its unit. -/
def bounds (m : Magnitude) : Nat × Nat :=
  (4 * m.mantissa - (if m.lowest then 1 else 2), 4 * m.mantissa + 2)

end Magnitude

namespace Decimal

def width (n : Nat) : Nat :=
  (Nat.toDigits 10 n).length

def leadingExponent (num den : Nat) : Int :=
  if den ≤ num then (width (num / den) : Int) - 1
  else if num = 0 then 0
  else
    let reciprocal := (den + num - 1) / num
    0 - (width (reciprocal - 1) : Int)

/-- `n · 10 ^ exponent`, and `n` itself where the exponent is negative: there the other side of a
comparison is scaled. -/
def scaled (n : Nat) (exponent : Int) : Nat :=
  n * Nat.pow 10 exponent.toNat

def trimZeros : Nat → Decimal → Decimal
  | 0, d => d
  | fuel + 1, d =>
    if d.digits % 10 = 0 ∧ d.digits ≠ 0 then trimZeros fuel ⟨d.digits / 10, d.exponent + 1⟩ else d

/-- The grid points `lo` and `lo + 1` around the magnitude that read back as it, the nearer first.
A grid point `k` stands for `k · 10 ^ grid`. -/
def onGrid? (m : Magnitude) (tie : Tie) (grid : Int) : Option Decimal :=
  let (num, den) := m.scale
  let (low, high) := m.bounds
  let unit := scaled den grid
  let quarter := scaled num (-grid)
  let lo := 4 * m.mantissa * quarter / unit
  let rest := 4 * m.mantissa * quarter - lo * unit
  let inside (k : Nat) : Bool :=
    if m.mantissa % 2 = 0 then low * quarter ≤ k * unit && k * unit ≤ high * quarter
    else low * quarter < k * unit && k * unit < high * quarter
  match inside lo, inside (lo + 1) with
  | false, false => none
  | true, false => some ⟨lo, grid⟩
  | false, true => some ⟨lo + 1, grid⟩
  | true, true =>
    if 2 * rest < unit then some ⟨lo, grid⟩
    else if unit < 2 * rest then some ⟨lo + 1, grid⟩
    else
      match tie with
      | .larger => some ⟨lo + 1, grid⟩
      | .even => if lo % 2 = 0 then some ⟨lo, grid⟩ else some ⟨lo + 1, grid⟩

def search (m : Magnitude) (tie : Tie) : Nat → Int → Decimal
  | 0, grid => (onGrid? m tie grid).getD ⟨0, 0⟩
  | fuel + 1, grid =>
    match onGrid? m tie grid with
    | some d => d
    | none => search m tie fuel (grid - 1)

/-- The shortest decimal number that reads back as the magnitude, without trailing zeros. -/
def shortest (m : Magnitude) (tie : Tie) : Decimal :=
  if m.mantissa = 0 then ⟨0, 0⟩
  else
    let (num, den) := m.scale
    let top := leadingExponent (4 * m.mantissa * num) den
    trimZeros 20 (search m tie 20 top)

def zeros (n : Nat) : List Char :=
  List.replicate n '0'

def positional (d : Decimal) : List Char :=
  let digits := Nat.toDigits 10 d.digits
  let point := (digits.length : Int) + d.exponent
  if 0 ≤ d.exponent then digits ++ zeros d.exponent.toNat
  else if 0 < point then digits.take point.toNat ++ '.' :: digits.drop point.toNat
  else '0' :: '.' :: zeros (-point).toNat ++ digits

def scientific (d : Decimal) : List Char :=
  let digits := Nat.toDigits 10 d.digits
  let power := (digits.length : Int) + d.exponent - 1
  let fraction := match digits.drop 1 with
    | [] => []
    | rest => '.' :: rest
  digits.take 1 ++ fraction ++ ['e', if power < 0 then '-' else '+'] ++
    Nat.toDigits 10 power.natAbs

def power (d : Decimal) : Int :=
  (width d.digits : Int) + d.exponent - 1

end Decimal

end DocStore
