/-!
# Numbers read from text

Readers of decimal numerals. A whole number is an optional sign and ASCII digits, refused outside
the signed 64-bit range; a floating-point number adds a fraction, an exponent and the names of the
special values, and is rounded to the nearest representable number.
-/

namespace DocStore

def int64? (i : Int) : Option Int64 :=
  if Int64.minValue.toInt ≤ i ∧ i ≤ Int64.maxValue.toInt then some (Int64.ofInt i) else none

namespace Numeral

def digitValue (c : Char) : Nat :=
  c.toNat - '0'.toNat

def ofDigits (digits : List Char) : Nat :=
  digits.foldl (fun n c => 10 * n + digitValue c) 0

def sign : List Char → Bool × List Char
  | '-' :: rest => (true, rest)
  | '+' :: rest => (false, rest)
  | rest => (false, rest)

def integer? (text : List Char) : Option Int :=
  let (negative, digits) := sign text
  if digits.isEmpty || !digits.all Char.isDigit then none
  else
    let n : Int := ofDigits digits
    some (if negative then -n else n)

def int64? (text : String) : Option Int64 :=
  (integer? text.toList).bind DocStore.int64?

/-- The float nearest to `mantissa · 10 ^ exponent`. Numbers beyond the range of floats on either
side are settled by their magnitude, so that no huge power of ten is computed. -/
def nearest (mantissa : Nat) (exponent : Int) : Float :=
  if mantissa = 0 then 0.0
  else
    let top := ((Nat.toDigits 10 mantissa).length : Int) + exponent
    if top < -400 then 0.0
    else if 400 < top then Float.ofScientific 1 false 400
    else Float.ofScientific mantissa (exponent < 0) exponent.natAbs

def applySign (negative : Bool) (x : Float) : Float :=
  if negative then -x else x

def exponent? : List Char → Option Int
  | [] => some 0
  | c :: rest => if c = 'e' ∨ c = 'E' then integer? rest else none

def unsignedFloat? (text : List Char) : Option Float := do
  let whole := text.takeWhile Char.isDigit
  let (fraction, rest) := match text.dropWhile Char.isDigit with
    | '.' :: rest => (rest.takeWhile Char.isDigit, rest.dropWhile Char.isDigit)
    | rest => ([], rest)
  if whole.isEmpty && fraction.isEmpty then none
  let exponent ← exponent? rest
  some (nearest (ofDigits (whole ++ fraction)) (exponent - fraction.length))

/-- The float that a text writes: a signed numeral, or `inf`, `infinity` or `nan` in any letter
case. -/
def float? (text : String) : Option Float :=
  let (negative, rest) := sign text.toList
  let word := String.ofList (rest.map Char.toLower)
  if word = "inf" ∨ word = "infinity" then some (applySign negative (1.0 / 0.0))
  else if word = "nan" then some (0.0 / 0.0)
  else (unsignedFloat? rest).map (applySign negative)

end Numeral

end DocStore
