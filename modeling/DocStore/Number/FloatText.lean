import DocStore.Number.Decimal

/-!
# The two texts of a float

`plainFloatText` is how a stored value reads: positional at any size and without a fraction for
whole numbers. `documentFloatText` is how a document writes a number: a whole number keeps `.0`,
and very large and very small numbers have an exponent.
-/

namespace DocStore

def minusSign (x : Float) : List Char :=
  if Nat.pow 2 63 ≤ x.toBits.toNat then ['-'] else []

/-- The shortest positional digits; `NaN` has no sign, infinity is `inf`. -/
def plainFloatText (x : Float) : String :=
  if x.isNaN then "NaN"
  else if x.isInf then String.ofList (minusSign x ++ ['i', 'n', 'f'])
  else
    String.ofList
      (minusSign x ++ ((Decimal.shortest (Magnitude.ofBits x.toBits) .larger).positional))

/-- Positional with at least one fraction digit from `0.00001` up to, but not including, ten to
the sixteenth, and scientific outside. Documents hold finite numbers only. -/
def documentFloatText (x : Float) : String :=
  let d := Decimal.shortest (Magnitude.ofBits x.toBits) .even
  let body :=
    if d.digits = 0 then ['0', '.', '0']
    else if -5 ≤ d.power ∧ d.power < 16 then
      if 0 ≤ d.exponent then d.positional ++ ['.', '0'] else d.positional
    else d.scientific
  String.ofList (minusSign x ++ body)

end DocStore
