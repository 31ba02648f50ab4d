import DocStore.Calendar.Reader
import DocStore.Error
import DocStore.Expr.Basic
import DocStore.Number.Numeral
import DocStore.Text.Blank
import DocStore.Text.Case

/-!
# Folding constant expressions

An expression that does not refer to a parameter has a value, or is invalid. Whole numbers are
computed exactly, and a result beyond 64 bits is invalid; arithmetic that mixes in a float is float
arithmetic. Numbers are ordered as floats.
-/

namespace DocStore

abbrev Bindings := List (String × Value)

namespace Bindings

def bind (bindings : Bindings) (name : String) (value : Value) : Bindings :=
  (name, value) :: bindings

def get? (bindings : Bindings) (name : String) : Option Value :=
  bindings.lookup name

end Bindings

inductive FoldError where
  | notConstant
  | failed (error : Error)
  deriving DecidableEq, Inhabited

namespace Value

def float? : Value → Option Float
  | integer i => some (Float.ofInt i.toInt)
  | fractal x => some x
  | _ => none

/-- Exact whole-number arithmetic; the quotient is cut towards zero. -/
def integerArithmetic? (op : BinaryOp) (a b : Int) : Option Int64 :=
  match op with
  | .add => int64? (a + b)
  | .subtract => int64? (a - b)
  | .multiply => int64? (a * b)
  | .divide => if b = 0 then none else int64? (a.tdiv b)
  | _ => none

def floatOperation? (op : BinaryOp) (a b : Float) : Option Value :=
  match op with
  | .add => some (fractal (a + b))
  | .subtract => some (fractal (a - b))
  | .multiply => some (fractal (a * b))
  | .divide => some (fractal (a / b))
  | .lessThan => some (boolean (a < b))
  | .lessOrEqual => some (boolean (a ≤ b))
  | .greaterThan => some (boolean (b < a))
  | .greaterOrEqual => some (boolean (b ≤ a))
  | _ => none

def binary? (op : BinaryOp) (a b : Value) : Option Value :=
  match op, a, b with
  | .add, integer a, integer b | .subtract, integer a, integer b
  | .multiply, integer a, integer b | .divide, integer a, integer b =>
    (integerArithmetic? op a.toInt b.toInt).map integer
  | .add, string a, string b => some (string (a ++ b))
  | .and, boolean a, boolean b => some (boolean (a && b))
  | .or, boolean a, boolean b => some (boolean (a || b))
  | .equal, a, b => some (boolean (a.same b))
  | .notEqual, a, b => some (boolean !(a.same b))
  | op, a, b => do
    let a ← float? a
    let b ← float? b
    floatOperation? op a b

def member? (v : Value) (name : String) : Option Value :=
  match v with
  | string s => if name = "Length" then some (integer (Int64.ofNat s.length)) else none
  | list items =>
    if name = "Length" ∨ name = "Count" then some (integer (Int64.ofNat items.length)) else none
  | _ => none

def methods : List String := ["ToUpper", "ToLower", "Trim", "ToString"]

def functions : List String := ["guid", "datetime"]

def mapString (f : List Char → List Char) : Value → Option Value
  | string s => some (string (String.ofList (f s.toList)))
  | _ => none

/-- The value of a method call. No method takes arguments. -/
def methodCall? (target : Value) (method : String) (args : List Value) : Option Value :=
  if !args.isEmpty then none
  else if method = "ToUpper" then mapString Text.upper target
  else if method = "ToLower" then mapString Text.lower target
  else if method = "Trim" then mapString Text.trim target
  else if method = "ToString" then target.text?.map string
  else none

def functionCall? (name : String) (args : List Value) : Option Value :=
  match args with
  | [string s] =>
    if name = "guid" then (Guid.ofText? s).map guid
    else if name = "datetime" then (Instant.ofText? s).map dateTime
    else none
  | _ => none

end Value

namespace Expr

def invalid (e : Expr) (reason : String) : FoldError :=
  .failed (Error.invalidConstant e.display reason)

def valueOr (e : Expr) (reason : String) : Option Value → Except FoldError Value
  | some v => .ok v
  | none => .error (e.invalid reason)

def callValue (e : Expr) (method : String) (known : List String) :
    Option Value → Except FoldError Value
  | some v => .ok v
  | none =>
    if method ∈ known then .error (e.invalid ("Cannot evaluate call " ++ Error.quoted method))
    else .error (.failed
      (Error.unsupported e.display ("Unsupported call " ++ Error.quoted method)))

def foldUnary (e : Expr) (op : UnaryOp) (v : Value) : Except FoldError Value :=
  match op, v with
  | .not, .boolean b => .ok (.boolean !b)
  | .negate, .integer i => e.valueOr "Integer overflow" ((int64? (-i.toInt)).map .integer)
  | .negate, .fractal x => .ok (.fractal (-x))
  | _, _ => .error (e.invalid "Invalid operand")

mutual

/-- The value of an expression that does not refer to a parameter. -/
def fold (bindings : Bindings) (e : Expr) : Except FoldError Value :=
  if e.referencesParam then .error .notConstant
  else
    match e with
    | param _ => .error .notConstant
    | lambda _ _ => .error .notConstant
    | constant v => .ok v
    | captured name =>
      (captured name).valueOr ("Unbound variable " ++ Error.quoted name) (bindings.get? name)
    | array items => do
      let values ← foldList bindings items
      .ok (.list values)
    | unary op operand => do
      let v ← fold bindings operand
      (unary op operand).foldUnary op v
    | binary op left right => do
      let a ← fold bindings left
      let b ← fold bindings right
      (binary op left right).valueOr "Invalid operands" (Value.binary? op a b)
    | member target name => do
      let v ← fold bindings target
      (member target name).valueOr ("Unknown member " ++ Error.quoted name) (v.member? name)
    | call method args => do
      let values ← foldList bindings args
      (call method args).callValue method Value.functions (Value.functionCall? method values)
    | methodCall target method args => do
      let values ← foldList bindings args
      let v ← fold bindings target
      (methodCall target method args).callValue method Value.methods
        (Value.methodCall? v method values)

def foldList (bindings : Bindings) : List Expr → Except FoldError (List Value)
  | [] => .ok []
  | e :: rest => do
    let v ← fold bindings e
    let values ← foldList bindings rest
    .ok (v :: values)

end

theorem fold_of_referencesParam {e : Expr} {bindings : Bindings} (h : e.referencesParam = true) :
    e.fold bindings = .error .notConstant := by
  unfold fold
  rw [if_pos h]

end Expr

end DocStore
