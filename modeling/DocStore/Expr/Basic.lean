import DocStore.Value.Basic

/-!
# Expressions

The expressions of predicates, sort keys and include keys. A `Lambda` names the item that is
queried; `Expr.param` refers to the parameter of an enclosing lambda, `Expr.captured` to a value
that is bound outside.
-/

namespace DocStore

inductive BinaryOp where
  | equal
  | notEqual
  | lessThan
  | lessOrEqual
  | greaterThan
  | greaterOrEqual
  | and
  | or
  | add
  | subtract
  | multiply
  | divide
  deriving DecidableEq, Repr, Inhabited

inductive UnaryOp where
  | not
  | negate
  deriving DecidableEq, Repr, Inhabited

inductive Expr where
  | param (name : String)
  | member (target : Expr) (name : String)
  | constant (value : Value)
  | captured (name : String)
  | binary (op : BinaryOp) (left right : Expr)
  | unary (op : UnaryOp) (operand : Expr)
  | call (method : String) (args : List Expr)
  | methodCall (target : Expr) (method : String) (args : List Expr)
  | lambda (param : String) (body : Expr)
  | array (items : List Expr)
  deriving Inhabited

structure Lambda where
  param : String
  body : Expr
  deriving Inhabited

namespace BinaryOp

def symbol : BinaryOp → String
  | equal => "=="
  | notEqual => "!="
  | lessThan => "<"
  | lessOrEqual => "<="
  | greaterThan => ">"
  | greaterOrEqual => ">="
  | and => "&&"
  | or => "||"
  | add => "+"
  | subtract => "-"
  | multiply => "*"
  | divide => "/"

def swapped : BinaryOp → BinaryOp
  | lessThan => greaterThan
  | lessOrEqual => greaterOrEqual
  | greaterThan => lessThan
  | greaterOrEqual => lessOrEqual
  | op => op

end BinaryOp

namespace Expr

def isBinary : Expr → Bool
  | binary _ _ _ => true
  | _ => false

mutual

def referencesParam : Expr → Bool
  | param _ => true
  | constant _ => false
  | captured _ => false
  | member target _ => target.referencesParam
  | binary _ left right => left.referencesParam || right.referencesParam
  | unary _ operand => operand.referencesParam
  | call _ args => anyReferencesParam args
  | methodCall target _ args => target.referencesParam || anyReferencesParam args
  | lambda _ body => body.referencesParam
  | array items => anyReferencesParam items

def anyReferencesParam : List Expr → Bool
  | [] => false
  | e :: rest => e.referencesParam || anyReferencesParam rest

end

mutual

/-- The expression as messages show it: operators in parentheses, strings without escapes. -/
def display : Expr → String
  | param name => name
  | captured name => name
  | member target name => target.display ++ "." ++ name
  | constant v => v.display
  | binary op left right => "(" ++ left.display ++ " " ++ op.symbol ++ " " ++ right.display ++ ")"
  | unary .not operand => "!" ++ operand.display
  | unary .negate operand => "-" ++ operand.display
  | call method args => method ++ "(" ++ displayList args ++ ")"
  | methodCall target method args =>
    target.display ++ "." ++ method ++ "(" ++ displayList args ++ ")"
  | lambda p body => p ++ " => " ++ body.display
  | array items => "[" ++ displayList items ++ "]"

def displayList : List Expr → String
  | [] => ""
  | [e] => e.display
  | e :: rest => e.display ++ ", " ++ displayList rest

end

end Expr

def Lambda.display (l : Lambda) : String :=
  l.param ++ " => " ++ l.body.display

end DocStore
