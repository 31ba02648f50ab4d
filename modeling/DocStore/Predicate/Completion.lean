import DocStore.Predicate.Node

/-!
# Completing predicates

Two passes make a node sequence a predicate of the database. A boolean member that stands alone is
compared with true, and a check for a value becomes a comparison with null.
-/

namespace DocStore

/-- How an explicit comparison of a check for a value reads. -/
inductive HasValueMode where
  /-- `== false` and `!= true` both mean null. -/
  | eitherForm
  /-- Only `== false` means null. -/
  | equalFalse
  deriving DecidableEq, Repr, Inhabited

def HasValueMode.meansNull (mode : HasValueMode) (op : Operator) (flag : Bool) : Bool :=
  match mode, op, flag with
  | _, .equal, false => true
  | .eitherForm, .notEqual, true => true
  | _, _, _ => false

namespace Predicate

def startsWithComparison : List Node → Bool
  | [] => false
  | n :: _ => n.isComparison

def isPlainBoolean : Node → Bool
  | .member m => m.isBoolean && !m.hasValue
  | _ => false

/-- Completes boolean members; `compared` tells that a comparison operator stands before. -/
def completeBooleansFrom (compared : Bool) : List Node → List Node
  | [] => []
  | n :: rest =>
    if isPlainBoolean n && !startsWithComparison rest && !compared then
      n :: .operator .equal :: .value (.boolean true) :: completeBooleansFrom false rest
    else n :: completeBooleansFrom n.isComparison rest

/-- A boolean member on neither side of a comparison is compared with true. -/
def completeBooleans (nodes : List Node) : List Node :=
  completeBooleansFrom false nodes

def nullCheck (m : MemberRef) (isNull : Bool) : List Node :=
  [.member { m with hasValue := false }, .operator (if isNull then .is else .isNot), .null]

/-- A check for a value becomes a comparison with null; one that is compared with a boolean takes
that comparison in. -/
def completeHasValue (mode : HasValueMode) : List Node → List Node
  | [] => []
  | .member m :: .operator op :: .value (.boolean flag) :: rest =>
    if m.hasValue then
      if op = .equal ∨ op = .notEqual then
        nullCheck m (mode.meansNull op flag) ++ completeHasValue mode rest
      else
        nullCheck m false ++ .operator op :: .value (.boolean flag) :: completeHasValue mode rest
    else .member m :: .operator op :: .value (.boolean flag) :: completeHasValue mode rest
  | n :: rest =>
    match n with
    | .member m =>
      if m.hasValue then nullCheck m false ++ completeHasValue mode rest
      else n :: completeHasValue mode rest
    | _ => n :: completeHasValue mode rest

def complete (mode : HasValueMode) (nodes : List Node) : List Node :=
  completeHasValue mode (completeBooleans nodes)

end Predicate

end DocStore
