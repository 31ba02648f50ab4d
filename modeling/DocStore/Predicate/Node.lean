import DocStore.Value.Basic

/-!
# Predicates as node sequences

A predicate is held as a flat sequence in infix order: members, values and null as operands,
operators between them, and groups for parentheses. Sort keys and include keys are nodes of their
own, which have no place in a predicate.
-/

namespace DocStore

inductive Operator where
  | equal
  | notEqual
  | lessThan
  | lessOrEqual
  | greaterThan
  | greaterOrEqual
  | and
  | or
  | not
  | is
  | isNot
  | like
  | inList
  | notInList
  deriving DecidableEq, Repr, Inhabited

namespace Operator

def sql : Operator → String
  | equal => "="
  | notEqual => "<>"
  | lessThan => "<"
  | lessOrEqual => "<="
  | greaterThan => ">"
  | greaterOrEqual => ">="
  | and => "and"
  | or => "or"
  | not => "not"
  | is => "is"
  | isNot => "is not"
  | like => "like"
  | inList => "in"
  | notInList => "not in"

def isComparison : Operator → Bool
  | and | or | not => false
  | _ => true

end Operator

structure MemberRef where
  path : String
  /-- The path without its last name, if it has several. -/
  parent : Option String
  /-- The family of the stored values, none when the schema does not index the member. -/
  family : Option Family
  isId : Bool
  /-- The reference asks whether the member has a value. -/
  hasValue : Bool
  deriving DecidableEq, Inhabited

namespace MemberRef

def name (m : MemberRef) : String :=
  String.ofList ((Text.pieces '.' m.path.toList).getLastD [])

def isBoolean (m : MemberRef) : Bool :=
  m.family = some .boolean

end MemberRef

inductive SortDirection where
  | asc
  | desc
  deriving DecidableEq, Repr, Inhabited

def SortDirection.sql : SortDirection → String
  | asc => "asc"
  | desc => "desc"

structure Sorting where
  member : MemberRef
  direction : SortDirection
  deriving DecidableEq, Inhabited

/-- A member that holds the identity of another structure, whose body is fetched along. -/
structure Inclusion where
  member : MemberRef
  target : String
  deriving DecidableEq, Inhabited

inductive Node where
  | member (m : MemberRef)
  | operator (op : Operator)
  | value (v : Value)
  | null
  | startGroup
  | endGroup
  | sorting (s : Sorting)
  | inclusion (i : Inclusion)
  deriving DecidableEq, Inhabited

namespace Node

def isMember : Node → Bool
  | member _ => true
  | _ => false

def operator? : Node → Option Operator
  | operator op => some op
  | _ => none

def isComparison : Node → Bool
  | operator op => op.isComparison
  | _ => false

def ofValue (v : Value) : Node :=
  if v.isNull then null else value v

end Node

end DocStore
