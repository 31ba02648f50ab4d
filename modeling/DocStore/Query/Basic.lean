import DocStore.Expr.Parser
import DocStore.Predicate.Lowering
import DocStore.Query.Paging

/-!
# Queries

A query against one structure type: a predicate, sort keys, structures to include, and a limit or a
page. `Query.Builder` adds one part after another, each given as a lambda; several predicates are
all required.
-/

namespace DocStore

structure Query where
  structureName : String
  predicate : List Node := []
  sortings : List Sorting := []
  includes : List Inclusion := []
  take : Option Nat := none
  paging : Option Paging := none
  deriving DecidableEq

namespace Query

def sortingOf (schema : Schema) (l : Lambda) (direction : SortDirection) :
    Except Error Sorting := do
  let m ← MemberRef.ofExpr schema l.param l.body
  if m.hasValue then .error (Error.unsupported l.display "Cannot sort by a HasValue check")
  else .ok ⟨m, direction⟩

/-- The include key of a lambda: an indexed member of numbers or guids. -/
def inclusionOf (schema : Schema) (target : String) (l : Lambda) : Except Error Inclusion := do
  let m ← MemberRef.ofExpr schema l.param l.body
  if (m.family = some .guid ∨ m.family = some .integer) ∧ !m.hasValue then .ok ⟨m, target⟩
  else
    .error (Error.unsupported l.display
      ("Include of " ++ Error.quoted target ++ " needs an indexed guid or integer member"))

/-- Two predicates that both hold, each in a group; an empty one is left out. -/
def conjoin (previous next : List Node) : List Node :=
  if previous.isEmpty then next
  else .startGroup :: previous ++ .endGroup :: .operator .and :: .startGroup :: next ++ [.endGroup]

structure Builder where
  schema : Schema
  bindings : Bindings := []
  mode : HasValueMode := .eitherForm
  query : Query

namespace Builder

def ofSchema (schema : Schema) (mode : HasValueMode) : Builder :=
  { schema, mode, query := { structureName := schema.name } }

def bind (b : Builder) (name : String) (value : Value) : Builder :=
  { b with bindings := b.bindings.bind name value }

def filter (b : Builder) (l : Lambda) : Except Error Builder := do
  let nodes ← Predicate.ofLambda b.schema b.bindings b.mode l
  .ok { b with query := { b.query with predicate := conjoin b.query.predicate nodes } }

def orderBy (b : Builder) (l : Lambda) (direction : SortDirection) : Except Error Builder := do
  let sorting ← sortingOf b.schema l direction
  .ok { b with query := { b.query with sortings := b.query.sortings ++ [sorting] } }

def including (b : Builder) (target : String) (l : Lambda) : Except Error Builder := do
  let i ← inclusionOf b.schema target l
  .ok { b with query := { b.query with includes := b.query.includes ++ [i] } }

def take (b : Builder) (count : Nat) : Builder :=
  { b with query := { b.query with take := some count } }

def page (b : Builder) (index size : Nat) : Except Error Builder := do
  let paging ← Paging.ofParts index size
  .ok { b with query := { b.query with paging := some paging } }

end Builder

end Query

end DocStore
