import DocStore.Query.Basic
import DocStore.Sql.Compiled

/-!
# Compiling queries

The members of the predicate, the sort keys and the includes are given aliases in the order of
their first use, and the values of the predicate become parameters in the order of the sequence.
Compilation fails at a member that the schema does not index, at a list that does not follow an
`in`, and at a node that has no place in a predicate.
-/

namespace DocStore

namespace Compiler

def reserved : List String :=
  [Column.structureId, Column.json, Column.rowNumber]

def candidate (naming : ColumnNaming) (path : String) (attempt : Nat) : String :=
  if attempt = 0 then naming path else naming (path ++ "_" ++ attempt.repr)

def freeAlias? (naming : ColumnNaming) (path : String) (taken : List String) :
    Nat → Nat → Option String
  | 0, _ => none
  | fuel + 1, attempt =>
    let name := candidate naming path attempt
    if name ∈ taken then freeAlias? naming path taken fuel (attempt + 1) else some name

/-- A search has this many numbers for its candidates. -/
def attempts : Nat := 2147483648

def newAlias (naming : ColumnNaming) (members : List MemberColumn) (path : String) : String :=
  (freeAlias? naming path (reserved ++ members.map MemberColumn.aliasName) attempts 0).getD
    (naming path)

def columnRef (naming : ColumnNaming) (schema : Schema) (members : List MemberColumn)
    (m : MemberRef) : Except Error (ColumnRef × List MemberColumn) :=
  if m.isId then .ok (.identity, members)
  else
    match members.find? fun c => c.path = m.path with
    | some c => .ok (.aliased c.aliasName, members)
    | none =>
      match schema.accessor? m.path with
      | none => .error (Error.schemaMismatch schema.name m.path)
      | some a =>
        let chosen := newAlias naming members m.path
        .ok (.aliased chosen, members ++ [⟨m.path, chosen, a.storageFamily.indexTable⟩])

structure State where
  members : List MemberColumn := []
  values : List Value := []

/-- The token of a node that follows a node with the operator `previous`, if it has one. -/
def compileNode (naming : ColumnNaming) (schema : Schema) (previous : Option Operator)
    (state : State) : Node → Except Error (Token × State)
  | .member m => do
    let (c, members) ← columnRef naming schema state.members m
    .ok (.column c, { state with members })
  | .operator op => .ok (.operator op, state)
  | .value (.list values) =>
    if previous = some .inList ∨ previous = some .notInList then
      .ok (.list (List.range' state.values.length values.length),
        { state with values := state.values ++ values })
    else .error Error.misplacedList
  | .value v => .ok (.parameter state.values.length, { state with values := state.values ++ [v] })
  | .null => .ok (.null, state)
  | .startGroup => .ok (.opening, state)
  | .endGroup => .ok (.closing, state)
  | .sorting _ => .error Error.misplacedNode
  | .inclusion _ => .error Error.misplacedNode

def compileWhere (naming : ColumnNaming) (schema : Schema) (previous : Option Operator)
    (state : State) : List Node → Except Error (List Token × State)
  | [] => .ok ([], state)
  | n :: rest => do
    let (token, state) ← compileNode naming schema previous state n
    let (tokens, state) ← compileWhere naming schema n.operator? state rest
    .ok (token :: tokens, state)

def compileSortings (naming : ColumnNaming) (schema : Schema) (members : List MemberColumn) :
    List Sorting → Except Error (List (ColumnRef × SortDirection) × List MemberColumn)
  | [] => .ok ([], members)
  | s :: rest => do
    let (c, members) ← columnRef naming schema members s.member
    let (terms, members) ← compileSortings naming schema members rest
    .ok ((c, s.direction) :: terms, members)

def compileIncludes (naming : ColumnNaming) (schema : Schema) (members : List MemberColumn)
    (number : Nat) : List Inclusion → Except Error (List IncludeJoin × List MemberColumn)
  | [] => .ok ([], members)
  | i :: rest => do
    let (c, members) ← columnRef naming schema members i.member
    let (joins, members) ← compileIncludes naming schema members (number + 1) rest
    .ok (⟨number, i.target, c⟩ :: joins, members)

end Compiler

def Query.compile (naming : ColumnNaming) (schema : Schema) (query : Query) :
    Except Error CompiledQuery := do
  let (predicate, state) ←
    Compiler.compileWhere naming schema none ⟨[], []⟩ query.predicate
  let (orderBy, members) ← Compiler.compileSortings naming schema state.members query.sortings
  let (includes, members) ← Compiler.compileIncludes naming schema members 0 query.includes
  .ok ⟨members, predicate, orderBy, includes, state.values⟩

end DocStore
