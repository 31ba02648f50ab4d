import DocStore.Predicate.Node
import DocStore.Schema.Layout
import DocStore.Sql.Text

/-!
# Compiled queries

The parts that all statements of one query share. Every member that the query refers to is a column
of the derived table `rs`, under an alias of its own; the predicate is a list of tokens over those
columns and numbered parameters.
-/

namespace DocStore

structure MemberColumn where
  path : String
  aliasName : String
  table : IndexTable
  deriving DecidableEq, Inhabited

def MemberColumn.valueColumn (m : MemberColumn) : String :=
  if m.table.hasStringValue then Column.stringValue else Column.value

inductive ColumnRef where
  | identity
  | aliased (name : String)
  deriving DecidableEq, Inhabited

def ColumnRef.sql : ColumnRef → Sql
  | identity => [.raw "rs.", .name Column.structureId]
  | aliased name => [.raw "rs.", .name name]

inductive Token where
  | column (c : ColumnRef)
  | operator (op : Operator)
  | parameter (number : Nat)
  /-- The parameters of a list; the empty list has no rows. -/
  | list (numbers : List Nat)
  | null
  | opening
  | closing
  deriving DecidableEq, Inhabited

namespace Token

def sql : Token → Sql
  | column c => c.sql
  | operator op => [.raw op.sql]
  | parameter number => [.parameter number]
  | list [] => [.raw "(select null where 1 = 0)"]
  | list numbers =>
    .raw "(" :: Sql.join ", " (numbers.map fun number => [.parameter number]) ++ [.raw ")"]
  | null => [.raw "null"]
  | opening => [.raw "("]
  | closing => [.raw ")"]

/-- A space stands between two tokens, but neither after an opening nor before a closing
parenthesis. -/
def space (previous next : Token) : Sql :=
  if previous = opening ∨ next = closing then [] else [.raw " "]

def sqlAfter (previous : Token) : List Token → Sql
  | [] => []
  | t :: rest => space previous t ++ t.sql ++ sqlAfter t rest

def listSql : List Token → Sql
  | [] => []
  | t :: rest => t.sql ++ sqlAfter t rest

end Token

/-- The body of another structure, joined by the identity that a column holds. -/
structure IncludeJoin where
  number : Nat
  target : String
  column : ColumnRef
  deriving DecidableEq, Inhabited

namespace IncludeJoin

def table (i : IncludeJoin) : String :=
  "inc" ++ i.number.repr

def output (i : IncludeJoin) : String :=
  "IncludeJson" ++ i.number.repr

def joinSql (i : IncludeJoin) : Sql :=
  .raw "left join " :: .name (TableName.body i.target) ::
    .raw (" " ++ i.table ++ " on " ++ i.table ++ ".") :: .name Column.structureId ::
    .raw " = " :: i.column.sql

def columnSql (i : IncludeJoin) : Sql :=
  [.raw (i.table ++ "."), .name Column.json, .raw " as ", .name i.output]

end IncludeJoin

structure CompiledQuery where
  members : List MemberColumn
  predicate : List Token
  orderBy : List (ColumnRef × SortDirection)
  includes : List IncludeJoin
  /-- The values of the parameters of the predicate, in order. -/
  values : List Value
  deriving DecidableEq, Inhabited

namespace CompiledQuery

def orderTerm (term : ColumnRef × SortDirection) : Sql :=
  term.1.sql ++ [.raw (" " ++ term.2.sql)]

def memberSql (m : MemberColumn) (i : Nat) : Sql :=
  [.raw (", mem" ++ i.repr ++ "."), .name m.valueColumn, .raw " as ", .name m.aliasName]

def memberJoin (structureName : String) (m : MemberColumn) (i : Nat) : Sql :=
  let table := "mem" ++ i.repr
  [.raw " left join ", .name (TableName.index structureName m.table),
    .raw (" " ++ table ++ " on " ++ table ++ "."), .name Column.structureId, .raw " = s.",
    .name Column.structureId, .raw (" and " ++ table ++ "."), .name Column.memberPath,
    .raw " = ", .literal m.path]

/-- The from clause: the bodies alone, or a derived table with a column per member. -/
def source (compiled : CompiledQuery) (structureName : String) (withIncludes : Bool) : Sql :=
  let body := Piece.name (TableName.body structureName)
  let rows :=
    if compiled.members.isEmpty then [.raw "from ", body, .raw " rs"]
    else
      .raw "from (select s." :: .name Column.structureId :: .raw ", s." :: .name Column.json ::
        (compiled.members.zipIdx.flatMap fun m => memberSql m.1 m.2) ++
        .raw " from " :: body :: .raw " s" ::
        (compiled.members.zipIdx.flatMap fun m => memberJoin structureName m.1 m.2) ++
        [.raw ") rs"]
  if withIncludes then rows ++ compiled.includes.flatMap fun i => .raw " " :: i.joinSql else rows

end CompiledQuery

end DocStore
