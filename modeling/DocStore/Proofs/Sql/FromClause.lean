import DocStore.Database.Basic
import DocStore.Proofs.Database.Cells
import DocStore.Proofs.Sql.Lexeme

/-!
# From clauses

A from clause is read from its text and evaluated over a database. It is one table, or a derived
table: columns of a base table and of the tables that are left-joined to it one after another. A
left join keeps every row that it joins to: with each of its partners, or with nulls if there are
none.
-/

namespace DocStore

structure SourceColumn where
  source : String
  name : String
  deriving DecidableEq, Inhabited

structure LeftJoin where
  table : String
  source : String
  left : SourceColumn
  right : SourceColumn
  column : SourceColumn
  text : String
  deriving DecidableEq, Inhabited

inductive FromClause where
  | table (name source : String)
  /-- The columns stand with the names that they have in the derived table. -/
  | derived (columns : List (SourceColumn × String)) (base baseSource : String)
      (joins : List LeftJoin) (source : String)
  deriving DecidableEq, Inhabited

namespace FromClause

def columns? : List Lexeme → Option (List (SourceColumn × String) × List Lexeme)
  | .column source name :: .sign comma :: rest =>
    if comma = ',' then
      (columns? rest).map fun (columns, rest) => ((⟨source, name⟩, name) :: columns, rest)
    else none
  | .column source name :: .word as :: .name output :: .sign comma :: rest =>
    if as = "as" ∧ comma = ',' then
      (columns? rest).map fun (columns, rest) => ((⟨source, name⟩, output) :: columns, rest)
    else none
  | .column source name :: .word as :: .name output :: .word start :: rest =>
    if as = "as" ∧ start = "from" then some ([(⟨source, name⟩, output)], rest) else none
  | _ => none

def joins? : List Lexeme → Option (List LeftJoin × List Lexeme)
  | .word left :: .word join :: .name target :: .word source :: .word on :: .column a b ::
      .sign equal :: .column c d :: .word both :: .column e f :: .sign same :: .literal text ::
      rest =>
    if [left, join, on, both] = ["left", "join", "on", "and"] ∧ [equal, same] = ['=', '='] then
      (joins? rest).map fun (joins, rest) =>
        (⟨target, source, ⟨a, b⟩, ⟨c, d⟩, ⟨e, f⟩, text⟩ :: joins, rest)
    else none
  | rest => some ([], rest)

def ofLexemes? : List Lexeme → Option FromClause
  | [.word start, .name name, .word source] =>
    if start = "from" then some (.table name source) else none
  | .word start :: .sign opening :: .word select :: rest =>
    if start = "from" ∧ opening = '(' ∧ select = "select" then
      match columns? rest with
      | some (columns, .name base :: .word baseSource :: rest) =>
        match joins? rest with
        | some (joins, [.sign closing, .word source]) =>
          if closing = ')' then some (.derived columns base baseSource joins source) else none
        | _ => none
      | _ => none
    else none
  | _ => none

def ofText? (text : String) : Option FromClause :=
  (Lexeme.ofText? text).bind ofLexemes?

/-- A row of every source, with the columns of its table; a source without a partner has none. -/
abbrev Scope := List (String × List String × Option (List Value))

def valueOf (columns : List String) (column : String) : Option (List Value) → Value
  | some row => Table.under columns row column
  | none => .null

def Scope.value? (scope : Scope) (c : SourceColumn) : Option Value :=
  match scope.lookup c.source with
  | some (columns, row) => if c.name ∈ columns then some (valueOf columns c.name row) else none
  | none => none

def equal (v w : Value) : Bool :=
  !v.isNull && v.same w

def holds? (join : LeftJoin) (scope : Scope) : Option Bool :=
  match scope.value? join.left, scope.value? join.right, scope.value? join.column with
  | some left, some right, some value => some (equal left right && equal value (.string join.text))
  | _, _, _ => none

def meeting? (condition : List Value → Option Bool) : List (List Value) → Option (List (List Value))
  | [] => some []
  | row :: rows =>
    match condition row, meeting? condition rows with
    | some met, some others => some (if met then row :: others else others)
    | _, _ => none

def joined? (db : Database) (join : LeftJoin) (scope : Scope) : Option (List Scope) := do
  let t ← db.table? join.table
  let partners ← meeting?
    (fun row => holds? join ((join.source, t.columns, some row) :: scope)) t.rows
  some (match partners with
    | [] => [(join.source, t.columns, none) :: scope]
    | partners => partners.map fun row => (join.source, t.columns, some row) :: scope)

def joinAll? (db : Database) : List LeftJoin → List Scope → Option (List Scope)
  | [], scopes => some scopes
  | join :: joins, scopes => do
    let next ← scopes.mapM (joined? db join)
    joinAll? db joins next.flatten

/-- The rows of a from clause, each with the names of its columns. -/
def rows? (db : Database) : FromClause → Option (List (List (String × Value)))
  | table name _ => do
    let t ← db.table? name
    some (t.rows.map fun row => t.columns.map fun c => (c, Table.under t.columns row c))
  | derived columns base baseSource joins _ => do
    let t ← db.table? base
    let scopes ← joinAll? db joins (t.rows.map fun row => [(baseSource, t.columns, some row)])
    scopes.mapM fun scope => columns.mapM fun c => (scope.value? c.1).map fun v => (c.2, v)

end FromClause

end DocStore
