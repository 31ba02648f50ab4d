import DocStore.Config
import DocStore.Sql.Compiler
import DocStore.Sql.Dialect

/-!
# Generating statements

A query has a statement in each of four shapes: the structures with their includes, their
identities, their number, and whether there are any. All shapes share the from clause and the
predicate of the compiled query.
-/

namespace DocStore

inductive Shape where
  | full
  | ids
  | count
  | exists
  deriving DecidableEq, Repr, Inhabited

structure Generator where
  dialect : Dialect
  naming : ColumnNaming

namespace Generator

def ofConfig (c : Config) : Generator :=
  ⟨c.dialect, ColumnName.ofPath c.identifierLength⟩

def filterSql (compiled : CompiledQuery) : Sql :=
  if compiled.predicate.isEmpty then [] else .raw " where " :: Token.listSql compiled.predicate

def columnsSql (compiled : CompiledQuery) (full : Bool) : Sql :=
  .raw "rs." :: .name Column.structureId ::
    if full then
      .raw ", rs." :: .name Column.json ::
        compiled.includes.flatMap fun i => .raw ", " :: i.columnSql
    else []

def outputs (compiled : CompiledQuery) (full : Bool) : List String :=
  Column.structureId ::
    if full then Column.json :: compiled.includes.map IncludeJoin.output else []

def orderSql (compiled : CompiledQuery) : Sql :=
  Sql.join ", " (compiled.orderBy.map CompiledQuery.orderTerm)

/-- Pages need an order; by default that of the identities. -/
def pageOrderSql (compiled : CompiledQuery) : Sql :=
  if compiled.orderBy.isEmpty then [.raw "rs.", .name Column.structureId, .raw " asc"]
  else orderSql compiled

def select (g : Generator) (query : Query) (compiled : CompiledQuery) (full : Bool) :
    Sql × List Value :=
  let columns := columnsSql compiled full
  let source := compiled.source query.structureName full
  let filter := filterSql compiled
  match query.paging with
  | some paging =>
    (g.dialect.paged ⟨columns, outputs compiled full, source, filter, pageOrderSql compiled⟩
      compiled.values.length, g.dialect.pagingValues paging)
  | none =>
    let limit := match query.take with
      | some count => g.dialect.limit count
      | none => []
    let order := if compiled.orderBy.isEmpty then [] else .raw " order by " :: orderSql compiled
    (.raw "select " :: limit ++ columns ++ .raw " " :: source ++ filter ++ order, [])

/-- The statement of a compiled query, and the values of its paging. -/
def statement (g : Generator) (query : Query) (compiled : CompiledQuery) (shape : Shape) :
    Sql × List Value :=
  let rows := compiled.source query.structureName false ++ filterSql compiled
  match shape with
  | .full => g.select query compiled true
  | .ids => g.select query compiled false
  | .count => (.raw "select count(*) " :: rows, [])
  | .exists => (g.dialect.existence (.raw "select 1 " :: rows), [])

def generate (g : Generator) (schema : Schema) (query : Query) (shape : Shape) :
    Except Error Command := do
  let compiled ← query.compile g.naming schema
  let (sql, values) := g.statement query compiled shape
  .ok (Command.ofValues sql (compiled.values ++ values))

end Generator

end DocStore
