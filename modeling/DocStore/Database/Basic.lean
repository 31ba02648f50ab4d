import DocStore.Database.Statement
import DocStore.Database.Table
import DocStore.Sql.Text

/-!
# The database in memory

A database holds named tables and a log of what was done. Tables can be made to fail. An operation
takes the database to a result and the database after it, so what a failing operation leaves behind
can be seen.
-/

namespace DocStore

structure BulkCopyRecord where
  table : String
  rows : Nat
  batches : Nat
  deriving DecidableEq, Inhabited

structure Database where
  tables : List (String × Table) := []
  executed : List Command := []
  bulkCopies : List BulkCopyRecord := []
  failing : List String := []
  deriving DecidableEq, Inhabited

abbrev Action (α : Type) := ExceptT Error (StateM Database) α

namespace Action

def of {α : Type} (f : Database → Except Error α × Database) : Action α := f

def ofExcept {α : Type} (result : Except Error α) : Action α :=
  of fun db => (result, db)

def on {α : Type} (action : Action α) (db : Database) : Except Error α × Database :=
  action.run.run db

@[simp] theorem on_of {α : Type} (f : Database → Except Error α × Database) (db : Database) :
    (of f).on db = f db := rfl

@[simp] theorem on_pure {α : Type} (a : α) (db : Database) :
    (pure a : Action α).on db = (.ok a, db) := rfl

@[simp] theorem on_throw {α : Type} (e : Error) (db : Database) :
    (throw e : Action α).on db = (.error e, db) := rfl

theorem on_bind {α β : Type} (x : Action α) (f : α → Action β) (db : Database) :
    (x >>= f).on db =
      match x.on db with
      | (.ok a, db) => (f a).on db
      | (.error e, db) => (.error e, db) := by
  change (ExceptT.bind x f : Action β) db = _
  simp only [ExceptT.bind, ExceptT.mk, on, ExceptT.run, StateT.run, bind, StateT.bind,
    ExceptT.bindCont]
  rcases x db with ⟨_ | _, _⟩ <;> rfl

end Action

namespace Database

def empty : Database := ⟨[], [], [], []⟩

def putTable (name : String) (table : Table) : List (String × Table) → List (String × Table)
  | [] => [(name, table)]
  | other :: rest =>
    if other.1 = name then (name, table) :: rest else other :: putTable name table rest

def table? (db : Database) (name : String) : Option Table :=
  db.tables.lookup name

def setTable (db : Database) (name : String) (table : Table) : Database :=
  { db with tables := putTable name table db.tables }

def createTable (db : Database) (name : String) (columns : List String) : Database :=
  db.setTable name ⟨columns, []⟩

def failOn (db : Database) (name : String) : Database :=
  { db with failing := name :: db.failing }

def clearLog (db : Database) : Database :=
  { db with executed := [], bulkCopies := [] }

def columnValues (db : Database) (name column : String) : List Value :=
  match db.table? name with
  | none => []
  | some t =>
    match t.ordinal? column with
    | none => []
    | some i => t.rows.map fun row => Table.cell row i

def check (db : Database) (name : String) : Except Error Unit :=
  if name ∈ db.failing then .error (Error.tableUnavailable name) else .ok ()

def table (db : Database) (name : String) : Except Error Table := do
  db.check name
  match db.table? name with
  | some t => .ok t
  | none => .error (Error.unknownTable name)

/-- The number of rows that a statement affects, and the database after it. -/
def apply (db : Database) (command : Command) : Statement → Except Error Nat × Database
  | .create name columns =>
    match db.check name with
    | .error e => (.error e, db)
    | .ok () =>
      if (db.table? name).isSome then (.error (Error.tableExists name), db)
      else (.ok 0, db.createTable name columns)
  | .dropColumns name columns =>
    match db.table name with
    | .error e => (.error e, db)
    | .ok t =>
      let (result, t) := t.dropColumns columns
      (result.map fun _ => 0, db.setTable name t)
  | .addColumns name columns =>
    match db.table name with
    | .error e => (.error e, db)
    | .ok t =>
      let (result, t) := t.addColumns columns
      (result.map fun _ => 0, db.setTable name t)
  | .delete name column parameter =>
    match (do let t ← db.table name; let i ← t.ordinal column; pure (t, i)) with
    | .error e => (.error e, db)
    | .ok (t, i) =>
      let rows := t.rowsWithout i ((command.param? parameter).getD .null)
      (.ok (t.rows.length - rows.length), db.setTable name ⟨t.columns, rows⟩)
  | .insert name columns parameters =>
    let values := parameters.map fun p => (command.param? p).getD .null
    let filled := do
      let t ← db.table name
      let row ← t.fillRow t.emptyRow (columns.zip values)
      pure (t, row)
    match filled with
    | .error e => (.error e, db)
    | .ok (t, row) => (.ok 1, db.setTable name ⟨t.columns, t.rows ++ [row]⟩)

/-- Executes a command. A text that is no statement affects nothing; a command that fails is not
logged. -/
def execute (command : Command) : Action Nat := Action.of fun db =>
  let (result, db) := match Statement.ofText? command.sql with
    | some statement => db.apply command statement
    | none => (.ok 0, db)
  match result with
  | .ok affected => (.ok affected, { db with executed := db.executed ++ [command] })
  | .error e => (.error e, db)

def executeBatch : List Command → Action Nat
  | [] => pure 0
  | command :: rest => do
    let affected ← execute command
    let others ← executeBatch rest
    pure (affected + others)

def tableExists (name : String) : Action Bool := Action.of fun db =>
  ((db.check name).map fun _ => (db.table? name).isSome, db)

def columnNames (name : String) : Action (List String) := Action.of fun db =>
  ((db.table name).map Table.columns, db)

def selected (db : Database) (sql : String) : Except Error (List Value) :=
  match Statement.selectDistinct? sql with
  | none => .error (Error.unsupportedQuery sql)
  | some (column, name) => do
    let t ← db.table name
    let i ← t.ordinal column
    .ok (Table.distinct [] (t.rows.map fun row => Table.cell row i))

def queryColumn (command : Command) : Action (List Value) := Action.of fun db =>
  (db.selected command.sql, db)

end Database

end DocStore
