import DocStore.Database.Basic
import DocStore.Schema.Layout

/-!
# Rows for bulk copies

A `RowSource` has a layout and rows whose values are read by ordinal. A `RowReader` walks over its
rows, forward only. A bulk copy reads all rows before it changes the table.
-/

namespace DocStore

structure RowSource where
  layout : TableLayout
  /-- The value of a row at an ordinal, if the row has it. -/
  rows : List (Nat → Except Error Value)

namespace RowSource

def table (s : RowSource) : String :=
  s.layout.table

def fieldCount (s : RowSource) : Nat :=
  s.layout.columns.length

def fieldName? (s : RowSource) (ordinal : Nat) : Option String :=
  s.layout.columns[ordinal]?

def mappings (s : RowSource) : List (Nat × String) :=
  s.layout.columns.zipIdx.map fun c => (c.2, c.1)

end RowSource

structure RowReader where
  source : RowSource
  next : Nat := 0
  current : Option Nat := none

namespace RowReader

def read (r : RowReader) : Bool × RowReader :=
  if r.next < r.source.rows.length then
    (true, { r with next := r.next + 1, current := some r.next })
  else (false, { r with current := none })

def value (r : RowReader) (ordinal : Nat) : Except Error Value :=
  match r.current.bind fun i => r.source.rows[i]? with
  | some row => row ordinal
  | none => .error Error.notOnRow

end RowReader

namespace Table

/-- The positions of the columns that the mappings name, with the ordinals they are filled from. -/
def mapped (t : Table) (name : String) :
    List (Nat × String) → Except Error (List (Nat × Nat))
  | [] => .ok []
  | (source, column) :: rest =>
    match t.ordinal? column with
    | none => .error (Error.unmatchedMapping column name)
    | some i => do
      let others ← t.mapped name rest
      .ok ((source, i) :: others)

def copyRow (row : List Value) (value : Nat → Except Error Value) :
    List (Nat × Nat) → Except Error (List Value)
  | [] => .ok row
  | (source, i) :: rest => do
    let v ← value source
    copyRow (row.set i v) value rest

end Table

namespace Database

def copied (db : Database) (name : String) (mappings : List (Nat × String)) (source : RowSource) :
    Except Error (Table × Nat) := do
  let t ← db.table name
  let ordinals ← t.mapped name mappings
  let rows ← source.rows.mapM fun value => Table.copyRow t.emptyRow value ordinals
  .ok (⟨t.columns, t.rows ++ rows⟩, rows.length)

def batches (rows size : Nat) : Nat :=
  (rows + max size 1 - 1) / max size 1

def bulkCopy (name : String) (mappings : List (Nat × String)) (source : RowSource)
    (batchSize : Nat) : Action Nat := Action.of fun db =>
  match db.copied name mappings source with
  | .error e => (.error e, db)
  | .ok (t, count) =>
    let db := db.setTable name t
    (.ok count,
      { db with bulkCopies := db.bulkCopies ++ [⟨name, count, batches count batchSize⟩] })

end Database

end DocStore
