import DocStore.Error
import DocStore.Value.Basic

/-!
# Tables

A table is its column names and its rows, a value per column. Changes that name a column that is
not there fail; a change of several columns keeps what was done before it failed.
-/

namespace DocStore

structure Table where
  columns : List String
  rows : List (List Value)
  deriving DecidableEq, Inhabited

namespace Table

/-- The position of a column; of equal names the first. -/
def ordinal? (t : Table) (column : String) : Option Nat :=
  t.columns.idxOf? column

def ordinal (t : Table) (column : String) : Except Error Nat :=
  match t.ordinal? column with
  | some i => .ok i
  | none => .error (Error.unknownColumn column)

def cell (row : List Value) (i : Nat) : Value :=
  row[i]?.getD .null

def emptyRow (t : Table) : List Value :=
  t.columns.map fun _ => .null

def dropColumns (t : Table) : List String → Except Error Unit × Table
  | [] => (.ok (), t)
  | column :: rest =>
    match t.ordinal? column with
    | none => (.error (Error.missingColumn column), t)
    | some i => dropColumns ⟨t.columns.eraseIdx i, t.rows.map fun row => row.eraseIdx i⟩ rest

def addColumns (t : Table) : List String → Except Error Unit × Table
  | [] => (.ok (), t)
  | column :: rest =>
    match t.ordinal? column with
    | some _ => (.error (Error.columnExists column), t)
    | none => addColumns ⟨t.columns ++ [column], t.rows.map fun row => row ++ [.null]⟩ rest

def rowsWithout (t : Table) (i : Nat) (value : Value) : List (List Value) :=
  t.rows.filter fun row => !(cell row i).same value

def fillRow (t : Table) (row : List Value) :
    List (String × Value) → Except Error (List Value)
  | [] => .ok row
  | (column, value) :: rest => do
    let i ← t.ordinal column
    fillRow t (row.set i value) rest

def distinct (seen : List Value) : List Value → List Value
  | [] => []
  | v :: rest =>
    if seen.any fun w => w.same v then distinct seen rest else v :: distinct (v :: seen) rest

end Table

end DocStore
