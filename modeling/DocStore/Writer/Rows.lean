import DocStore.Database.RowSource
import DocStore.Structure.Basic

/-!
# The rows of structures

The rows that structures have in their tables: one body each, one row per index entry, one per
unique entry, and one row of member columns. Strings are cut to a length where they are indexed.
-/

namespace DocStore.Rows

def cut (maxLength : Nat) : Value → Value
  | .string s =>
    if maxLength < s.length then .string (String.ofList (s.toList.take maxLength)) else .string s
  | v => v

def bodies (layout : TableLayout) (structures : List Structure) : RowSource where
  layout := layout
  rows := structures.map fun s ordinal =>
    match ordinal with
    | 0 => .ok s.id.toValue
    | 1 => .ok (.string s.body)
    | _ => .error (Error.unknownField layout.table ordinal)

/-- One row per entry: identity, path, the cut value and, in tables of strings, the whole value. -/
def indexes (layout : TableLayout) (maxLength : Nat) (entries : List IndexEntry) : RowSource where
  layout := layout
  rows := entries.map fun entry ordinal =>
    match ordinal with
    | 0 => .ok entry.id.toValue
    | 1 => .ok (.string entry.path)
    | 2 => .ok (cut maxLength entry.value)
    | 3 =>
      if layout.columns.length = 4 then .ok entry.value
      else .error (Error.unknownField layout.table ordinal)
    | _ => .error (Error.unknownField layout.table ordinal)

/-- The identity within which a unique value must differ, null for the whole type. -/
def uniqueScope (entry : IndexEntry) : Value :=
  match entry.unique with
  | some .perInstance => entry.id.toValue
  | _ => .null

def cutText (maxLength : Nat) (v : Value) : Value :=
  match v.text? with
  | some text => cut maxLength (.string text)
  | none => .null

/-- One row per unique entry: identity, scope, path and the cut text of the value. -/
def uniques (layout : TableLayout) (maxLength : Nat) (entries : List IndexEntry) : RowSource where
  layout := layout
  rows := entries.map fun entry ordinal =>
    match ordinal with
    | 0 => .ok entry.id.toValue
    | 1 => .ok (uniqueScope entry)
    | 2 => .ok (.string entry.path)
    | 3 => .ok (cutText maxLength entry.value)
    | _ => .error (Error.unknownField layout.table ordinal)

def memberValue (maxLength : Nat) (s : Structure) (m : MemberField) : Value :=
  match s.index? m.path with
  | some entry => if m.bounded then cut maxLength entry.value else entry.value
  | none => .null

def memberColumns (layout : Layout) (maxLength : Nat) (structures : List Structure) :
    RowSource where
  layout := layout.memberColumns
  rows := structures.map fun s ordinal =>
    match ordinal with
    | 0 => .ok s.id.toValue
    | n + 1 =>
      match layout.members[n]? with
      | some m => .ok (memberValue maxLength s m)
      | none => .error (Error.unknownField layout.memberColumns.table ordinal)

end DocStore.Rows
