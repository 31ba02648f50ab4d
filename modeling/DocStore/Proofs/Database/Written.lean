import DocStore.Proofs.Database.Scanning
import DocStore.Sql.Definition

/-!
# The statements that definitions write

Every statement that defines or changes tables is rendered, and the database reads the rendered
text as the statement that was meant, as long as its names can stand between brackets.
-/

namespace DocStore

namespace Statement

def IsType (type : String) : Prop :=
  nesting? 0 type.toList = some 0 ∧ ∃ c, type.toList.getLast? = some c ∧ Text.isBlank c = false

theorem isDefinition_column {name type : String} (hn : Definable name) (ht : IsType type) :
    IsDefinition (Definition.column name type) (some name) := by
  have hchars : (Definition.column name type).chars =
      (Piece.name name).chars ++ ' ' :: type.toList := by
    simp [Definition.column, Piece.chars]
  have hopen : (Piece.name name).chars ++ ' ' :: type.toList =
      '[' :: (name.toList ++ ']' :: ' ' :: type.toList) := by
    simp [chars_of_quotable hn.quotable]
  obtain ⟨c, hc, hblank⟩ := ht.2
  refine ⟨?_, ⟨⟨'[', _, hchars.trans hopen, by decide⟩, ?_⟩, ?_⟩
  · rw [hchars, nesting?_append (nesting?_name hn)]
    exact ht.1
  · obtain ⟨front, hfront⟩ := List.getLast?_eq_some_iff.1 hc
    refine ⟨(Piece.name name).chars ++ ' ' :: front, c, ?_, hblank⟩
    rw [hchars, hfront]
    simp
  · have hnames := bracketedNames_name hn.quotable (' ' :: type.toList)
    rw [leadingName?, hchars, hopen, List.head?_cons, if_pos rfl, ← hopen, hnames, List.head?_cons]

theorem isDefinition_uniqueConstraint : IsDefinition Definition.uniqueConstraint none := by
  refine ⟨by decide, ⟨⟨'u', _, rfl, by decide⟩, ?_⟩, by decide⟩
  exact ⟨Definition.uniqueConstraint.chars.dropLast, ')', by decide, by decide⟩

theorem isType_sparse (dialect : Dialect) (family : Family) :
    IsType (dialect.columnType family ++ " sparse null") := by
  cases dialect <;> cases family <;> exact ⟨by decide, 'l', by decide, by decide⟩

/-- Columns of a type table and those of members, each with what it defines. -/
theorem forall₂_isDefinition {α : Type} {items : List α} {sql : α → Sql} {name : α → String}
    (h : ∀ a ∈ items, IsDefinition (sql a) (some (name a))) :
    List.Forall₂ IsDefinition (items.map sql) (items.map fun a => some (name a)) := by
  rw [List.forall₂_map_left_iff, List.forall₂_map_right_iff, List.forall₂_same]
  exact h

theorem forall₂_sparse (dialect : Dialect) {columns : List ColumnDefinition}
    (hc : ∀ c ∈ columns, Definable c.name) :
    List.Forall₂ IsDefinition (columns.map (Definition.sparse dialect))
      (columns.map fun c => some c.name) :=
  forall₂_isDefinition fun c h => isDefinition_column (hc c h) (isType_sparse dialect c.family)

theorem closed?_concat (text : List Char) : closed? (text ++ [')']) = some text := by
  have htrim : Text.trimEnd (text ++ [')']) = text ++ [')'] := Text.trimEnd_concat (by decide)
  simp only [closed?, htrim, List.getLast?_concat, if_true, List.dropLast_concat]

variable {table : String}

/-- A table is created with what is found to be columns among its definitions. -/
theorem ofText?_createTable_defined (ht : Quotable table) (definitions : List Sql) :
    ofText? (Definition.createTable table definitions).sql =
      some (.create table (definedColumns (Sql.join ", " definitions).chars)) := by
  have hchars : (Definition.createTable table definitions).sql.toList =
      "create table ".toList ++ ((Piece.name table).chars ++
        (" (".toList ++ ((Sql.join ", " definitions).chars ++ [')']))) := by
    rw [Definition.createTable, Command.ofSql, Sql.toList_render]
    simp [Piece.chars]
  have hwords : ∀ rest, words? "create table ".toList
      (Text.trimStart ("create table ".toList ++ rest)) = some rest := fun _ => rfl
  have hopen : ∀ rest, Text.trimStart (" (".toList ++ rest) = '(' :: rest := fun _ => rfl
  have hcreate : create? (Definition.createTable table definitions).sql.toList =
      some (.create table (definedColumns (Sql.join ", " definitions).chars)) := by
    rw [hchars, create?, hwords]
    simp only [Option.bind_eq_bind, Option.bind_some, bracketed?_name ht, hopen, closed?_concat,
      Option.map_some]
  rw [ofText?, hcreate]
  rfl

theorem ofText?_createTable {definitions : List Sql} {columns : List (Option String)}
    (ht : Quotable table) (h : List.Forall₂ IsDefinition definitions columns) :
    ofText? (Definition.createTable table definitions).sql =
      some (.create table (columns.filterMap id)) := by
  rw [ofText?_createTable_defined ht, definedColumns_join h]

theorem ofText?_addColumns {dialect : Dialect} {columns : List ColumnDefinition}
    (ht : Quotable table) (hc : ∀ c ∈ columns, Definable c.name) :
    ofText? (Definition.addColumns dialect table columns).sql =
      some (.addColumns table (columns.map ColumnDefinition.name)) := by
  have hchars : (Definition.addColumns dialect table columns).sql.toList =
      "alter table ".toList ++ ((Piece.name table).chars ++
        (" add ".toList ++ (Sql.join ", " (columns.map (Definition.sparse dialect))).chars)) := by
    rw [Definition.addColumns, Command.ofSql, Sql.toList_render]
    simp [Piece.chars]
  have hdefined : definedColumns (Sql.join ", " (columns.map (Definition.sparse dialect))).chars =
      columns.map ColumnDefinition.name := by
    rw [definedColumns_join (forall₂_sparse dialect hc), List.filterMap_map]
    exact congrFun List.filterMap_eq_map columns
  have hwords : ∀ rest, words? "alter table ".toList
      (Text.trimStart ("alter table ".toList ++ rest)) = some rest := fun _ => rfl
  have hadd : ∀ rest, words? " add ".toList (" add ".toList ++ rest) = some rest := fun _ => rfl
  have hcreate : ∀ rest, create? ("alter table ".toList ++ rest) = none := fun _ => rfl
  have hno : ∀ rest, words? " drop column ".toList (" add ".toList ++ rest) = none := fun _ => rfl
  have hdrop : dropColumns? (Definition.addColumns dialect table columns).sql.toList = none := by
    rw [hchars, dropColumns?, hwords]
    simp only [Option.bind_eq_bind, Option.bind_some, bracketed?_name ht, hno, Option.bind_none]
  have haddColumns : addColumns? (Definition.addColumns dialect table columns).sql.toList =
      some (.addColumns table (columns.map ColumnDefinition.name)) := by
    rw [hchars, addColumns?, hwords]
    simp only [Option.bind_eq_bind, Option.bind_some, bracketed?_name ht, hadd, hdefined]
  rw [ofText?, hdrop, haddColumns, hchars, hcreate]
  rfl

theorem ofText?_dropColumns {columns : List String} (ht : Quotable table)
    (hc : ∀ c ∈ columns, Quotable c) :
    ofText? (Definition.dropColumns table columns).sql = some (.dropColumns table columns) := by
  have hchars : (Definition.dropColumns table columns).sql.toList =
      "alter table ".toList ++ ((Piece.name table).chars ++
        (" drop column ".toList ++ (Sql.names columns).chars)) := by
    rw [Definition.dropColumns, Command.ofSql, Sql.toList_render]
    simp [Piece.chars]
  have hwords : ∀ rest, words? "alter table ".toList
      (Text.trimStart ("alter table ".toList ++ rest)) = some rest := fun _ => rfl
  have hdrop : ∀ rest, words? " drop column ".toList (" drop column ".toList ++ rest) =
      some rest := fun _ => rfl
  have hcreate : ∀ rest, create? ("alter table ".toList ++ rest) = none := fun _ => rfl
  have hdropColumns : dropColumns? (Definition.dropColumns table columns).sql.toList =
      some (.dropColumns table columns) := by
    rw [hchars, dropColumns?, hwords]
    simp only [Option.bind_eq_bind, Option.bind_some, bracketed?_name ht, hdrop,
      bracketedNames_names hc]
  rw [ofText?, hdropColumns, hchars, hcreate]
  rfl

theorem ofText?_deleteUniqueRows (ht : Quotable table) (path : String) :
    ofText? (Definition.deleteUniqueRows table path).sql =
      some (.delete table Column.uniqueMemberPath "@p0") := by
  have hc : Quotable Column.uniqueMemberPath := ⟨by decide, by decide⟩
  have hchars : (Definition.deleteUniqueRows table path).sql.toList =
      "delete from ".toList ++ ((Piece.name table).chars ++
        (" where ".toList ++ ((Piece.name Column.uniqueMemberPath).chars ++
          (" = ".toList ++ "@p0".toList)))) := by
    rw [Definition.deleteUniqueRows, Command.ofValues, Sql.toList_render]
    simp [Piece.chars]
  have hwords : ∀ rest, words? "delete from ".toList
      (Text.trimStart ("delete from ".toList ++ rest)) = some rest := fun _ => rfl
  have hwhere : ∀ rest, words? " where ".toList (" where ".toList ++ rest) = some rest :=
    fun _ => rfl
  have hequal : ∀ rest, words? " = ".toList (" = ".toList ++ rest) = some rest := fun _ => rfl
  have hparameter : parameter? "@p0".toList = some "@p0" := by decide
  have hcreate : ∀ rest, create? ("delete from ".toList ++ rest) = none := fun _ => rfl
  have hdrop : ∀ rest, dropColumns? ("delete from ".toList ++ rest) = none := fun _ => rfl
  have hadd : ∀ rest, addColumns? ("delete from ".toList ++ rest) = none := fun _ => rfl
  have hdelete : delete? (Definition.deleteUniqueRows table path).sql.toList =
      some (.delete table Column.uniqueMemberPath "@p0") := by
    rw [hchars, delete?, hwords]
    simp only [Option.bind_eq_bind, Option.bind_some, bracketed?_name ht, hwhere,
      bracketed?_name hc, hequal, hparameter]
  rw [ofText?, hdelete, hchars, hcreate, hdrop, hadd]
  rfl

theorem ofText?_insertRow {columns : List String} {values : List Value} (ht : Quotable table)
    (hc : ∀ c ∈ columns, Insertable c) (hv : values ≠ []) :
    ofText? (Definition.insertRow table columns values).sql =
      some (.insert table columns ((List.range values.length).map parameterName)) := by
  have hchars : (Definition.insertRow table columns values).sql.toList =
      "insert into ".toList ++ ((Piece.name table).chars ++ (" (".toList ++
        ((Sql.names columns).chars ++ (") values (".toList ++ ((Sql.join ", "
          ((List.range values.length).map fun number => [Piece.parameter number])).chars ++
            [')']))))) := by
    rw [Definition.insertRow, Command.ofValues, Sql.toList_render]
    simp [Piece.chars]
  have hwords : ∀ rest, words? "insert into ".toList
      (Text.trimStart ("insert into ".toList ++ rest)) = some rest := fun _ => rfl
  have hopen : ∀ rest, words? " (".toList (" (".toList ++ rest) = some rest := fun _ => rfl
  have hvalues : ∀ rest, around? ") values (".toList
      ((Sql.names columns).chars ++ (") values (".toList ++ rest)) =
        some ((Sql.names columns).chars, rest) := by
    intro rest
    have hall : (')' :: " values (".toList).all (fun c => decide (c = c.toLower)) = true := by
      decide
    have hlower : ∀ c ∈ ')' :: " values (".toList, c = c.toLower := by
      simpa only [List.all_eq_true, decide_eq_true_eq] using hall
    exact around?_of_skips hlower (skips_names hc) rest
  have hparameters : (Text.pieces ',' (Sql.join ", "
      ((List.range values.length).map fun number => [Piece.parameter number])).chars).map
        (fun value => String.ofList (Text.trim value)) =
      (List.range values.length).map parameterName := by
    cases hn : List.range values.length with
    | nil => exact absurd (List.length_eq_zero_iff.1 (List.range_eq_nil.1 hn)) hv
    | cons k numbers =>
      exact @pieces_parameters k numbers [] (List.forall_mem_nil _) List.not_mem_nil
  have hcreate : ∀ rest, create? ("insert into ".toList ++ rest) = none := fun _ => rfl
  have hdrop : ∀ rest, dropColumns? ("insert into ".toList ++ rest) = none := fun _ => rfl
  have hadd : ∀ rest, addColumns? ("insert into ".toList ++ rest) = none := fun _ => rfl
  have hdelete : ∀ rest, delete? ("insert into ".toList ++ rest) = none := fun _ => rfl
  have hinsert : insert? (Definition.insertRow table columns values).sql.toList =
      some (.insert table columns ((List.range values.length).map parameterName)) := by
    rw [hchars, insert?, hwords]
    simp only [Option.bind_eq_bind, Option.bind_some, bracketed?_name ht, hopen, hvalues,
      closed?_concat, bracketedNames_names fun n hn => (hc n hn).quotable, hparameters]
  rw [ofText?, hinsert, hchars, hcreate, hdrop, hadd, hdelete]
  rfl

theorem selectDistinct?_storedUniquePaths (ht : Quotable table) :
    selectDistinct? (Definition.storedUniquePaths table).sql =
      some (Column.uniqueMemberPath, table) := by
  have hc : Quotable Column.uniqueMemberPath := ⟨by decide, by decide⟩
  have hchars : (Definition.storedUniquePaths table).sql.toList =
      "select distinct ".toList ++ ((Piece.name Column.uniqueMemberPath).chars ++
        (" from ".toList ++ ((Piece.name table).chars ++ []))) := by
    rw [Definition.storedUniquePaths, Command.ofSql, Sql.toList_render]
    simp [Piece.chars]
  have hwords : ∀ rest, words? "select distinct ".toList
      (Text.trimStart ("select distinct ".toList ++ rest)) = some rest := fun _ => rfl
  have hfrom : ∀ rest, words? " from ".toList (" from ".toList ++ rest) = some rest := fun _ => rfl
  rw [selectDistinct?, hchars, hwords]
  simp only [Option.bind_eq_bind, Option.bind_some, bracketed?_name hc, hfrom,
    bracketed?_name ht, List.all_nil, if_true]

end Statement

end DocStore
