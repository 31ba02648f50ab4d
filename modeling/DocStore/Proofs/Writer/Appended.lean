import DocStore.Proofs.Writer.Indexed

/-!
# What a batch appends

A batch appends the rows of its structures to the tables of their type, and changes no other table,
whichever groups are inserted and which are copied. Rows are given as values under the names of
columns, so that the order of a table's columns and columns of its own do not matter.
-/

namespace DocStore

namespace Table

def appended (records : List (List (String × Value))) (t : Table) : Table :=
  ⟨t.columns, t.rows ++ records.map (laid t.columns)⟩

theorem appended_nil (t : Table) : t.appended [] = t := by
  rw [appended, List.map_nil, List.append_nil]

end Table

namespace RowSource

variable {source : RowSource} {t : Table}

theorem length_of_mem_cells {values : List Value} (h : values ∈ source.cells) :
    values.length = source.layout.columns.length := by
  obtain ⟨row, _, rfl⟩ := List.mem_map.1 h
  simp [fieldCount]

/-- The rows of a source have its values under its columns. -/
theorem rowsIn_eq (hc : ∀ c ∈ source.layout.columns, c ∈ t.columns)
    (hn : source.layout.columns.Nodup) :
    source.rowsIn t =
      (source.cells.map fun values => source.layout.columns.zip values).map
        (Table.laid t.columns) := by
  rw [rowsIn, List.map_map]
  refine List.map_congr_left fun values hvalues => ?_
  have hfst : (source.layout.columns.zip values).map Prod.fst = source.layout.columns :=
    List.map_fst_zip (Nat.le_of_eq (length_of_mem_cells hvalues).symm)
  exact Table.filled_eq_laid (fun p hp => hc _ (List.of_mem_zip hp).1) (hfst.symm ▸ hn)

end RowSource

namespace Writer

variable {w : Writer} {naming : ColumnNaming} {schema : Schema} {structures : List Structure}
  {t : Table} {maxLength : Nat} {name : String}

def bodyRecord (s : Structure) : List (String × Value) :=
  [(Column.structureId, s.id.toValue), (Column.json, .string s.body)]

/-- The value of an entry, cut, and in tables of strings the whole value beside it. -/
def indexRecord (maxLength : Nat) (e : IndexEntry) : List (String × Value) :=
  [(Column.structureId, e.id.toValue), (Column.memberPath, .string e.path),
    (Column.value, Rows.cut maxLength e.value)] ++
      if e.table = .strings ∨ e.table = .texts then [(Column.stringValue, e.value)] else []

/-- The cut text of a unique value, which must differ from others within the type or, with the
identity in its scope, within the structure. -/
def uniqueRecord (maxLength : Nat) (e : IndexEntry) : List (String × Value) :=
  [(Column.structureId, e.id.toValue),
    (Column.uniqueStructureId, if e.unique = some .perInstance then e.id.toValue else .null),
    (Column.uniqueMemberPath, .string e.path),
    (Column.uniqueValue, Rows.cutText maxLength e.value)]

/-- The identity and the values of all members, cut unless the member is free text. -/
def memberRecord (maxLength : Nat) (columns : List String) (schema : Schema) (s : Structure) :
    List (String × Value) :=
  columns.zip (s.id.toValue :: schema.accessors.map fun a =>
    if a.storageFamily = .text then s.value a.path else Rows.cut maxLength (s.value a.path))

theorem indexRecord_eq {table : IndexTable} {e : IndexEntry} (h : e.table = table) :
    (Layout.indexColumns table).zip (indexCells maxLength table e) = indexRecord maxLength e := by
  subst h
  rw [indexRecord, Layout.indexColumns, indexCells]
  cases e.table <;> rfl

theorem uniqueScope_eq (e : IndexEntry) :
    Rows.uniqueScope e = if e.unique = some .perInstance then e.id.toValue else .null := by
  rw [Rows.uniqueScope]
  cases e.unique with
  | none => rfl
  | some u => cases u <;> rfl

theorem memberValue_eq (s : Structure) (a : Accessor) :
    Rows.memberValue maxLength s ⟨a.path, a.bounded⟩ =
      if a.storageFamily = .text then s.value a.path
      else Rows.cut maxLength (s.value a.path) := by
  rw [Rows.memberValue, Structure.value]
  cases s.index? a.path with
  | none => exact (ite_self _).symm
  | some e => by_cases h : a.storageFamily = .text <;> simp [Accessor.bounded, h]

theorem memberRecord_eq (columns : List String) (s : Structure) :
    columns.zip (memberCells maxLength schema s) = memberRecord maxLength columns schema s := by
  simp only [memberCells, memberValue_eq, memberRecord]

theorem withRows_of_filter {sources : List RowSource} {source : RowSource}
    {records : List (List (String × Value))}
    (hfilter : (sources.filter fun source => source.table = name) = [source])
    (hc : ∀ c ∈ source.layout.columns, c ∈ t.columns) (hn : source.layout.columns.Nodup)
    (hrecords : (source.cells.map fun values => source.layout.columns.zip values) = records) :
    withRows sources name t = t.appended records := by
  rw [withRows, hfilter, List.flatMap_singleton, RowSource.rowsIn_eq hc hn, hrecords,
    Table.appended]

theorem withRows_of_filter_nil {sources : List RowSource}
    (hfilter : (sources.filter fun source => source.table = name) = []) :
    withRows sources name t = t.appended [] := by
  rw [withRows, hfilter, List.flatMap_nil, Table.appended, List.map_nil]

theorem withRows_body_eq (hc : ∀ c ∈ [Column.structureId, Column.json], c ∈ t.columns) :
    withRows (w.groups (Layout.ofSchema naming schema) schema structures)
      (TableName.body schema.name) t = t.appended (structures.map bodyRecord) := by
  have hn : [Column.structureId, Column.json].Nodup := by decide
  refine withRows_of_filter filter_body hc hn ?_
  rw [cells_bodies, List.map_map]
  rfl

theorem table_of_mem_entriesOf {table : IndexTable} {e : IndexEntry}
    (he : e ∈ entriesOf table structures) : e.table = table := by
  have hkeep := (List.mem_filter.1 he).2
  rw [Bool.and_eq_true, decide_eq_true_iff] at hkeep
  exact hkeep.1

theorem withRows_index_eq {table : IndexTable}
    (hc : entriesOf table structures ≠ [] → ∀ c ∈ Layout.indexColumns table, c ∈ t.columns) :
    withRows (w.groups (Layout.ofSchema naming schema) schema structures)
      (TableName.index schema.name table) t =
        t.appended ((entriesOf table structures).map (indexRecord w.maxLength)) := by
  have hgroup : ((w.groups (Layout.ofSchema naming schema) schema structures).filter fun source =>
      source.table = TableName.index schema.name table) = _ := filter_index table
  rw [indexGroup] at hgroup
  split at hgroup
  · next hentries =>
    rw [hentries]
    exact withRows_of_filter_nil hgroup
  · next hentries =>
    refine withRows_of_filter hgroup (hc hentries) (nodup_indexColumns table) ?_
    rw [cells_indexes, List.map_map]
    exact List.map_congr_left fun e he => indexRecord_eq (table_of_mem_entriesOf he)

theorem withRows_uniques_eq (hc : structures.flatMap Structure.uniques ≠ [] →
      ∀ c ∈ (Layout.ofSchema naming schema).uniques.columns, c ∈ t.columns) :
    withRows (w.groups (Layout.ofSchema naming schema) schema structures)
      (TableName.uniques schema.name) t =
        t.appended ((structures.flatMap Structure.uniques).map (uniqueRecord w.maxLength)) := by
  have hn : [Column.structureId, Column.uniqueStructureId, Column.uniqueMemberPath,
      Column.uniqueValue].Nodup := by decide
  have hgroup : ((w.groups (Layout.ofSchema naming schema) schema structures).filter fun source =>
      source.table = TableName.uniques schema.name) = _ := filter_uniques
  rw [uniqueGroup] at hgroup
  split at hgroup
  · next hentries =>
    rw [hentries]
    exact withRows_of_filter_nil hgroup
  · next hentries =>
    refine withRows_of_filter hgroup (hc hentries) hn ?_
    rw [cells_uniques, List.map_map]
    refine List.map_congr_left fun e _ => ?_
    rw [Function.comp_apply, uniqueScope_eq]
    rfl

theorem withRows_memberColumns_eq
    (hc : schema.accessors ≠ [] →
      ∀ c ∈ (Layout.ofSchema naming schema).memberColumns.columns, c ∈ t.columns)
    (hn : (Layout.ofSchema naming schema).memberColumns.columns.Nodup) :
    withRows (w.groups (Layout.ofSchema naming schema) schema structures)
      (TableName.memberColumns schema.name) t =
        t.appended (if schema.accessors = [] then [] else structures.map
          (memberRecord w.maxLength (Layout.ofSchema naming schema).memberColumns.columns
            schema)) := by
  have hgroup : ((w.groups (Layout.ofSchema naming schema) schema structures).filter fun source =>
      source.table = TableName.memberColumns schema.name) = _ := filter_memberColumns
  by_cases hacc : schema.accessors = []
  · rw [if_pos (List.isEmpty_iff.2 hacc)] at hgroup
    rw [if_pos hacc]
    exact withRows_of_filter_nil hgroup
  · rw [if_neg (by simpa using hacc)] at hgroup
    rw [if_neg hacc]
    refine withRows_of_filter hgroup (hc hacc) hn ?_
    rw [cells_memberColumns, List.map_map]
    exact List.map_congr_left fun s _ => memberRecord_eq _ s

/-- The second database is the first with the rows of a batch, one for every structure, entry with
a value and unique entry, in the order of the batch. -/
structure Appends (db db' : Database) (maxLength : Nat) (columns : List String) (schema : Schema)
    (structures : List Structure) : Prop where
  body : db'.table? (TableName.body schema.name) =
    (db.table? (TableName.body schema.name)).map (Table.appended (structures.map bodyRecord))
  index : ∀ table, db'.table? (TableName.index schema.name table) =
    (db.table? (TableName.index schema.name table)).map (Table.appended
      (((structures.flatMap Structure.indexes).filter fun e =>
        e.table = table ∧ e.value ≠ .null).map (indexRecord maxLength)))
  uniques : db'.table? (TableName.uniques schema.name) =
    (db.table? (TableName.uniques schema.name)).map (Table.appended
      ((structures.flatMap Structure.uniques).map (uniqueRecord maxLength)))
  memberColumns : db'.table? (TableName.memberColumns schema.name) =
    (db.table? (TableName.memberColumns schema.name)).map (Table.appended
      (if schema.accessors = [] then []
        else structures.map (memberRecord maxLength columns schema)))
  others : ∀ name, name ≠ TableName.body schema.name →
    (∀ table, name ≠ TableName.index schema.name table) →
    name ≠ TableName.uniques schema.name → name ≠ TableName.memberColumns schema.name →
    db'.table? name = db.table? name

theorem entriesOf_eq (table : IndexTable) (structures : List Structure) :
    entriesOf table structures =
      (structures.flatMap Structure.indexes).filter fun e => e.table = table ∧ e.value ≠ .null := by
  refine List.filter_congr fun e _ => ?_
  rw [Bool.eq_iff_iff]
  simp [← Value.isNull_iff]

theorem map_appended_nil (found : Option Table) : found.map (Table.appended []) = found := by
  cases found with
  | none => rfl
  | some t => rw [Option.map_some, Table.appended_nil]

theorem appends_nil (db : Database) (maxLength : Nat) (columns : List String) (schema : Schema) :
    Appends db db maxLength columns schema [] where
  body := (map_appended_nil _).symm
  index _ := (map_appended_nil _).symm
  uniques := (map_appended_nil _).symm
  memberColumns := by rw [List.map_nil, ite_self, map_appended_nil]
  others _ _ _ _ _ := rfl

theorem appends_withRows {db db' : Database} (hne : structures ≠ [])
    (hn : (Layout.ofSchema naming schema).memberColumns.columns.Nodup)
    (hdb : db.Receives (Layout.ofSchema naming schema) schema structures)
    (htables : db'.table? = fun name => (db.table? name).map
      (withRows (w.groups (Layout.ofSchema naming schema) schema structures) name)) :
    Appends db db' w.maxLength (Layout.ofSchema naming schema).memberColumns.columns schema
      structures where
  body := by
    rw [htables]
    exact Option.map_congr fun t ht => withRows_body_eq ((hdb.body hne).mem_columns ht)
  index table := by
    rw [htables, ← entriesOf_eq]
    exact Option.map_congr fun t ht =>
      withRows_index_eq fun hentries => (hdb.index table hentries).mem_columns ht
  uniques := by
    rw [htables]
    exact Option.map_congr fun t ht =>
      withRows_uniques_eq fun hentries => (hdb.uniques hentries).mem_columns ht
  memberColumns := by
    rw [htables]
    exact Option.map_congr fun t ht =>
      withRows_memberColumns_eq (fun hacc => (hdb.memberColumns hne hacc).mem_columns ht) hn
  others name hbody hindex huniques hmembers := by
    have hsame : ∀ t, withRows (w.groups (Layout.ofSchema naming schema) schema structures)
        name t = t := fun t =>
      (withRows_of_filter_nil (filter_other hbody hindex huniques hmembers)).trans t.appended_nil
    rw [htables]
    exact (Option.map_congr fun t _ => hsame t).trans Option.map_id'

/-- A batch loses and duplicates nothing: it is written without an error, and every table of its
type has exactly the rows of the batch behind those it had before. -/
theorem insert_appends {db : Database} {cache : LayoutCache} {layout : Layout}
    (h : schema.Accepted) (hcache : cache.Coherent)
    (hlayout : (cache.getOrCreate w.naming schema).1.2 = layout)
    (hcolumns : structures.length = 1 → ∀ c ∈ layout.memberColumns.columns, Insertable c)
    (hn : layout.memberColumns.columns.Nodup) (hdb : db.Receives layout schema structures) :
    ∃ stats db', (w.insert cache schema structures).1.on db = (.ok stats, db') ∧
      Appends db db' w.maxLength layout.memberColumns.columns schema structures := by
  by_cases hne : structures = []
  · subst hne
    exact ⟨⟨0, []⟩, db, rfl, appends_nil db _ _ schema⟩
  · obtain ⟨⟨used, hused⟩, _⟩ := hcache.getOrCreate w.naming schema
    obtain rfl := hused.symm.trans hlayout
    obtain ⟨stats, db', hon, _, htables⟩ := insert_yields hused hcolumns h hne hdb
    exact ⟨stats, db', hon, appends_withRows hne hn hdb htables⟩

/-- A single row is not written as a copied one where the statement does not read the name of its
column as it is: the insertion fails, or it leaves values out. -/
theorem insert_misreads_columns :
    let schema : Schema := ⟨"Order", ⟨"Id", .identity⟩, [⟨"No", .integer, none, false, false⟩]⟩
    let order : Structure :=
      ⟨.identity 1, "Order", "", [⟨.identity 1, "No", .integer 7, .integer, none⟩]⟩
    let db : String → Database := fun column =>
      ⟨[("OrderStructure", ⟨["StructureId", "Json"], []⟩),
        ("OrderIntegers", ⟨["StructureId", "MemberPath", "Value"], []⟩),
        ("OrderIndexes", ⟨["StructureId", column], []⟩)], [], [], []⟩
    let w : String → Writer := fun column => ⟨fun _ => column, 10, 300⟩
    let layout : String → Layout := fun column => Layout.ofSchema (w column).naming schema
    schema.Accepted ∧ ∀ column ∈ ["A]", "", "A) values (B"],
      (layout column).memberColumns.columns.Nodup ∧
        (db column).Receives (layout column) schema [order] ∧
        ¬ ∃ stats db', ((w column).insert .empty schema [order]).1.on (db column) =
            (.ok stats, db') ∧
          Appends (db column) db' 300 (layout column).memberColumns.columns schema [order] := by
  intro schema order db w layout
  have hnodup : ∀ column ∈ ["A]", "", "A) values (B"],
      (layout column).memberColumns.columns.Nodup := by decide +kernel
  have hrow : ∀ column ∈ ["A]", "", "A) values (B"],
      (((w column).insert .empty schema [order]).1.on (db column)).2.table? "OrderIndexes" ≠
        some ⟨["StructureId", column], [[.integer 1, .integer 7]]⟩ := by decide +kernel
  have happended : ∀ column ∈ ["A]", "", "A) values (B"],
      ((db column).table? "OrderIndexes").map (Table.appended
        (if schema.accessors = [] then [] else [order].map
          (memberRecord 300 (layout column).memberColumns.columns schema))) =
        some ⟨["StructureId", column], [[.integer 1, .integer 7]]⟩ := by decide +kernel
  refine ⟨by decide +kernel, fun column hcolumn => ⟨hnodup column hcolumn, ?_, ?_⟩⟩
  · refine ⟨fun _ => ⟨List.not_mem_nil, _, rfl, fun _ hc => hc⟩, fun t ht => ?_,
      fun huniques => absurd rfl huniques,
      fun _ _ => ⟨List.not_mem_nil, _, rfl, fun _ hc => hc⟩⟩
    cases t with
    | integers => exact ⟨List.not_mem_nil, _, rfl, fun _ hc => hc⟩
    | _ => exact absurd rfl ht
  · rintro ⟨stats, db', hon, happends⟩
    refine hrow column hcolumn ?_
    rw [hon, ← happended column hcolumn]
    exact happends.memberColumns

/-- Names are cut to three characters and notes are not, the one group of a single row is inserted,
and no integer is there to need a table. -/
theorem insert_appends_orders :
    let schema : Schema := ⟨"Order", ⟨"Id", .identity⟩, [
      ⟨"Name", .string, some .perInstance, false, false⟩, ⟨"Notes", .text, none, false, false⟩,
      ⟨"Total", .integer, none, false, false⟩]⟩
    let entries : Int64 → Value → Value → List IndexEntry := fun id name notes => [
      ⟨.identity id, "Name", name, .string, some .perInstance⟩,
      ⟨.identity id, "Notes", notes, .text, none⟩, ⟨.identity id, "Total", .null, .integer, none⟩]
    let structures : List Structure := [
      ⟨.identity 1, "Order", "first", entries 1 (.string "anvil") (.string "heavy")⟩,
      ⟨.identity 2, "Order", "second", entries 2 (.string "rope") .null⟩]
    let db : Database := ⟨[("OrderStructure", ⟨["Json", "StructureId"], []⟩),
      ("OrderStrings", ⟨["StringValue", "Value", "MemberPath", "StructureId"], []⟩),
      ("OrderTexts", ⟨["StructureId", "MemberPath", "Value", "StringValue"], []⟩),
      ("OrderUniques", ⟨["StructureId", "UqStructureId", "UqMemberPath", "UqValue"], []⟩),
      ("OrderIndexes", ⟨["Old", "Total", "StructureId", "Notes", "Name"],
        [[.integer 7, .null, .integer 9, .null, .null]]⟩)], [], [], []⟩
    let w : Writer := ⟨ColumnName.ofPath 128, 10, 3⟩
    ∃ stats db', (w.insert .empty schema structures).1.on db = (.ok stats, db') ∧
      db'.table? "OrderStructure" = some ⟨["Json", "StructureId"],
        [[.string "first", .integer 1], [.string "second", .integer 2]]⟩ ∧
      db'.table? "OrderStrings" = some ⟨["StringValue", "Value", "MemberPath", "StructureId"],
        [[.string "anvil", .string "anv", .string "Name", .integer 1],
          [.string "rope", .string "rop", .string "Name", .integer 2]]⟩ ∧
      db'.table? "OrderTexts" = some ⟨["StructureId", "MemberPath", "Value", "StringValue"],
        [[.integer 1, .string "Notes", .string "hea", .string "heavy"]]⟩ ∧
      db'.table? "OrderUniques" = some ⟨["StructureId", "UqStructureId", "UqMemberPath", "UqValue"],
        [[.integer 1, .integer 1, .string "Name", .string "anv"],
          [.integer 2, .integer 2, .string "Name", .string "rop"]]⟩ ∧
      db'.table? "OrderIndexes" = some ⟨["Old", "Total", "StructureId", "Notes", "Name"],
        [[.integer 7, .null, .integer 9, .null, .null],
          [.null, .null, .integer 1, .string "heavy", .string "anv"],
          [.null, .null, .integer 2, .null, .string "rop"]]⟩ ∧
      db'.table? "OrderIntegers" = none := by
  intro schema entries structures db w
  have haccepted : schema.Accepted := by decide +kernel
  have hreceives : db.Receives (Layout.ofSchema w.naming schema) schema structures := by
    refine ⟨fun _ => ⟨List.not_mem_nil, _, rfl, by decide +kernel⟩, fun t ht => ?_,
      fun _ => ⟨List.not_mem_nil, _, rfl, by decide +kernel⟩,
      fun _ _ => ⟨List.not_mem_nil, _, rfl, by decide +kernel⟩⟩
    cases t with
    | strings => exact ⟨List.not_mem_nil, _, rfl, by decide +kernel⟩
    | texts => exact ⟨List.not_mem_nil, _, rfl, by decide +kernel⟩
    | _ => exact absurd rfl ht
  have hlayout : (LayoutCache.empty.getOrCreate w.naming schema).1.2 =
      Layout.ofSchema w.naming schema := rfl
  have hn : (Layout.ofSchema w.naming schema).memberColumns.columns.Nodup := by decide +kernel
  have hcolumns := Layout.insertable_memberColumns (ColumnName.isPlain_ofPath 128) haccepted
  obtain ⟨stats, db', hon, hbody, hindex, huniques, hmembers, _⟩ :=
    insert_appends haccepted LayoutCache.coherent_empty hlayout (fun _ => hcolumns) hn hreceives
  exact ⟨stats, db', hon, hbody.trans (by decide +kernel),
    (hindex .strings).trans (by decide +kernel), (hindex .texts).trans (by decide +kernel),
    huniques.trans (by decide +kernel), hmembers.trans (by decide +kernel),
    (hindex .integers).trans (by decide +kernel)⟩

end Writer

end DocStore
