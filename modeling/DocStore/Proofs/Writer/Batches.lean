import DocStore.Proofs.Writer.Groups

/-!
# Writing batches

The groups of a batch can be written to the tables of its type, each to a table of its own.
-/

namespace DocStore

/-- The database has the table, with the columns of the layout among its own. -/
def Database.Holds (db : Database) (layout : TableLayout) : Prop :=
  layout.table ∉ db.failing ∧
    ∃ t, db.table? layout.table = some t ∧ ∀ c ∈ layout.columns, c ∈ t.columns

theorem Database.Holds.of_eq {db db' : Database} {layout : TableLayout} (h : db.Holds layout)
    (hf : db'.failing = db.failing) (ht : db'.table? layout.table = db.table? layout.table) :
    db'.Holds layout := by
  obtain ⟨hfail, t, hdb, hc⟩ := h
  exact ⟨hf ▸ hfail, t, ht.trans hdb, hc⟩

theorem Database.Holds.mem_columns {db : Database} {layout : TableLayout} {t : Table}
    (h : db.Holds layout) (ht : db.table? layout.table = some t) :
    ∀ c ∈ layout.columns, c ∈ t.columns := by
  obtain ⟨_, u, hu, hc⟩ := h
  obtain rfl := Option.some.inj (ht.symm.trans hu)
  exact hc

structure Database.HoldsType (db : Database) (layout : Layout) : Prop where
  body : db.Holds layout.body
  index : ∀ t, db.Holds (layout.index t)
  uniques : db.Holds layout.uniques
  memberColumns : db.Holds layout.memberColumns

/-- Every table that gets rows of the batch can take them. -/
structure Database.Receives (db : Database) (layout : Layout) (schema : Schema)
    (structures : List Structure) : Prop where
  body : structures ≠ [] → db.Holds layout.body
  index : ∀ t, Writer.entriesOf t structures ≠ [] → db.Holds (layout.index t)
  uniques : structures.flatMap Structure.uniques ≠ [] → db.Holds layout.uniques
  memberColumns : structures ≠ [] → schema.accessors ≠ [] → db.Holds layout.memberColumns

theorem Database.HoldsType.receives {db : Database} {layout : Layout} (h : db.HoldsType layout)
    (schema : Schema) (structures : List Structure) : db.Receives layout schema structures :=
  ⟨fun _ => h.body, fun t _ => h.index t, fun _ => h.uniques, fun _ _ => h.memberColumns⟩

theorem Column.plain_structureId : Plain Column.structureId :=
  plain_of_isNameChar (by decide) (by decide)

theorem Layout.plain_body : ∀ c ∈ [Column.structureId, Column.json], Plain c := by
  intro c hc
  simp only [List.mem_cons, List.not_mem_nil, or_false] at hc
  rcases hc with rfl | rfl <;> exact plain_of_isNameChar (by decide) (by decide)

theorem Layout.plain_uniques : ∀ c ∈ [Column.structureId, Column.uniqueStructureId,
    Column.uniqueMemberPath, Column.uniqueValue], Plain c := by
  intro c hc
  simp only [List.mem_cons, List.not_mem_nil, or_false] at hc
  rcases hc with rfl | rfl | rfl | rfl <;> exact plain_of_isNameChar (by decide) (by decide)

theorem Layout.insertable_memberColumns {naming : ColumnNaming} {schema : Schema}
    (hn : naming.IsPlain) (h : schema.Accepted) :
    ∀ c ∈ (Layout.ofSchema naming schema).memberColumns.columns, Insertable c := by
  intro c hc
  rcases List.mem_cons.1 hc with rfl | hc
  · exact Column.plain_structureId.insertable
  · obtain ⟨a, ha, rfl⟩ := List.mem_map.1 hc
    exact (hn _ (h.isPath_of_mem ha)).insertable

theorem Layout.plain_index (t : IndexTable) : ∀ c ∈ Layout.indexColumns t, Plain c := by
  intro c hc
  have hin : c ∈ [Column.structureId, Column.memberPath, Column.value, Column.stringValue] := by
    revert hc
    cases t <;> simp [Layout.indexColumns, IndexTable.hasStringValue] <;> tauto
  simp only [List.mem_cons, List.not_mem_nil, or_false] at hin
  rcases hin with rfl | rfl | rfl | rfl <;> exact plain_of_isNameChar (by decide) (by decide)

namespace Writer

variable {w : Writer} {naming : ColumnNaming} {schema : Schema} {structures : List Structure}

theorem writable_bodies (h : schema.Accepted) (hne : structures ≠ []) :
    (Rows.bodies (Layout.ofSchema naming schema).body structures).Writable where
  readable := by
    intro row hrow i hi
    obtain ⟨s, _, rfl⟩ := List.mem_map.1 hrow
    have hi : i < 2 := hi
    obtain rfl | rfl : i = 0 ∨ i = 1 := by omega
    · exact ⟨_, rfl⟩
    · exact ⟨_, rfl⟩
  rows := by simpa [Rows.bodies] using hne
  columns := List.cons_ne_nil _ _
  table := TableName.quotable_body h.isIdentifier_name
  insertable := fun _ c hc => (Layout.plain_body c hc).insertable

theorem writable_indexes (h : schema.Accepted) (t : IndexTable) (maxLength : Nat)
    {entries : List IndexEntry} (hne : entries ≠ []) :
    (Rows.indexes ((Layout.ofSchema naming schema).index t) maxLength entries).Writable where
  readable := by
    intro row hrow i hi
    obtain ⟨entry, _, rfl⟩ := List.mem_map.1 hrow
    have hi : i < (Layout.indexColumns t).length := hi
    have hlen : (Layout.indexColumns t).length ≤ 4 := by cases t <;> decide
    obtain rfl | rfl | rfl | rfl : i = 0 ∨ i = 1 ∨ i = 2 ∨ i = 3 := by omega
    · exact ⟨_, rfl⟩
    · exact ⟨_, rfl⟩
    · exact ⟨_, rfl⟩
    · exact ⟨entry.value, if_pos (show (Layout.indexColumns t).length = 4 by omega)⟩
  rows := by simpa [Rows.indexes] using hne
  columns := List.cons_ne_nil _ _
  table := TableName.quotable_index h.isIdentifier_name t
  insertable := fun _ c hc => (Layout.plain_index t c hc).insertable

theorem writable_uniques (h : schema.Accepted) (maxLength : Nat) {entries : List IndexEntry}
    (hne : entries ≠ []) :
    (Rows.uniques (Layout.ofSchema naming schema).uniques maxLength entries).Writable where
  readable := by
    intro row hrow i hi
    obtain ⟨entry, _, rfl⟩ := List.mem_map.1 hrow
    have hi : i < 4 := hi
    obtain rfl | rfl | rfl | rfl : i = 0 ∨ i = 1 ∨ i = 2 ∨ i = 3 := by omega
    · exact ⟨_, rfl⟩
    · exact ⟨_, rfl⟩
    · exact ⟨_, rfl⟩
    · exact ⟨_, rfl⟩
  rows := by simpa [Rows.uniques] using hne
  columns := List.cons_ne_nil _ _
  table := TableName.quotable_uniques h.isIdentifier_name
  insertable := fun _ c hc => (Layout.plain_uniques c hc).insertable

theorem writable_memberColumns
    (hcolumns : structures.length = 1 →
      ∀ c ∈ (Layout.ofSchema naming schema).memberColumns.columns, Insertable c)
    (h : schema.Accepted) (maxLength : Nat) (hne : structures ≠ []) :
    (Rows.memberColumns (Layout.ofSchema naming schema) maxLength structures).Writable where
  readable := by
    intro row hrow i hi
    obtain ⟨s, _, rfl⟩ := List.mem_map.1 hrow
    have hi : i < (schema.accessors.map fun a => naming a.path).length + 1 := hi
    cases i with
    | zero => exact ⟨_, rfl⟩
    | succ i =>
      have hi : i < schema.accessors.length := by simpa using hi
      have hm : (Layout.ofSchema naming schema).members[i]? =
          some ⟨schema.accessors[i].path, schema.accessors[i].bounded⟩ := by
        simp [Layout.ofSchema, hi]
      exact ⟨_, by simp only [hm]; rfl⟩
  rows := by simpa [Rows.memberColumns] using hne
  columns := List.cons_ne_nil _ _
  table := TableName.quotable_memberColumns h.isIdentifier_name
  insertable := fun hone => hcolumns (by simpa [Rows.memberColumns] using hone)

def memberCells (maxLength : Nat) (schema : Schema) (s : Structure) : List Value :=
  s.id.toValue :: schema.accessors.map fun a => Rows.memberValue maxLength s ⟨a.path, a.bounded⟩

theorem cells_memberColumns (naming : ColumnNaming) (schema : Schema) (maxLength : Nat)
    (structures : List Structure) :
    (Rows.memberColumns (Layout.ofSchema naming schema) maxLength structures).cells =
      structures.map (memberCells maxLength schema) := by
  have hcount : (Rows.memberColumns (Layout.ofSchema naming schema) maxLength
      structures).fieldCount = schema.accessors.length + 1 := by
    simp [RowSource.fieldCount, Rows.memberColumns, Layout.ofSchema]
  rw [RowSource.cells, hcount]
  refine (List.map_map).trans (List.map_congr_left fun s _ => ?_)
  rw [Function.comp_apply, List.range_succ_eq_map, List.map_cons, memberCells]
  refine congrArg (s.id.toValue :: ·) (List.ext_getElem (by simp) fun i hi hi' => ?_)
  have hlt : i < schema.accessors.length := by simpa using hi'
  have hm : (Layout.ofSchema naming schema).members[i]? =
      some ⟨schema.accessors[i].path, schema.accessors[i].bounded⟩ := by
    simp [Layout.ofSchema, hlt]
  simp [RowSource.field, hm]

def indexCells (maxLength : Nat) (t : IndexTable) (entry : IndexEntry) : List Value :=
  [entry.id.toValue, .string entry.path, Rows.cut maxLength entry.value] ++
    if t.hasStringValue then [entry.value] else []

theorem cells_indexes (naming : ColumnNaming) (schema : Schema) (t : IndexTable) (maxLength : Nat)
    (entries : List IndexEntry) :
    (Rows.indexes ((Layout.ofSchema naming schema).index t) maxLength entries).cells =
      entries.map (indexCells maxLength t) := by
  refine (List.map_map).trans (List.map_congr_left fun entry _ => ?_)
  cases t <;> rfl

theorem cells_bodies (naming : ColumnNaming) (schema : Schema) (structures : List Structure) :
    (Rows.bodies (Layout.ofSchema naming schema).body structures).cells =
      structures.map fun s => [s.id.toValue, .string s.body] :=
  List.map_map

theorem cells_uniques (naming : ColumnNaming) (schema : Schema) (maxLength : Nat)
    (entries : List IndexEntry) :
    (Rows.uniques (Layout.ofSchema naming schema).uniques maxLength entries).cells =
      entries.map fun e => [e.id.toValue, Rows.uniqueScope e, .string e.path,
        Rows.cutText maxLength e.value] :=
  List.map_map

/-- The groups of a batch: the bodies, and whatever other rows there are. -/
theorem cases_of_mem_groups {layout : Layout} {source : RowSource}
    (hs : source ∈ w.groups layout schema structures) :
    source = Rows.bodies layout.body structures ∨
      (∃ t, entriesOf t structures ≠ [] ∧
        source = Rows.indexes (layout.index t) w.maxLength (entriesOf t structures)) ∨
      structures.flatMap Structure.uniques ≠ [] ∧ source =
        Rows.uniques layout.uniques w.maxLength (structures.flatMap Structure.uniques) ∨
      schema.accessors ≠ [] ∧ source = Rows.memberColumns layout w.maxLength structures := by
  simp only [groups, List.cons_append, List.mem_cons, List.mem_append, List.mem_flatMap] at hs
  rcases hs with rfl | (⟨t, _, hs⟩ | hs) | hs
  · exact .inl rfl
  · rw [indexGroup] at hs
    split at hs
    · cases hs
    · next hentries => exact .inr (.inl ⟨t, hentries, List.mem_singleton.1 hs⟩)
  · rw [uniqueGroup] at hs
    split at hs
    · cases hs
    · next hentries => exact .inr (.inr (.inl ⟨hentries, List.mem_singleton.1 hs⟩))
  · split at hs
    · cases hs
    · next hacc =>
      exact .inr (.inr (.inr ⟨fun h => hacc (List.isEmpty_iff.2 h), List.mem_singleton.1 hs⟩))

theorem writable_of_mem_groups
    (hcolumns : structures.length = 1 →
      ∀ c ∈ (Layout.ofSchema naming schema).memberColumns.columns, Insertable c)
    (h : schema.Accepted) (hne : structures ≠ []) {source : RowSource}
    (hs : source ∈ w.groups (Layout.ofSchema naming schema) schema structures) :
    source.Writable := by
  obtain rfl | ⟨t, hentries, rfl⟩ | ⟨huniques, rfl⟩ | ⟨-, rfl⟩ := cases_of_mem_groups hs
  · exact writable_bodies h hne
  · exact writable_indexes h t w.maxLength hentries
  · exact writable_uniques h w.maxLength huniques
  · exact writable_memberColumns hcolumns h w.maxLength hne

theorem fits_of_mem_groups {db : Database}
    (hcolumns : structures.length = 1 →
      ∀ c ∈ (Layout.ofSchema naming schema).memberColumns.columns, Insertable c)
    (h : schema.Accepted) (hne : structures ≠ [])
    (hdb : db.Receives (Layout.ofSchema naming schema) schema structures) {source : RowSource}
    (hs : source ∈ w.groups (Layout.ofSchema naming schema) schema structures) :
    Fits db source := by
  refine ⟨writable_of_mem_groups hcolumns h hne hs, ?_⟩
  obtain rfl | ⟨t, hentries, rfl⟩ | ⟨huniques, rfl⟩ | ⟨hacc, rfl⟩ := cases_of_mem_groups hs
  · exact hdb.body hne
  · exact hdb.index t hentries
  · exact hdb.uniques huniques
  · exact hdb.memberColumns hne hacc

theorem table_of_mem_bodies {source : RowSource}
    (hs : source ∈ [Rows.bodies (Layout.ofSchema naming schema).body structures]) :
    source.table = TableName.body schema.name := by
  obtain rfl := List.mem_singleton.1 hs
  rfl

theorem table_of_mem_indexGroup {t : IndexTable} {source : RowSource}
    (hs : source ∈ w.indexGroup (Layout.ofSchema naming schema) structures t) :
    source.table = TableName.index schema.name t := by
  rw [indexGroup] at hs
  split at hs
  · cases hs
  · obtain rfl := List.mem_singleton.1 hs
    rfl

theorem table_of_mem_uniqueGroup {source : RowSource}
    (hs : source ∈ w.uniqueGroup (Layout.ofSchema naming schema) structures) :
    source.table = TableName.uniques schema.name := by
  rw [uniqueGroup] at hs
  split at hs
  · cases hs
  · obtain rfl := List.mem_singleton.1 hs
    rfl

theorem table_of_mem_memberGroup {source : RowSource} {maxLength : Nat}
    (hs : source ∈ if schema.accessors.isEmpty then []
      else [Rows.memberColumns (Layout.ofSchema naming schema) maxLength structures]) :
    source.table = TableName.memberColumns schema.name := by
  split at hs
  · cases hs
  · obtain rfl := List.mem_singleton.1 hs
    rfl

/-- The sources with a table of another name are left out. -/
theorem filter_eq_nil {name other : String} {sources : List RowSource}
    (h : ∀ source ∈ sources, source.table = other) (hne : other ≠ name) :
    (sources.filter fun source => source.table = name) = [] := by
  refine List.filter_eq_nil_iff.2 fun source hs => ?_
  rw [h source hs, decide_eq_true_iff]
  exact hne

theorem filter_eq_self {name : String} {sources : List RowSource}
    (h : ∀ source ∈ sources, source.table = name) :
    (sources.filter fun source => source.table = name) = sources :=
  List.filter_eq_self.2 fun source hs => decide_eq_true (h source hs)

/-- The groups of a batch are filtered one kind after another. -/
theorem filter_groups (name : String) :
    ((w.groups (Layout.ofSchema naming schema) schema structures).filter fun source =>
      source.table = name) =
        ([Rows.bodies (Layout.ofSchema naming schema).body structures].filter fun source =>
          source.table = name) ++
        IndexTable.all.flatMap (fun t =>
          (w.indexGroup (Layout.ofSchema naming schema) structures t).filter fun source =>
            source.table = name) ++
        ((w.uniqueGroup (Layout.ofSchema naming schema) structures).filter fun source =>
          source.table = name) ++
        (if schema.accessors.isEmpty then []
          else [Rows.memberColumns (Layout.ofSchema naming schema) w.maxLength
            structures]).filter fun source => source.table = name := by
  rw [groups, ← List.singleton_append, List.filter_append, List.filter_append, List.filter_append,
    List.filter_flatMap]

theorem filter_indexGroups {name : String} (h : ∀ t, TableName.index schema.name t ≠ name) :
    (IndexTable.all.flatMap fun t =>
      (w.indexGroup (Layout.ofSchema naming schema) structures t).filter fun source =>
        source.table = name) = [] :=
  List.flatMap_eq_nil_iff.2 fun t _ =>
    filter_eq_nil (fun _ hs => table_of_mem_indexGroup hs) (h t)

theorem filter_memberColumns :
    ((w.groups (Layout.ofSchema naming schema) schema structures).filter fun source =>
      source.table = TableName.memberColumns schema.name) =
        if schema.accessors.isEmpty then []
        else [Rows.memberColumns (Layout.ofSchema naming schema) w.maxLength structures] := by
  rw [filter_groups,
    filter_eq_nil (fun _ => table_of_mem_bodies) TableName.body_ne_memberColumns,
    filter_indexGroups fun t => (TableName.memberColumns_ne_index t).symm,
    filter_eq_nil (fun _ => table_of_mem_uniqueGroup) TableName.uniques_ne_memberColumns,
    filter_eq_self fun _ => table_of_mem_memberGroup]
  rfl

theorem filter_uniques :
    ((w.groups (Layout.ofSchema naming schema) schema structures).filter fun source =>
      source.table = TableName.uniques schema.name) =
        w.uniqueGroup (Layout.ofSchema naming schema) structures := by
  rw [filter_groups,
    filter_eq_nil (fun _ => table_of_mem_bodies) TableName.body_ne_uniques,
    filter_indexGroups fun t => (TableName.uniques_ne_index t).symm,
    filter_eq_self fun _ => table_of_mem_uniqueGroup,
    filter_eq_nil (fun _ => table_of_mem_memberGroup) TableName.uniques_ne_memberColumns.symm,
    List.append_nil]
  rfl

/-- A batch is written to the tables of its type only. -/
theorem filter_other {name : String} (hbody : name ≠ TableName.body schema.name)
    (hindex : ∀ t, name ≠ TableName.index schema.name t)
    (huniques : name ≠ TableName.uniques schema.name)
    (hmembers : name ≠ TableName.memberColumns schema.name) :
    ((w.groups (Layout.ofSchema naming schema) schema structures).filter fun source =>
      source.table = name) = [] := by
  rw [filter_groups,
    filter_eq_nil (fun _ => table_of_mem_bodies) hbody.symm,
    filter_indexGroups fun t => (hindex t).symm,
    filter_eq_nil (fun _ => table_of_mem_uniqueGroup) huniques.symm,
    filter_eq_nil (fun _ => table_of_mem_memberGroup) hmembers.symm]
  rfl

theorem filter_index (t : IndexTable) :
    ((w.groups (Layout.ofSchema naming schema) schema structures).filter fun source =>
      source.table = TableName.index schema.name t) =
        w.indexGroup (Layout.ofSchema naming schema) structures t := by
  have hother : ∀ u, u ≠ t →
      ((w.indexGroup (Layout.ofSchema naming schema) structures u).filter fun source =>
        source.table = TableName.index schema.name t) = [] :=
    fun u hu => filter_eq_nil (fun _ => table_of_mem_indexGroup)
      fun he => hu (TableName.index_inj he)
  have hown : ((w.indexGroup (Layout.ofSchema naming schema) structures t).filter fun source =>
      source.table = TableName.index schema.name t) =
        w.indexGroup (Layout.ofSchema naming schema) structures t :=
    filter_eq_self fun _ => table_of_mem_indexGroup
  rw [filter_groups,
    filter_eq_nil (fun _ => table_of_mem_bodies) (TableName.body_ne_index t),
    filter_eq_nil (fun _ => table_of_mem_uniqueGroup) (TableName.uniques_ne_index t),
    filter_eq_nil (fun _ => table_of_mem_memberGroup) (TableName.memberColumns_ne_index t),
    List.nil_append, List.append_nil, List.append_nil, IndexTable.all]
  cases t <;> simp [hother, hown]

theorem filter_body :
    ((w.groups (Layout.ofSchema naming schema) schema structures).filter fun source =>
      source.table = TableName.body schema.name) =
        [Rows.bodies (Layout.ofSchema naming schema).body structures] := by
  rw [filter_groups,
    filter_eq_self fun _ => table_of_mem_bodies,
    filter_indexGroups fun t => (TableName.body_ne_index t).symm,
    filter_eq_nil (fun _ => table_of_mem_uniqueGroup) TableName.body_ne_uniques.symm,
    filter_eq_nil (fun _ => table_of_mem_memberGroup) TableName.body_ne_memberColumns.symm]
  rfl

/-- A batch is written with the layout that is kept for its schema, and every table gets the rows
of its group. -/
theorem insert_yields {db : Database} {cache : LayoutCache}
    (hcache : (cache.getOrCreate w.naming schema).1.2 = Layout.ofSchema naming schema)
    (hcolumns : structures.length = 1 →
      ∀ c ∈ (Layout.ofSchema naming schema).memberColumns.columns, Insertable c)
    (h : schema.Accepted) (hne : structures ≠ [])
    (hdb : db.Receives (Layout.ofSchema naming schema) schema structures) :
    ∃ stats, (w.insert cache schema structures).1.Yields db stats fun name =>
      (db.table? name).map
        (withRows (w.groups (Layout.ofSchema naming schema) schema structures) name) := by
  have hempty : structures.isEmpty = false := List.isEmpty_eq_false_iff.2 hne
  have hinsert : (w.insert cache schema structures).1 = (do
      let written ← w.writeGroups (w.groups (Layout.ofSchema naming schema) schema structures)
      pure ⟨structures.length, written⟩) := by
    rw [insert, hempty, if_neg Bool.false_ne_true]
    simp only [hcache]
  have hfits : ∀ source ∈ w.groups (Layout.ofSchema naming schema) schema structures,
      Fits db source := fun source hs => fits_of_mem_groups hcolumns h hne hdb hs
  have hgroups : (w.writeGroups _).Yields db _ _ := writeGroups_yields hfits
  refine ⟨⟨structures.length, (w.groups (Layout.ofSchema naming schema) schema
    structures).map written⟩, ?_⟩
  rw [hinsert]
  refine hgroups.bind_pure _

theorem insert_cache {cache : LayoutCache} (hne : structures ≠ []) :
    (w.insert cache schema structures).2 = (cache.getOrCreate w.naming schema).2 := by
  have hempty : structures.isEmpty = false := List.isEmpty_eq_false_iff.2 hne
  rw [insert, hempty, if_neg Bool.false_ne_true]

end Writer

theorem Database.HoldsType.of_withRows {db db' : Database} {layout : Layout}
    {sources : List RowSource} (h : db.HoldsType layout) (hfail : db'.failing = db.failing)
    (htables : db'.table? = fun name => (db.table? name).map (Writer.withRows sources name)) :
    db'.HoldsType layout := by
  have hkeep : ∀ l : TableLayout, db.Holds l → db'.Holds l := by
    rintro l ⟨hf, t, ht, hc⟩
    refine ⟨hfail ▸ hf, Writer.withRows sources l.table t, ?_, hc⟩
    rw [htables]
    dsimp only
    rw [ht, Option.map_some]
  exact ⟨hkeep _ h.body, fun t => hkeep _ (h.index t), hkeep _ h.uniques, hkeep _ h.memberColumns⟩

end DocStore
