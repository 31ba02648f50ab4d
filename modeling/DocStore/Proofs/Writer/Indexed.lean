import DocStore.Proofs.Schema.LayoutCache
import DocStore.Proofs.Structure.Built
import DocStore.Proofs.Writer.Batches

/-!
# Rows of index tables

A batch of built structures leaves at most one row for a structure and a member: none if the member
has no value, else one with the whole value in the column that queries read.
-/

namespace DocStore

open Table (under)

namespace Structure

variable {schema : Schema} {structures : List Structure} {s : Structure} {a : Accessor}
  {accessors : List Accessor} {indexes : List IndexEntry} {id : StructureId}

def value (s : Structure) (path : String) : Value :=
  match s.index? path with
  | some entry => entry.value
  | none => .null

theorem id_of_mem (h : List.Forall₂ (Indexes id) accessors indexes) :
    ∀ e ∈ indexes, e.id = id := by
  induction h with
  | nil => exact nofun
  | cons hentry _ ih =>
    rw [List.forall_mem_cons]
    exact ⟨hentry.id, ih⟩

theorem filter_path (h : List.Forall₂ (Indexes id) accessors indexes)
    (hn : (accessors.map Accessor.path).Nodup) (ha : a ∈ accessors) :
    ∃ entry, Indexes id a entry ∧ (indexes.filter fun e => e.path = a.path) = [entry] := by
  induction h with
  | nil => cases ha
  | @cons b entry accessors indexes hentry hrest ih =>
    rw [List.map_cons, List.nodup_cons] at hn
    rcases List.mem_cons.1 ha with rfl | ha
    · refine ⟨entry, hentry, ?_⟩
      have hnone : (indexes.filter fun e => e.path = a.path) = [] := by
        refine List.filter_eq_nil_iff.2 fun e he hpath => hn.1 ?_
        rw [← map_path hrest]
        exact List.mem_map.2 ⟨e, he, by simpa using hpath⟩
      rw [List.filter_cons_of_pos (by simpa using hentry.path), hnone]
    · obtain ⟨found, hfound, hfilter⟩ := ih hn.2 ha
      have hne : entry.path ≠ a.path := by
        rw [hentry.path]
        exact fun hpath => hn.1 (hpath ▸ List.mem_map_of_mem ha)
      exact ⟨found, hfound, by rw [List.filter_cons_of_neg (by simpa using hne), hfilter]⟩

theorem find?_of_filter {p : IndexEntry → Bool} {entry : IndexEntry}
    (h : indexes.filter p = [entry]) : indexes.find? p = some entry := by
  rw [← List.head?_filter, h, List.head?_cons]

/-- The entries of a structure among those of all. -/
theorem filter_id (hn : (structures.map Structure.id).Nodup)
    (hid : ∀ s ∈ structures, ∀ e ∈ s.indexes, e.id = s.id) (hs : s ∈ structures) :
    ((structures.flatMap Structure.indexes).filter fun e => e.id = s.id) = s.indexes := by
  induction structures with
  | nil => cases hs
  | cons t structures ih =>
    rw [List.map_cons, List.nodup_cons] at hn
    rw [List.forall_mem_cons] at hid
    rw [List.flatMap_cons, List.filter_append]
    rcases List.mem_cons.1 hs with rfl | hs
    · have hown : (s.indexes.filter fun e => e.id = s.id) = s.indexes :=
        List.filter_eq_self.2 fun e he => by simpa using hid.1 e he
      have hothers : ((structures.flatMap Structure.indexes).filter fun e => e.id = s.id) = [] := by
        refine List.filter_eq_nil_iff.2 fun e he hsame => hn.1 ?_
        obtain ⟨t, ht, he⟩ := List.mem_flatMap.1 he
        have hte := hid.2 t ht e he
        have hse : e.id = s.id := by simpa using hsame
        exact List.mem_map.2 ⟨t, ht, hte.symm.trans hse⟩
      rw [hown, hothers, List.append_nil]
    · have hfirst : (t.indexes.filter fun e => e.id = s.id) = [] := by
        refine List.filter_eq_nil_iff.2 fun e he hsame => hn.1 ?_
        have hse : e.id = s.id := by simpa using hsame
        rw [← hid.1 e he, hse]
        exact List.mem_map_of_mem hs
      rw [hfirst, ih hn.2 hid.2 hs, List.nil_append]

/-- Of all entries in the table of a member, those of a structure: one, unless it has no value. -/
theorem filter_entriesOf (h : schema.Accepted) (hb : ∀ s ∈ structures, s.IsBuilt schema)
    (hn : (structures.map Structure.id).Nodup) (hs : s ∈ structures) (ha : a ∈ schema.accessors) :
    ∃ entry, Indexes s.id a entry ∧ s.index? a.path = some entry ∧
      ((Writer.entriesOf a.storageFamily.indexTable structures).filter fun e =>
        e.id = s.id ∧ e.path = a.path) = if entry.value.isNull then [] else [entry] := by
  obtain ⟨entry, hentry, hfilter⟩ := filter_path (hb s hs).indexes h.nodup_paths ha
  refine ⟨entry, hentry, find?_of_filter hfilter, ?_⟩
  have hown : ((structures.flatMap Structure.indexes).filter fun e =>
      e.id = s.id ∧ e.path = a.path) = [entry] := by
    have hid := filter_id hn (fun s hs => id_of_mem (hb s hs).indexes) hs
    rw [← hfilter, ← hid, List.filter_filter]
    exact List.filter_congr fun e _ => by rw [Bool.decide_and, Bool.and_comm]
  have hswap : ((Writer.entriesOf a.storageFamily.indexTable structures).filter fun e =>
      e.id = s.id ∧ e.path = a.path) =
        ((structures.flatMap Structure.indexes).filter fun e =>
          e.id = s.id ∧ e.path = a.path).filter fun e =>
            e.table = a.storageFamily.indexTable && !e.value.isNull := by
    rw [Writer.entriesOf, List.filter_filter, List.filter_filter]
    exact List.filter_congr fun e _ => Bool.and_comm _ _
  rw [hswap, hown]
  cases hnull : entry.value.isNull <;> simp [hentry.table, hnull]

end Structure

/-- The tables of the type are there, and those that queries read have no rows. -/
structure Database.IsNew (db : Database) (layout : Layout) : Prop where
  holds : db.HoldsType layout
  body : db.table? layout.body.table = some ⟨layout.body.columns, []⟩
  index : ∀ table t, db.table? (layout.index table).table = some t → t.rows = []

namespace Writer

variable {w : Writer} {naming : ColumnNaming} {schema : Schema} {structures : List Structure}
  {t : Table} {maxLength : Nat} {entry : IndexEntry}

def indexRow (maxLength : Nat) (table : IndexTable) (t : Table) (entry : IndexEntry) :
    List Value :=
  t.filled ((Layout.indexColumns table).zip (indexCells maxLength table entry))

theorem rowsIn_indexGroup (table : IndexTable) :
    ((w.indexGroup (Layout.ofSchema naming schema) structures table).flatMap fun source =>
      source.rowsIn t) = (entriesOf table structures).map (indexRow w.maxLength table t) := by
  rw [indexGroup]
  split
  · next hentries => rw [hentries]; rfl
  · rw [List.flatMap_singleton, RowSource.rowsIn, cells_indexes, List.map_map]
    rfl

theorem withRows_index (table : IndexTable) :
    withRows (w.groups (Layout.ofSchema naming schema) schema structures)
      (TableName.index schema.name table) t =
        ⟨t.columns, t.rows ++ (entriesOf table structures).map (indexRow w.maxLength table t)⟩ := by
  rw [withRows, filter_index, rowsIn_indexGroup]

theorem nodup_indexColumns (table : IndexTable) : (Layout.indexColumns table).Nodup := by
  cases table <;> decide

theorem lookup_indexRow {table : IndexTable} (ht : ∀ c ∈ Layout.indexColumns table, c ∈ t.columns)
    (c : String) : under t.columns (indexRow maxLength table t entry) c =
      (((Layout.indexColumns table).zip
        (indexCells maxLength table entry)).lookup c).getD .null := by
  have hin : ∀ pair ∈ (Layout.indexColumns table).zip (indexCells maxLength table entry),
      pair.1 ∈ t.columns := fun pair hpair => ht _ (List.of_mem_zip hpair).1
  have hfst : ((Layout.indexColumns table).zip (indexCells maxLength table entry)).map Prod.fst =
      Layout.indexColumns table := by
    refine List.map_fst_zip ?_
    cases table <;> simp [Layout.indexColumns, indexCells, IndexTable.hasStringValue]
  refine Table.under_filled hin ?_ c
  rw [hfst]
  exact nodup_indexColumns table

theorem under_structureId {table : IndexTable}
    (ht : ∀ c ∈ Layout.indexColumns table, c ∈ t.columns) :
    under t.columns (indexRow maxLength table t entry) Column.structureId = entry.id.toValue := by
  rw [lookup_indexRow ht]
  rfl

theorem under_memberPath {table : IndexTable}
    (ht : ∀ c ∈ Layout.indexColumns table, c ∈ t.columns) :
    under t.columns (indexRow maxLength table t entry) Column.memberPath = .string entry.path := by
  rw [lookup_indexRow ht]
  rfl

/-- The whole value stands in a column of its own, or nothing is cut from it. -/
theorem under_valueColumn {table : IndexTable}
    (ht : ∀ c ∈ Layout.indexColumns table, c ∈ t.columns)
    (hwhole : table.hasStringValue = false → Rows.cut maxLength entry.value = entry.value) :
    under t.columns (indexRow maxLength table t entry)
      (if table.hasStringValue then Column.stringValue else Column.value) = entry.value := by
  rw [lookup_indexRow ht]
  cases htable : table.hasStringValue with
  | true =>
    rw [Layout.indexColumns, indexCells, htable]
    rfl
  | false =>
    rw [Layout.indexColumns, indexCells, htable, hwhole htable]
    rfl

/-- The tables that queries read have the rows of the structures, and no others. -/
structure Stores (db : Database) (maxLength : Nat) (schema : Schema)
    (structures : List Structure) : Prop where
  body : db.table? (TableName.body schema.name) = some ⟨[Column.structureId, Column.json],
    structures.map fun s => [s.id.toValue, .string s.body]⟩
  index : ∀ table, ∃ t : Table, (∀ c ∈ Layout.indexColumns table, c ∈ t.columns) ∧
    db.table? (TableName.index schema.name table) =
      some ⟨t.columns, (entriesOf table structures).map (indexRow maxLength table t)⟩

theorem withRows_body :
    withRows (w.groups (Layout.ofSchema naming schema) schema structures)
      (TableName.body schema.name) ⟨[Column.structureId, Column.json], []⟩ =
        ⟨[Column.structureId, Column.json],
          structures.map fun s => [s.id.toValue, .string s.body]⟩ := by
  have hrow : ∀ id body : Value, Table.filled ⟨[Column.structureId, Column.json], []⟩
      ([Column.structureId, Column.json].zip [id, body]) = [id, body] := fun _ _ => rfl
  rw [withRows, filter_body, List.flatMap_singleton, RowSource.rowsIn, cells_bodies, List.map_map]
  exact congrArg (Table.mk _) (List.map_congr_left fun s _ => hrow _ _)

/-- A batch that is written to new tables is what they store. -/
theorem insert_stores {db : Database} {cache : LayoutCache} (hn : w.naming.IsPlain)
    (h : schema.Accepted) (hcache : cache.Faithful w.naming)
    (hdb : db.IsNew (Layout.ofSchema w.naming schema)) (structures : List Structure) :
    ∃ stats db', (w.insert cache schema structures).1.on db = (.ok stats, db') ∧
      Stores db' w.maxLength schema structures := by
  by_cases hne : structures = []
  · subst hne
    refine ⟨⟨0, []⟩, db, rfl, hdb.body, ?_⟩
    intro table
    obtain ⟨_, t, ht, hcolumns⟩ := hdb.holds.index table
    refine ⟨t, hcolumns, ht.trans ?_⟩
    exact congrArg (fun rows => some (Table.mk t.columns rows)) (hdb.index table t ht)
  · obtain ⟨hlayout, _⟩ := hcache.getOrCreate schema
    obtain ⟨stats, db', hon, _, htables⟩ := insert_yields hlayout
      (fun _ => Layout.insertable_memberColumns hn h) h hne (hdb.holds.receives schema structures)
    refine ⟨stats, db', hon, ?_, ?_⟩
    · have hbody : db.table? (TableName.body schema.name) =
          some ⟨[Column.structureId, Column.json], []⟩ := hdb.body
      rw [htables]
      dsimp only
      rw [hbody, Option.map_some, withRows_body]
    · intro table
      obtain ⟨_, t, ht, hcolumns⟩ := hdb.holds.index table
      have hindex : db.table? (TableName.index schema.name table) = some t := ht
      refine ⟨t, hcolumns, ?_⟩
      rw [htables]
      dsimp only
      rw [hindex, Option.map_some, withRows_index, hdb.index table t ht, List.nil_append]

end Writer

end DocStore
