import DocStore.Proofs.Database.Failing
import DocStore.Proofs.Writer.Appended

/-!
# Batches that fail

The groups of a batch are written one after another, and a group that fails leaves its table as it
was. A batch that fails has therefore written some groups whole and the others not at all.
-/

namespace DocStore

theorem Action.on_bind_eq_error {α β : Type} {x : Action α} {f : α → Action β} {e : Error}
    {db db' : Database} :
    (x >>= f).on db = (.error e, db') ↔ x.on db = (.error e, db') ∨
      ∃ a db₁, x.on db = (.ok a, db₁) ∧ (f a).on db₁ = (.error e, db') := by
  rw [on_bind]
  rcases x.on db with ⟨cause | a, db₁⟩
  · simp
  · simp

namespace Statement

variable {table : String} {columns : List String} {values : List Value} {statement : Statement}

theorem insert_of_insert? {text : List Char} (h : insert? text = some statement) :
    ∃ table columns parameters, statement = .insert table columns parameters := by
  unfold insert? at h
  simp only [Option.bind_eq_bind, Option.bind_eq_some_iff] at h
  obtain ⟨_, -, ⟨table, _⟩, -, _, -, ⟨columns, _⟩, -, values, -, h⟩ := h
  exact ⟨table, _, _, (Option.some.inj h).symm⟩

/-- Whatever the names in it, the text of an insertion is read as one or not at all. -/
theorem insert_of_insertRow
    (h : ofText? (Definition.insertRow table columns values).sql = some statement) :
    ∃ table columns parameters, statement = .insert table columns parameters := by
  obtain ⟨rest, hrest⟩ : ∃ rest, (Definition.insertRow table columns values).sql.toList =
      "insert into ".toList ++ rest := by
    rw [Definition.insertRow, Command.ofValues, Sql.toList_render]
    simp only [List.cons_append, Sql.chars_cons]
    exact ⟨_, rfl⟩
  have hcreate : create? ("insert into ".toList ++ rest) = none := rfl
  have hdrop : dropColumns? ("insert into ".toList ++ rest) = none := rfl
  have hadd : addColumns? ("insert into ".toList ++ rest) = none := rfl
  have hdelete : delete? ("insert into ".toList ++ rest) = none := rfl
  unfold ofText? at h
  simp only [hrest, hcreate, hdrop, hadd, hdelete, Option.orElse_none] at h
  exact insert_of_insert? h

end Statement

namespace Table

variable {t : Table} {row row' : List Value}

theorem mem_of_ordinal {c : String} {i : Nat} (h : t.ordinal c = .ok i) : c ∈ t.columns := by
  by_contra hc
  have hnone : t.ordinal? c = none := List.idxOf?_eq_none_iff.2 hc
  unfold ordinal at h
  rw [hnone] at h
  cases h

/-- A row is filled only if the table has all columns. -/
theorem mem_of_fillRow {pairs : List (String × Value)} (h : t.fillRow row pairs = .ok row') :
    ∀ p ∈ pairs, p.1 ∈ t.columns := by
  induction pairs generalizing row with
  | nil => simp
  | cons p pairs ih =>
    unfold fillRow at h
    obtain ⟨i, hi, h⟩ := bind_eq_ok.1 h
    rw [List.forall_mem_cons]
    exact ⟨mem_of_ordinal hi, ih h⟩

theorem mem_of_mapped {name : String} {mappings : List (Nat × String)}
    {ordinals : List (Nat × Nat)} (h : t.mapped name mappings = .ok ordinals) :
    ∀ m ∈ mappings, m.2 ∈ t.columns := by
  induction mappings generalizing ordinals with
  | nil => simp
  | cons m mappings ih =>
    unfold mapped at h
    cases hi : t.ordinal? m.2 with
    | none =>
      simp only [hi] at h
      cases h
    | some i =>
      simp only [hi] at h
      obtain ⟨others, ho, -⟩ := bind_eq_ok.1 h
      rw [List.forall_mem_cons]
      refine ⟨?_, ih ho⟩
      by_contra hc
      have hnone : t.ordinal? m.2 = none := List.idxOf?_eq_none_iff.2 hc
      simp [hnone] at hi

end Table

namespace Database

variable {db db' : Database} {source : RowSource} {name : String} {t : Table} {e : Error}

theorem notMem_of_table (h : db.table name = .ok t) : name ∉ db.failing := by
  intro hf
  unfold table check at h
  rw [if_pos hf] at h
  cases h

/-- A row is inserted only into a table that has all its columns. -/
theorem insert_eq_ok {command : Command} {columns parameters : List String} {n : Nat}
    (hs : Statement.ofText? command.sql = some (.insert name columns parameters))
    (hl : columns.length ≤ parameters.length) (h : (execute command).on db = (.ok n, db')) :
    ∃ t, db.table name = .ok t ∧ ∀ c ∈ columns, c ∈ t.columns := by
  rw [execute_on, applied, hs] at h
  dsimp only at h
  rw [apply] at h
  cases ht : db.table name with
  | error e =>
    rw [ht] at h
    cases h
  | ok t =>
    let values := parameters.map fun p => (command.param? p).getD .null
    have hzip : (columns.zip values).map Prod.fst = columns :=
      List.map_fst_zip (by rwa [List.length_map])
    cases hrow : t.fillRow t.emptyRow (columns.zip values) with
    | error e =>
      simp only [ht, bind, Except.bind, values, hrow] at h
      cases h
    | ok row =>
      refine ⟨t, rfl, fun c hc => ?_⟩
      rw [← hzip] at hc
      obtain ⟨p, hp, rfl⟩ := List.mem_map.1 hc
      exact Table.mem_of_fillRow hrow p hp

end Database

namespace Writer

variable {w : Writer} {db db' : Database} {source : RowSource} {sources : List RowSource}
  {e : Error} {naming : ColumnNaming} {schema : Schema} {structures : List Structure}

theorem insertOne_eq_error (h : (insertOne source).on db = (.error e, db')) : db' = db := by
  unfold insertOne at h
  obtain hread | ⟨values, db₁, hread, h⟩ := Action.on_bind_eq_error.1 h
  · exact (Prod.mk.inj hread).2.symm
  · obtain rfl : db = db₁ := (Prod.mk.inj hread).2
    obtain ⟨statement, hs, happly⟩ := Database.execute_eq_error h
    obtain ⟨_, _, _, rfl⟩ := Statement.insert_of_insertRow hs
    obtain hsame | hhalts := Database.apply_eq_error happly
    · exact hsame
    · cases hhalts

theorem bulkCopy_eq_error {name : String} {mappings : List (Nat × String)} {batchSize : Nat}
    (h : (Database.bulkCopy name mappings source batchSize).on db = (.error e, db')) :
    db' = db := by
  unfold Database.bulkCopy at h
  rw [Action.on_of] at h
  split at h
  · exact (Prod.mk.inj h).2.symm
  · cases h

theorem columns_of_bulkCopy {count size : Nat}
    (h : (Database.bulkCopy source.table source.mappings source size).on db = (.ok count, db')) :
    ∃ t, db.table source.table = .ok t ∧ ∀ c ∈ source.layout.columns, c ∈ t.columns := by
  unfold Database.bulkCopy at h
  rw [Action.on_of] at h
  split at h
  · cases h
  · next left copied hcopied =>
    unfold Database.copied at hcopied
    obtain ⟨t, ht, hcopied⟩ := bind_eq_ok.1 hcopied
    obtain ⟨ordinals, ho, -⟩ := bind_eq_ok.1 hcopied
    refine ⟨t, ht, fun c hc => ?_⟩
    obtain ⟨i, hi, rfl⟩ := List.mem_iff_getElem.1 hc
    have hmapping : (i, source.layout.columns[i]) ∈ source.mappings := by
      refine List.mem_map.2 ⟨(source.layout.columns[i], i), ?_, rfl⟩
      rw [List.mk_mem_zipIdx_iff_getElem?]
      exact List.getElem?_eq_getElem hi
    exact Table.mem_of_mapped ho _ hmapping

theorem columns_of_insertOne {count : Nat} (hs : source.Writable) (hlen : source.rows.length ≤ 1)
    (h : (insertOne source).on db = (.ok count, db')) :
    ∃ t, db.table source.table = .ok t ∧ ∀ c ∈ source.layout.columns, c ∈ t.columns := by
  have hpos : 0 < source.rows.length := List.length_pos_iff.2 hs.rows
  have hone : source.rows.length = 1 := by omega
  obtain ⟨row, hrow⟩ := List.length_eq_one_iff.1 hone
  unfold insertOne at h
  obtain ⟨values, db₁, hread, h⟩ := Action.on_bind_eq_ok.1 h
  rw [firstRow_eq hs.readable hrow] at hread
  obtain ⟨hvalues, rfl⟩ := Prod.mk.inj hread
  obtain rfl := Except.ok.inj hvalues
  have hne : (List.range source.fieldCount).map (RowSource.field row) ≠ [] := by
    rw [Ne, List.map_eq_nil_iff, List.range_eq_nil]
    exact fun hnone => hs.columns (List.length_eq_zero_iff.1 hnone)
  have hinsert := Statement.ofText?_insertRow hs.table (hs.insertable hone) hne
  refine Database.insert_eq_ok hinsert ?_ h
  simp [RowSource.fieldCount]

/-- A group that fails changes nothing. -/
theorem writeGroup_eq_error (h : (w.writeGroup source).on db = (.error e, db')) : db' = db := by
  unfold writeGroup at h
  by_cases hlen : 1 < source.rows.length
  · simp only [hlen, if_true] at h
    obtain hcopy | ⟨_, _, -, h⟩ := Action.on_bind_eq_error.1 h
    · exact bulkCopy_eq_error hcopy
    · cases h
  · simp only [hlen, if_false] at h
    obtain hinsert | ⟨_, _, -, h⟩ := Action.on_bind_eq_error.1 h
    · exact insertOne_eq_error hinsert
    · cases h

/-- A group is written only if its table can take it. -/
theorem fits_of_writeGroup {written : GroupWrite} (hs : source.Writable)
    (h : (w.writeGroup source).on db = (.ok written, db')) : Fits db source := by
  obtain ⟨t, ht, hc⟩ : ∃ t, db.table source.table = .ok t ∧
      ∀ c ∈ source.layout.columns, c ∈ t.columns := by
    unfold writeGroup at h
    by_cases hlen : 1 < source.rows.length
    · simp only [hlen, if_true] at h
      obtain ⟨count, db₁, hcopy, -⟩ := Action.on_bind_eq_ok.1 h
      exact columns_of_bulkCopy hcopy
    · simp only [hlen, if_false] at h
      obtain ⟨count, db₁, hinsert, -⟩ := Action.on_bind_eq_ok.1 h
      exact columns_of_insertOne hs (by omega) hinsert
  exact ⟨hs, Database.notMem_of_table ht, t, Database.table?_of_table ht, hc⟩

/-- The groups before the one that fails are written. -/
theorem writeGroups_eq_error (h : (w.writeGroups sources).on db = (.error e, db')) :
    ∃ done source rest written, sources = done ++ source :: rest ∧
      (w.writeGroups done).on db = (.ok written, db') ∧
      (w.writeGroup source).on db' = (.error e, db') := by
  induction sources generalizing db with
  | nil => cases h
  | cons first sources ih =>
    unfold writeGroups at h
    obtain hfirst | ⟨group, db₁, hfirst, h⟩ := Action.on_bind_eq_error.1 h
    · obtain rfl := writeGroup_eq_error hfirst
      exact ⟨[], first, sources, [], rfl, rfl, hfirst⟩
    · obtain h | ⟨_, _, -, h⟩ := Action.on_bind_eq_error.1 h
      · obtain ⟨done, source, rest, written, rfl, hdone, hsource⟩ := ih h
        refine ⟨first :: done, source, rest, group :: written, rfl, ?_, hsource⟩
        unfold writeGroups
        exact Action.on_bind_eq_ok.2 ⟨group, db₁, hfirst,
          Action.on_bind_eq_ok.2 ⟨written, db', hdone, rfl⟩⟩
      · cases h

theorem Fits.of_update {t : Table} {rows : List (List Value)} {other : RowSource}
    (h : Fits db' other) (hf : db'.failing = db.failing) (ht : db.table? source.table = some t)
    (htables : db'.table? = Function.update db.table? source.table (some ⟨t.columns, rows⟩)) :
    Fits db other := by
  obtain ⟨hwritable, hfail, u, hu, hc⟩ := h
  refine ⟨hwritable, hf ▸ hfail, ?_⟩
  rw [htables] at hu
  by_cases hn : other.table = source.table
  · rw [hn, Function.update_self] at hu
    obtain rfl := Option.some.inj hu
    exact ⟨t, hn ▸ ht, hc⟩
  · rw [Function.update_of_ne hn] at hu
    exact ⟨u, hu, hc⟩

/-- Groups are written only if every table could take its own from the start. -/
theorem fits_of_writeGroups {written : List GroupWrite} (hs : ∀ source ∈ sources, source.Writable)
    (h : (w.writeGroups sources).on db = (.ok written, db')) :
    ∀ source ∈ sources, Fits db source := by
  induction sources generalizing db db' written with
  | nil => simp
  | cons first sources ih =>
    rw [List.forall_mem_cons] at hs
    unfold writeGroups at h
    obtain ⟨group, db₁, hfirst, h⟩ := Action.on_bind_eq_ok.1 h
    obtain ⟨others, db₂, hothers, -⟩ := Action.on_bind_eq_ok.1 h
    have hfits : Fits db first := fits_of_writeGroup hs.1 hfirst
    obtain ⟨-, hf, t, ht, hc⟩ := id hfits
    obtain ⟨-, hfailing, htables⟩ := (writeGroup_yields hs.1 hf ht hc).eq_of_on hfirst
    rw [List.forall_mem_cons]
    refine ⟨hfits, fun other ho => ?_⟩
    exact (ih hs.2 hothers other ho).of_update hfailing ht htables

/-- A batch is written only if the table of member columns has a column for every member. -/
theorem columns_of_insert {cache : LayoutCache} {stats : WriteStats}
    (hlayout : (cache.getOrCreate w.naming schema).1.2 = Layout.ofSchema naming schema)
    (hcolumns : structures.length = 1 →
      ∀ c ∈ (Layout.ofSchema naming schema).memberColumns.columns, Insertable c)
    (h : schema.Accepted) (hne : structures ≠ []) (hacc : schema.accessors ≠ [])
    (hok : (w.insert cache schema structures).1.on db = (.ok stats, db')) :
    ∃ t, db.table? (TableName.memberColumns schema.name) = some t ∧
      ∀ c ∈ (Layout.ofSchema naming schema).memberColumns.columns, c ∈ t.columns := by
  unfold insert at hok
  rw [if_neg (by simpa using hne)] at hok
  dsimp only at hok
  rw [hlayout] at hok
  obtain ⟨written, db₁, hwrite, -⟩ := Action.on_bind_eq_ok.1 hok
  have hmem : Rows.memberColumns (Layout.ofSchema naming schema) w.maxLength structures ∈
      w.groups (Layout.ofSchema naming schema) schema structures := by
    rw [groups, if_neg (by simpa using hacc)]
    exact List.mem_append_right _ (List.mem_singleton_self _)
  obtain ⟨-, -, t, ht, hc⟩ :=
    fits_of_writeGroups (fun _ hs => writable_of_mem_groups hcolumns h hne hs) hwrite _ hmem
  exact ⟨t, ht, hc⟩

end Writer

structure Group where
  table : String
  records : List (List (String × Value))

namespace Group

variable {w : Writer} {naming : ColumnNaming} {schema : Schema} {structures : List Structure}

def bodies (schema : Schema) (structures : List Structure) : Group :=
  ⟨TableName.body schema.name, structures.map Writer.bodyRecord⟩

def indexes (maxLength : Nat) (schema : Schema) (structures : List Structure)
    (table : IndexTable) : Group :=
  ⟨TableName.index schema.name table, ((structures.flatMap Structure.indexes).filter fun e =>
    e.table = table ∧ e.value ≠ .null).map (Writer.indexRecord maxLength)⟩

def uniques (maxLength : Nat) (schema : Schema) (structures : List Structure) : Group :=
  ⟨TableName.uniques schema.name,
    (structures.flatMap Structure.uniques).map (Writer.uniqueRecord maxLength)⟩

def memberColumns (maxLength : Nat) (columns : List String) (schema : Schema)
    (structures : List Structure) : Group :=
  ⟨TableName.memberColumns schema.name, if schema.accessors = [] then []
    else structures.map (Writer.memberRecord maxLength columns schema)⟩

def all (maxLength : Nat) (columns : List String) (schema : Schema)
    (structures : List Structure) : List Group :=
  bodies schema structures :: IndexTable.all.map (indexes maxLength schema structures) ++
    [uniques maxLength schema structures, memberColumns maxLength columns schema structures]

def nonEmpty (groups : List Group) : List Group :=
  groups.filter fun g => !g.records.isEmpty

def ofSource (source : RowSource) : Group :=
  ⟨source.table, source.cells.map fun values => source.layout.columns.zip values⟩

theorem nodup_table_nonEmpty (maxLength : Nat) (columns : List String) :
    ((nonEmpty (all maxLength columns schema structures)).map table).Nodup := by
  have htables : (all maxLength columns schema structures).map table =
      ("Structure" :: IndexTable.all.map IndexTable.suffix ++ ["Uniques", "Indexes"]).map
        (schema.name ++ ·) := rfl
  have hall : ((all maxLength columns schema structures).map table).Nodup := by
    rw [htables]
    exact List.Nodup.map (fun _ _ => TableName.append_inj) (by decide)
  exact hall.sublist (List.filter_sublist.map table)

theorem nonEmpty_singleton (g : Group) : nonEmpty [g] = if g.records = [] then [] else [g] := by
  unfold nonEmpty
  by_cases h : g.records = [] <;> simp [h]

theorem map_ofSource_bodies (hne : structures ≠ []) :
    [Rows.bodies (Layout.ofSchema naming schema).body structures].map ofSource =
      nonEmpty [bodies schema structures] := by
  have hrecords : (bodies schema structures).records ≠ [] := by simpa [bodies] using hne
  rw [nonEmpty_singleton, if_neg hrecords, List.map_singleton, ofSource, Writer.cells_bodies,
    List.map_map]
  rfl

theorem map_ofSource_indexGroup (table : IndexTable) :
    (w.indexGroup (Layout.ofSchema naming schema) structures table).map ofSource =
      nonEmpty [indexes w.maxLength schema structures table] := by
  rw [nonEmpty_singleton, indexes, ← Writer.entriesOf_eq, Writer.indexGroup]
  split
  · next hentries => simp [hentries]
  · next hentries =>
    have hrecords : (Writer.entriesOf table structures).map
        ((fun values => (Layout.indexColumns table).zip values) ∘
          Writer.indexCells w.maxLength table) =
        (Writer.entriesOf table structures).map (Writer.indexRecord w.maxLength) :=
      List.map_congr_left fun e he => Writer.indexRecord_eq (Writer.table_of_mem_entriesOf he)
    rw [if_neg (by simpa using hentries), List.map_singleton, ofSource, Writer.cells_indexes,
      List.map_map]
    exact congrArg (fun records => [Group.mk _ records]) hrecords

theorem map_ofSource_uniqueGroup :
    (w.uniqueGroup (Layout.ofSchema naming schema) structures).map ofSource =
      nonEmpty [uniques w.maxLength schema structures] := by
  rw [nonEmpty_singleton, uniques, Writer.uniqueGroup]
  split
  · next hentries => simp [hentries]
  · next hentries =>
    have hrecords : (structures.flatMap Structure.uniques).map
        ((fun values => (Layout.ofSchema naming schema).uniques.columns.zip values) ∘
          fun e => [e.id.toValue, Rows.uniqueScope e, .string e.path,
            Rows.cutText w.maxLength e.value]) =
        (structures.flatMap Structure.uniques).map (Writer.uniqueRecord w.maxLength) := by
      refine List.map_congr_left fun e _ => ?_
      rw [Function.comp_apply, Writer.uniqueScope_eq]
      rfl
    rw [if_neg (by simpa using hentries), List.map_singleton, ofSource, Writer.cells_uniques,
      List.map_map]
    exact congrArg (fun records => [Group.mk _ records]) hrecords

theorem map_ofSource_memberGroup (hne : structures ≠ []) :
    (if schema.accessors.isEmpty then []
      else [Rows.memberColumns (Layout.ofSchema naming schema) w.maxLength structures]).map
        ofSource =
      nonEmpty [memberColumns w.maxLength (Layout.ofSchema naming schema).memberColumns.columns
        schema structures] := by
  rw [nonEmpty_singleton, memberColumns]
  by_cases hacc : schema.accessors = []
  · simp [hacc]
  · have hrecords : structures.map ((fun values =>
        (Layout.ofSchema naming schema).memberColumns.columns.zip values) ∘
          Writer.memberCells w.maxLength schema) =
        structures.map (Writer.memberRecord w.maxLength
          (Layout.ofSchema naming schema).memberColumns.columns schema) :=
      List.map_congr_left fun s _ => Writer.memberRecord_eq _ s
    simp only [if_neg hacc, List.isEmpty_iff, List.map_eq_nil_iff, if_neg hne]
    rw [List.map_singleton, ofSource, Writer.cells_memberColumns, List.map_map]
    exact congrArg (fun records => [Group.mk _ records]) hrecords

/-- The groups that are written are those that have rows. -/
theorem map_ofSource_groups (hne : structures ≠ []) :
    (w.groups (Layout.ofSchema naming schema) schema structures).map ofSource =
      nonEmpty (all w.maxLength (Layout.ofSchema naming schema).memberColumns.columns schema
        structures) := by
  have hindexes : (IndexTable.all.flatMap
      (w.indexGroup (Layout.ofSchema naming schema) structures)).map ofSource =
        nonEmpty (IndexTable.all.map (indexes w.maxLength schema structures)) := by
    rw [List.map_flatMap, List.map_eq_flatMap, nonEmpty, List.filter_flatMap]
    exact List.flatMap_congr fun table _ => map_ofSource_indexGroup table
  have happend : ∀ front rest : List Group, nonEmpty (front ++ rest) =
      nonEmpty front ++ nonEmpty rest := fun _ _ => List.filter_append _ _
  rw [Writer.groups, ← List.singleton_append, List.map_append, List.map_append, List.map_append,
    map_ofSource_bodies hne, hindexes, map_ofSource_uniqueGroup, map_ofSource_memberGroup hne,
    ← happend, ← happend, ← happend]
  simp only [all, List.singleton_append, List.append_assoc]

end Group

namespace Writer

variable {w : Writer} {db db' : Database} {source : RowSource} {e : Error}
  {naming : ColumnNaming} {schema : Schema} {structures : List Structure}

theorem nodup_table_groups (hne : structures ≠ []) :
    ((w.groups (Layout.ofSchema naming schema) schema structures).map RowSource.table).Nodup := by
  have htables : (w.groups (Layout.ofSchema naming schema) schema structures).map
      RowSource.table = ((w.groups (Layout.ofSchema naming schema) schema structures).map
        Group.ofSource).map Group.table := by
    rw [List.map_map]
    rfl
  rw [htables, Group.map_ofSource_groups hne]
  exact Group.nodup_table_nonEmpty w.maxLength _

/-- Only the last group names columns of members, so that all groups before one that fails have
distinct columns that a statement can name. -/
theorem writable_of_done {done rest : List RowSource} {other : RowSource} (h : schema.Accepted)
    (hne : structures ≠ [])
    (hsplit : w.groups (Layout.ofSchema naming schema) schema structures = done ++ source :: rest)
    (ho : other ∈ done) : other.Writable ∧ other.layout.columns.Nodup := by
  have hmem : other ∈ w.groups (Layout.ofSchema naming schema) schema structures := by
    rw [hsplit]
    exact List.mem_append_left _ ho
  obtain rfl | ⟨t, hentries, rfl⟩ | ⟨huniques, rfl⟩ | ⟨hacc, rfl⟩ := cases_of_mem_groups hmem
  · have hn : [Column.structureId, Column.json].Nodup := by decide
    exact ⟨writable_bodies h hne, hn⟩
  · exact ⟨writable_indexes h t w.maxLength hentries, nodup_indexColumns t⟩
  · have hn : [Column.structureId, Column.uniqueStructureId, Column.uniqueMemberPath,
        Column.uniqueValue].Nodup := by decide
    exact ⟨writable_uniques h w.maxLength huniques, hn⟩
  · have hfront : Rows.memberColumns (Layout.ofSchema naming schema) w.maxLength structures ∈
        (w.groups (Layout.ofSchema naming schema) schema structures).dropLast := by
      rw [hsplit, List.dropLast_append_of_ne_nil (List.cons_ne_nil _ _)]
      exact List.mem_append_left _ ho
    have hnodup : ((w.groups (Layout.ofSchema naming schema) schema structures).map
        RowSource.table).Nodup := nodup_table_groups hne
    rw [groups, if_neg (by simpa using hacc)] at hfront hnodup
    rw [List.dropLast_concat] at hfront
    rw [List.map_append, List.nodup_append] at hnodup
    have hdiffer := hnodup.2.2 _ (List.mem_map_of_mem hfront) _ (List.mem_singleton_self _)
    exact absurd rfl hdiffer

/-- The second database is the first with all rows of some groups, and with none of the one that
failed and those after it. -/
structure Interrupts (db db' : Database) (before : List Group) (failed : Group)
    (after : List Group) : Prop where
  complete : ∀ g ∈ before, ∃ t, db.table? g.table = some t ∧
    db'.table? g.table = some (t.appended g.records)
  failed : db'.table? failed.table = db.table? failed.table
  remaining : ∀ g ∈ after, db'.table? g.table = db.table? g.table
  others : ∀ name, (∀ g ∈ before, g.table ≠ name) → db'.table? name = db.table? name

theorem filter_table_eq_singleton {sources : List RowSource}
    (hn : (sources.map RowSource.table).Nodup) (hs : source ∈ sources) :
    (sources.filter fun other => other.table = source.table) = [source] := by
  obtain ⟨front, rest, rfl⟩ := List.append_of_mem hs
  rw [List.map_append, List.map_cons, List.nodup_append] at hn
  obtain ⟨-, hrest, hfront⟩ := hn
  have hnone : ∀ other ∈ front ++ rest, other.table ≠ source.table := by
    intro other ho
    rcases List.mem_append.1 ho with ho | ho
    · exact hfront _ (List.mem_map_of_mem ho) _ List.mem_cons_self
    · intro heq
      exact (List.nodup_cons.1 hrest).1 (heq ▸ List.mem_map_of_mem ho)
  rw [List.filter_append, List.filter_cons_of_pos (by simp)]
  have hempty : ∀ part : List RowSource, (∀ other ∈ part, other.table ≠ source.table) →
      (part.filter fun other => other.table = source.table) = [] := by
    intro part hpart
    exact List.filter_eq_nil_iff.2 fun other ho => by simpa using hpart other ho
  rw [hempty front fun other ho => hnone other (List.mem_append_left _ ho),
    hempty rest fun other ho => hnone other (List.mem_append_right _ ho), List.nil_append]

/-- Groups with tables of their own that were written, before one that was not. -/
theorem interrupts_of_writeGroups {done rest : List RowSource} {written : List GroupWrite}
    (hs : ∀ other ∈ done, other.Writable ∧ other.layout.columns.Nodup)
    (hn : ((done ++ source :: rest).map RowSource.table).Nodup)
    (hdone : (w.writeGroups done).on db = (.ok written, db')) :
    Interrupts db db' (done.map Group.ofSource) (Group.ofSource source)
      (rest.map Group.ofSource) := by
  have hfits := fits_of_writeGroups (fun other ho => (hs other ho).1) hdone
  obtain ⟨-, -, htables⟩ := (writeGroups_yields hfits).eq_of_on hdone
  rw [List.map_append, List.nodup_append] at hn
  have hothers : ∀ name, (∀ other ∈ done, other.table ≠ name) →
      db'.table? name = db.table? name := by
    intro name hname
    have hnone : (done.filter fun other => other.table = name) = [] :=
      List.filter_eq_nil_iff.2 fun other ho => by simpa using hname other ho
    have hsame : ∀ t, withRows done name t = t := fun t =>
      (withRows_of_filter_nil hnone).trans t.appended_nil
    rw [htables]
    exact (Option.map_congr fun t _ => hsame t).trans Option.map_id'
  have huntouched : ∀ other ∈ source :: rest, db'.table? other.table = db.table? other.table :=
    fun other ho => hothers other.table fun earlier he =>
      hn.2.2 _ (List.mem_map_of_mem he) _ (List.mem_map_of_mem ho)
  constructor
  case complete =>
    intro g hg
    obtain ⟨other, ho, rfl⟩ := List.mem_map.1 hg
    obtain ⟨-, -, t, ht, hc⟩ := hfits other ho
    have ht' : db.table? (Group.ofSource other).table = some t := ht
    have hrows : withRows done other.table t = t.appended (Group.ofSource other).records :=
      withRows_of_filter (filter_table_eq_singleton hn.1 ho) hc (hs other ho).2 rfl
    refine ⟨t, ht', ?_⟩
    rw [htables, ← hrows]
    dsimp only
    rw [ht']
    rfl
  case failed => exact huntouched source List.mem_cons_self
  case remaining =>
    intro g hg
    obtain ⟨other, ho, rfl⟩ := List.mem_map.1 hg
    exact huntouched other (List.mem_cons_of_mem _ ho)
  case others =>
    intro name hname
    exact hothers name fun other ho => hname _ (List.mem_map_of_mem ho)

/-- A batch that fails stops cleanly between two groups: the tables of all groups before it have
exactly their complete groups behind the rows they had, and no other table is changed. -/
theorem insert_error_interrupts {cache : LayoutCache} {layout : Layout} (h : schema.Accepted)
    (hcache : cache.Coherent) (hlayout : (cache.getOrCreate w.naming schema).1.2 = layout)
    (herror : (w.insert cache schema structures).1.on db = (.error e, db')) :
    ∃ before failed after,
      Group.nonEmpty (Group.all w.maxLength layout.memberColumns.columns schema structures) =
        before ++ failed :: after ∧
      Interrupts db db' before failed after := by
  obtain ⟨⟨used, hused⟩, -⟩ := hcache.getOrCreate w.naming schema
  obtain rfl := hused.symm.trans hlayout
  by_cases hne : structures = []
  · subst hne
    cases herror
  · have hwrite : (w.writeGroups (w.groups (Layout.ofSchema used schema) schema structures)).on db =
        (.error e, db') := by
      unfold insert at herror
      rw [if_neg (by simpa using hne)] at herror
      dsimp only at herror
      rw [hused] at herror
      obtain hwrite | ⟨_, _, -, hpure⟩ := Action.on_bind_eq_error.1 herror
      · exact hwrite
      · cases hpure
    obtain ⟨done, source, rest, written, hsplit, hdone, -⟩ := writeGroups_eq_error hwrite
    refine ⟨done.map Group.ofSource, Group.ofSource source, rest.map Group.ofSource, ?_, ?_⟩
    · rw [← Group.map_ofSource_groups hne, hsplit, List.map_append, List.map_cons]
    · apply interrupts_of_writeGroups (fun other ho => writable_of_done h hne hsplit ho) ?_ hdone
      rw [← hsplit]
      exact nodup_table_groups hne

/-- The table of strings lacks a column, so that the bodies are there and nothing else. -/
theorem insert_error_interrupts_orders :
    let schema : Schema := ⟨"Order", ⟨"Id", .identity⟩, [
      ⟨"Name", .string, some .perInstance, false, false⟩, ⟨"Notes", .text, none, false, false⟩]⟩
    let entries : Int64 → Value → Value → List IndexEntry := fun id name notes => [
      ⟨.identity id, "Name", name, .string, some .perInstance⟩,
      ⟨.identity id, "Notes", notes, .text, none⟩]
    let structures : List Structure := [
      ⟨.identity 1, "Order", "first", entries 1 (.string "anvil") .null⟩,
      ⟨.identity 2, "Order", "second", entries 2 (.string "rope") .null⟩]
    let others : List (String × Table) := [
      ("OrderStrings", ⟨["StructureId", "MemberPath", "Value"], []⟩),
      ("OrderUniques", ⟨["StructureId", "UqStructureId", "UqMemberPath", "UqValue"], []⟩)]
    let db : Database := ⟨("OrderStructure", ⟨["Json", "StructureId"], []⟩) :: others, [], [], []⟩
    let left : Database := ⟨("OrderStructure", ⟨["Json", "StructureId"],
      [[.string "first", .integer 1], [.string "second", .integer 2]]⟩) :: others, [],
      [⟨"OrderStructure", 2, 1⟩], []⟩
    let w : Writer := ⟨ColumnName.ofPath 128, 10, 3⟩
    let columns := (Layout.ofSchema w.naming schema).memberColumns.columns
    (w.insert .empty schema structures).1.on db =
        (.error (Error.unmatchedMapping "StringValue" "OrderStrings"), left) ∧
      ∃ before failed after,
        Group.nonEmpty (Group.all w.maxLength columns schema structures) =
          before ++ failed :: after ∧
        Interrupts db left before failed after := by
  intro schema entries structures others db left w columns
  have haccepted : schema.Accepted := by decide +kernel
  have hon : (w.insert .empty schema structures).1.on db =
      (.error (Error.unmatchedMapping "StringValue" "OrderStrings"), left) := by decide +kernel
  have hlayout : (LayoutCache.empty.getOrCreate w.naming schema).1.2 =
      Layout.ofSchema w.naming schema := rfl
  have hstops := insert_error_interrupts haccepted LayoutCache.coherent_empty hlayout hon
  exact ⟨hon, hstops⟩

end Writer

end DocStore
