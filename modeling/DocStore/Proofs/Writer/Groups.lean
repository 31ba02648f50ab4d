import DocStore.Proofs.Database.Effects
import DocStore.Proofs.Schema.Names
import DocStore.Writer.Insert

/-!
# Writing groups

A group of one row is inserted and a larger one is copied, with the same effect: the rows of the
source stand behind those of its table. `writeGroups_yields` says what all groups of a batch leave
in every table.
-/

namespace DocStore

/-- A source that can be written: by a statement, which names the columns, or by a copy. -/
structure RowSource.Writable (source : RowSource) : Prop where
  readable : source.Readable
  rows : source.rows ≠ []
  columns : source.layout.columns ≠ []
  table : Quotable source.table
  insertable : source.rows.length = 1 → ∀ c ∈ source.layout.columns, Insertable c

namespace Writer

variable {w : Writer} {db : Database} {source : RowSource} {sources : List RowSource} {t : Table}

theorem firstRow_eq {row : Nat → Except Error Value} (h : source.Readable)
    (hrows : source.rows = [row]) :
    firstRow source = .ok ((List.range source.fieldCount).map (RowSource.field row)) := by
  rw [firstRow, hrows]
  refine mapM_eq_ok fun i hi => h.field ?_ (List.mem_range.1 hi)
  rw [hrows]
  exact List.mem_singleton_self row

theorem insertOne_yields {row : Nat → Except Error Value} (hs : source.Writable)
    (hrows : source.rows = [row]) (hf : source.table ∉ db.failing)
    (ht : db.table? source.table = some t) (hc : ∀ c ∈ source.layout.columns, c ∈ t.columns) :
    (insertOne source).Yields db 1 (Function.update db.table? source.table
      (some ⟨t.columns, t.rows ++ source.rowsIn t⟩)) := by
  have hcells : source.rowsIn t = [t.filled (source.layout.columns.zip
      ((List.range source.fieldCount).map (RowSource.field row)))] := by
    rw [RowSource.rowsIn, RowSource.cells, hrows]
    rfl
  have hne : (List.range source.fieldCount).map (RowSource.field row) ≠ [] := by
    intro h
    rw [List.map_eq_nil_iff, List.range_eq_nil] at h
    exact hs.columns (List.length_eq_zero_iff.1 h)
  rw [hcells]
  refine Action.Yields.bind (.ofExcept (firstRow_eq hs.readable hrows) db) ?_
  intro db' hfail htables
  rw [← htables]
  refine Database.insert_yields ?_ (hfail ▸ hf) (htables ▸ ht) hc
  have hone : source.rows.length = 1 := by rw [hrows, List.length_singleton]
  exact Statement.ofText?_insertRow hs.table (hs.insertable hone) hne

def written (source : RowSource) : GroupWrite :=
  ⟨source.table, source.rows.length, 1 < source.rows.length⟩

theorem writeGroup_yields (hs : source.Writable) (hf : source.table ∉ db.failing)
    (ht : db.table? source.table = some t) (hc : ∀ c ∈ source.layout.columns, c ∈ t.columns) :
    (w.writeGroup source).Yields db (written source) (Function.update db.table? source.table
      (some ⟨t.columns, t.rows ++ source.rowsIn t⟩)) := by
  by_cases hlen : 1 < source.rows.length
  · have hcopy := Database.bulkCopy_yields hf ht hs.readable hc w.batchSize
    have hgroup : w.writeGroup source = (do
        let _ ← Database.bulkCopy source.table source.mappings source w.batchSize
        pure (written source)) := by
      simp only [writeGroup, written, hlen, decide_true, if_true]
    rw [hgroup]
    refine hcopy.bind_pure _
  · obtain ⟨row, hrow⟩ : ∃ row, source.rows = [row] := by
      have hpos := List.length_pos_iff.2 hs.rows
      exact List.length_eq_one_iff.1 (by omega)
    have hgroup : w.writeGroup source = (do
        let _ ← insertOne source
        pure (written source)) := by
      simp only [writeGroup, written, hlen, decide_false, if_false]
    rw [hgroup]
    refine (insertOne_yields hs hrow hf ht hc).bind_pure _

theorem fillRow_congr {t t' : Table} (h : t.columns = t'.columns) (row : List Value)
    (pairs : List (String × Value)) : t.fillRow row pairs = t'.fillRow row pairs := by
  induction pairs generalizing row with
  | nil => rfl
  | cons p pairs ih =>
    rw [Table.fillRow, Table.fillRow, Table.ordinal, Table.ordinal, Table.ordinal?, Table.ordinal?,
      h]
    simp only [ih]

theorem rowsIn_congr {t t' : Table} (h : t.columns = t'.columns) :
    source.rowsIn t = source.rowsIn t' := by
  have hempty : t.emptyRow = t'.emptyRow := by rw [Table.emptyRow, Table.emptyRow, h]
  refine List.map_congr_left fun values _ => ?_
  rw [Table.filled, Table.filled, hempty, fillRow_congr h]

def withRows (sources : List RowSource) (name : String) (t : Table) : Table :=
  ⟨t.columns, t.rows ++
    (sources.filter fun source => source.table = name).flatMap fun source => source.rowsIn t⟩

theorem withRows_cons (source : RowSource) (sources : List RowSource) (t : Table) :
    withRows sources source.table ⟨t.columns, t.rows ++ source.rowsIn t⟩ =
      withRows (source :: sources) source.table t := by
  have hrest : (sources.filter fun other => other.table = source.table).flatMap
      (fun other => other.rowsIn ⟨t.columns, t.rows ++ source.rowsIn t⟩) =
      (sources.filter fun other => other.table = source.table).flatMap
        fun other => other.rowsIn t :=
    List.flatMap_congr fun other _ => rowsIn_congr rfl
  rw [withRows, withRows, hrest, List.filter_cons_of_pos (by simp), List.flatMap_cons,
    List.append_assoc]

theorem withRows_cons_of_ne {name : String} (h : name ≠ source.table) (sources : List RowSource) :
    withRows (source :: sources) name = withRows sources name := by
  funext t
  rw [withRows, withRows, List.filter_cons_of_neg (by simpa using Ne.symm h)]

def Fits (db : Database) (source : RowSource) : Prop :=
  source.Writable ∧ source.table ∉ db.failing ∧
    ∃ t, db.table? source.table = some t ∧ ∀ c ∈ source.layout.columns, c ∈ t.columns

/-- Every table gets the rows of its sources. -/
theorem writeGroups_yields (h : ∀ source ∈ sources, Fits db source) :
    (w.writeGroups sources).Yields db (sources.map written) fun name =>
      (db.table? name).map (withRows sources name) := by
  induction sources generalizing db with
  | nil =>
    have hsame : (fun name => (db.table? name).map (withRows [] name)) = db.table? := by
      funext name
      cases db.table? name <;> simp [withRows]
    rw [hsame]
    exact .pure [] db
  | cons source sources ih =>
    rw [List.forall_mem_cons] at h
    obtain ⟨⟨hs, hf, t, ht, hc⟩, hrest⟩ := h
    refine (writeGroup_yields hs hf ht hc).bind fun db' hfail htables => ?_
    have hfits : ∀ other ∈ sources, Fits db' other := by
      intro other ho
      obtain ⟨hwritable, hfo, u, hu, hcu⟩ := hrest other ho
      refine ⟨hwritable, hfail ▸ hfo, ?_⟩
      rw [htables]
      by_cases hn : other.table = source.table
      · rw [hn, Function.update_self]
        rw [hn, ht] at hu
        obtain rfl := Option.some.inj hu
        exact ⟨_, rfl, hcu⟩
      · rw [Function.update_of_ne hn]
        exact ⟨u, hu, hcu⟩
    have htables' : (fun name => (db'.table? name).map (withRows sources name)) =
        fun name => (db.table? name).map (withRows (source :: sources) name) := by
      funext name
      rw [htables]
      by_cases hn : name = source.table
      · subst hn
        rw [Function.update_self, ht, Option.map_some, Option.map_some, withRows_cons]
      · rw [Function.update_of_ne hn, withRows_cons_of_ne hn]
    rw [← htables']
    refine (ih hfits).bind_pure _

end Writer

end DocStore
