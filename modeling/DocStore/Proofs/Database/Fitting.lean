import DocStore.Proofs.Database.Effects

/-!
# Rows fit their tables

Columns and rows are kept in step by every operation of a database, whether it succeeds or fails on
the way: each row has one value per column. So a position that is found for a column is a position
of every row.
-/

namespace DocStore

namespace Table

def Fits (t : Table) : Prop :=
  ∀ row ∈ t.rows, row.length = t.columns.length

variable {t : Table} {row row' : List Value}

theorem ordinal?_lt {c : String} {i : Nat} (h : t.ordinal? c = some i) : i < t.columns.length :=
  (List.findIdx?_eq_some_iff_getElem.1 h).1

/-- A position that is found is one of every row. -/
theorem Fits.ordinal?_lt (ht : t.Fits) {c : String} {i : Nat} (h : t.ordinal? c = some i) :
    ∀ row ∈ t.rows, i < row.length := by
  intro row hrow
  rw [ht row hrow]
  exact Table.ordinal?_lt h

theorem fits_nil (columns : List String) : Fits ⟨columns, []⟩ :=
  nofun

theorem Fits.dropColumns (h : t.Fits) (dropped : List String) : (t.dropColumns dropped).2.Fits := by
  induction dropped generalizing t with
  | nil => exact h
  | cons c dropped ih =>
    rw [Table.dropColumns]
    split
    · exact h
    · refine ih fun row hrow => ?_
      obtain ⟨old, hold, rfl⟩ := List.mem_map.1 hrow
      rw [List.length_eraseIdx, List.length_eraseIdx, h old hold]

theorem Fits.addColumns (h : t.Fits) (added : List String) : (t.addColumns added).2.Fits := by
  induction added generalizing t with
  | nil => exact h
  | cons c added ih =>
    rw [Table.addColumns]
    split
    · exact h
    · refine ih fun row hrow => ?_
      obtain ⟨old, hold, rfl⟩ := List.mem_map.1 hrow
      rw [List.length_append, List.length_append, h old hold, List.length_singleton,
        List.length_singleton]

theorem Fits.rowsWithout (h : t.Fits) (i : Nat) (v : Value) :
    Fits ⟨t.columns, t.rowsWithout i v⟩ :=
  fun row hrow => h row (List.mem_of_mem_filter hrow)

theorem Fits.append (h : t.Fits) {rows : List (List Value)}
    (hrows : ∀ row ∈ rows, row.length = t.columns.length) : Fits ⟨t.columns, t.rows ++ rows⟩ := by
  intro row hrow
  rcases List.mem_append.1 hrow with hrow | hrow
  · exact h row hrow
  · exact hrows row hrow

theorem length_fillRow {pairs : List (String × Value)} (h : t.fillRow row pairs = .ok row') :
    row'.length = row.length := by
  induction pairs generalizing row with
  | nil =>
    obtain rfl := Except.ok.inj h
    rfl
  | cons p pairs ih =>
    obtain ⟨i, _, h⟩ := bind_eq_ok.1 h
    rw [ih h, List.length_set]

theorem length_copyRow {value : Nat → Except Error Value} {ordinals : List (Nat × Nat)}
    (h : copyRow row value ordinals = .ok row') : row'.length = row.length := by
  induction ordinals generalizing row with
  | nil =>
    obtain rfl := Except.ok.inj h
    rfl
  | cons o ordinals ih =>
    obtain ⟨v, _, h⟩ := bind_eq_ok.1 h
    rw [ih h, List.length_set]

end Table

namespace Database

def Fits (db : Database) : Prop :=
  ∀ name t, db.table? name = some t → t.Fits

variable {db : Database} {name : String} {t : Table}

theorem fits_empty : empty.Fits :=
  nofun

theorem Fits.setTable (h : db.Fits) (name : String) (ht : t.Fits) : (db.setTable name t).Fits := by
  intro other u hu
  rw [table?_setTable, Function.update_apply] at hu
  split at hu
  · obtain rfl := Option.some.inj hu
    exact ht
  · exact h other u hu

theorem table?_of_table (h : db.table name = .ok t) : db.table? name = some t := by
  obtain ⟨_, _, h⟩ := bind_eq_ok.1 h
  cases ht : db.table? name with
  | none =>
    rw [ht] at h
    cases h
  | some u =>
    rw [ht] at h
    rw [Except.ok.inj h]

theorem Fits.table (h : db.Fits) (ht : db.table name = .ok t) : t.Fits :=
  h name t (table?_of_table ht)

/-- A statement keeps the rows in step, also where it fails half way. -/
theorem Fits.apply (h : db.Fits) (command : Command) (statement : Statement) :
    (db.apply command statement).2.Fits := by
  cases statement with
  | create name columns =>
    rw [Database.apply]
    split
    · exact h
    · split
      · exact h
      · exact h.setTable name (Table.fits_nil columns)
  | dropColumns name columns =>
    rw [Database.apply]
    split
    · exact h
    · next ht => exact h.setTable name ((h.table ht).dropColumns columns)
  | addColumns name columns =>
    rw [Database.apply]
    split
    · exact h
    · next ht => exact h.setTable name ((h.table ht).addColumns columns)
  | delete name column parameter =>
    rw [Database.apply]
    split
    · exact h
    · next t i hfound =>
      obtain ⟨u, ht, hfound⟩ := bind_eq_ok.1 hfound
      obtain ⟨j, _, hfound⟩ := bind_eq_ok.1 hfound
      cases hfound
      exact h.setTable name ((h.table ht).rowsWithout i _)
  | insert name columns parameters =>
    rw [Database.apply]
    split
    · exact h
    · next t row hfilled =>
      obtain ⟨u, ht, hfilled⟩ := bind_eq_ok.1 hfilled
      obtain ⟨filled, hrow, hfilled⟩ := bind_eq_ok.1 hfilled
      cases hfilled
      refine h.setTable name ((h.table ht).append ?_)
      rw [List.forall_mem_singleton, Table.length_fillRow hrow, Table.length_emptyRow]

theorem Fits.execute (h : db.Fits) (command : Command) : ((execute command).on db).2.Fits := by
  have happlied : (db.applied command).2.Fits := by
    rw [applied]
    split
    · exact h.apply command _
    · exact h
  rw [execute_on]
  split <;> exact happlied

theorem Fits.bulkCopy (h : db.Fits) (name : String) (mappings : List (Nat × String))
    (source : RowSource) (batchSize : Nat) :
    ((bulkCopy name mappings source batchSize).on db).2.Fits := by
  rw [Database.bulkCopy, Action.on_of]
  split
  · exact h
  · next t count hcopied =>
    obtain ⟨u, ht, hcopied⟩ := bind_eq_ok.1 hcopied
    obtain ⟨ordinals, _, hcopied⟩ := bind_eq_ok.1 hcopied
    obtain ⟨rows, hrows, hcopied⟩ := bind_eq_ok.1 hcopied
    cases hcopied
    refine h.setTable name ((h.table ht).append fun row hrow => ?_)
    obtain ⟨value, _, hvalue⟩ := exists_of_forall₂ (forall₂_of_mapM hrows) hrow
    rw [Table.length_copyRow hvalue, Table.length_emptyRow]

/-- What can be asked of a database that may change it. -/
inductive Operation where
  | createTable (name : String) (columns : List String)
  | execute (command : Command)
  | bulkCopy (name : String) (mappings : List (Nat × String)) (source : RowSource) (batchSize : Nat)
  | failOn (name : String)
  | clearLog

def after (db : Database) : Operation → Database
  | .createTable name columns => db.createTable name columns
  | .execute command => ((execute command).on db).2
  | .bulkCopy name mappings source batchSize =>
    ((bulkCopy name mappings source batchSize).on db).2
  | .failOn name => db.failOn name
  | .clearLog => db.clearLog

theorem Fits.after (h : db.Fits) (operation : Operation) : (db.after operation).Fits := by
  cases operation with
  | createTable name columns => exact h.setTable name (Table.fits_nil columns)
  | execute command => exact h.execute command
  | bulkCopy name mappings source batchSize => exact h.bulkCopy name mappings source batchSize
  | failOn name => exact h
  | clearLog => exact h

theorem Fits.foldl (h : db.Fits) (operations : List Operation) :
    (operations.foldl Database.after db).Fits := by
  induction operations generalizing db with
  | nil => exact h
  | cons operation operations ih => exact ih (h.after operation)

/-- Whatever operations a new database goes through, the rows of a table have one value per column.
So every row has the position that is found for a column, also while columns are dropped one after
another. -/
theorem rows_fit_columns (operations : List Operation)
    (ht : (operations.foldl Database.after empty).table? name = some t) :
    (∀ row ∈ t.rows, row.length = t.columns.length) ∧
      ∀ dropped column i, (t.dropColumns dropped).2.ordinal? column = some i →
        ∀ row ∈ (t.dropColumns dropped).2.rows, i < row.length := by
  have hfits : t.Fits := fits_empty.foldl operations name t ht
  refine ⟨hfits, fun dropped column i hi => ?_⟩
  exact (hfits.dropColumns dropped).ordinal?_lt hi

/-- A table with two columns of one name gets a row by a statement and one by a copy; a copy that
cannot read its row leaves none; a drop of two columns fails at the second, and an addition at the
one that is there. -/
theorem rows_fit_columns_of_items :
    let copy : Except Error Value → RowSource := fun v => ⟨⟨"", []⟩, [fun _ => v]⟩
    let operations : List Operation := [
      .execute ⟨"CREATE TABLE [Items]([A] int, [B] nvarchar(300), [A] int, unique ([A], [B]))", []⟩,
      .execute ⟨"insert into [Items] ([B], [A]) values (@p0, @p1)", [("@p0", .boolean true)]⟩,
      .bulkCopy "Items" [(7, "B"), (0, "A")] (copy (.ok (.integer 4))) 0,
      .bulkCopy "Items" [(0, "A")] (copy (.error Error.notOnRow)) 10,
      .execute ⟨"alter table [Items] drop column [A], [C], [B]", []⟩,
      .execute ⟨"alter table [Items] add [D] bit sparse null, [B] bit", []⟩,
      .clearLog, .failOn "Items", .execute ⟨"delete from [Items] where [B] = @p0", []⟩]
    let t : Table := ⟨["B", "A", "D"],
      [[.boolean true, .null, .null], [.integer 4, .null, .null]]⟩
    (operations.foldl Database.after empty).table? "Items" = some t ∧
      (∀ row ∈ t.rows, row.length = t.columns.length) ∧
      ∀ row ∈ (t.dropColumns ["B"]).2.rows, 1 < row.length := by
  intro copy operations t
  have ht : (operations.foldl Database.after empty).table? "Items" = some t := by decide +kernel
  obtain ⟨hrows, hpositions⟩ := rows_fit_columns operations ht
  exact ⟨ht, hrows, hpositions ["B"] "D" 1 (by decide +kernel)⟩

end Database

end DocStore
