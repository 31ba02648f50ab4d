import DocStore.Proofs.Database.Fitting

/-!
# Statements that fail

A statement that fails leaves the database as it was, with one exception: a change of several
columns keeps those that were changed before the one that cannot be. Every other statement finds out
all that it needs before it changes anything.
-/

namespace DocStore

namespace Table

variable {t t' : Table} {columns : List String} {e : Error}

/-- Columns are dropped up to the first that is not there. -/
theorem dropColumns_eq_error (h : t.dropColumns columns = (.error e, t')) :
    ∃ done column rest, columns = done ++ column :: rest ∧ t.dropColumns done = (.ok (), t') ∧
      column ∉ t'.columns ∧ e = Error.missingColumn column := by
  induction columns generalizing t with
  | nil => cases h
  | cons c columns ih =>
    unfold dropColumns at h
    cases hi : t.ordinal? c with
    | none =>
      rw [hi] at h
      cases h
      exact ⟨[], c, columns, rfl, rfl, List.idxOf?_eq_none_iff.1 hi, rfl⟩
    | some i =>
      rw [hi] at h
      obtain ⟨done, column, rest, rfl, hdone, hc, he⟩ := ih h
      refine ⟨c :: done, column, rest, rfl, ?_, hc, he⟩
      unfold dropColumns
      rw [hi]
      exact hdone

/-- Columns are added up to the first that is there. -/
theorem addColumns_eq_error (h : t.addColumns columns = (.error e, t')) :
    ∃ done column rest, columns = done ++ column :: rest ∧ t.addColumns done = (.ok (), t') ∧
      column ∈ t'.columns ∧ e = Error.columnExists column := by
  induction columns generalizing t with
  | nil => cases h
  | cons c columns ih =>
    unfold addColumns at h
    cases hi : t.ordinal? c with
    | none =>
      rw [hi] at h
      obtain ⟨done, column, rest, rfl, hdone, hc, he⟩ := ih h
      refine ⟨c :: done, column, rest, rfl, ?_, hc, he⟩
      unfold addColumns
      rw [hi]
      exact hdone
    | some i =>
      rw [hi] at h
      cases h
      refine ⟨[], c, columns, rfl, rfl, ?_, rfl⟩
      by_contra hc
      have hnone : t'.ordinal? c = none := List.idxOf?_eq_none_iff.2 hc
      simp [hnone] at hi

theorem length_of_dropColumns (h : t.dropColumns columns = (.ok (), t')) :
    t'.columns.length + columns.length = t.columns.length := by
  induction columns generalizing t with
  | nil =>
    cases h
    rfl
  | cons c columns ih =>
    unfold dropColumns at h
    cases hi : t.ordinal? c with
    | none =>
      rw [hi] at h
      cases h
    | some i =>
      rw [hi] at h
      have hrest := ih h
      have hlt := ordinal?_lt hi
      simp only [List.length_eraseIdx_of_lt hlt] at hrest
      simp only [List.length_cons]
      omega

theorem ne_of_dropColumns (h : t.dropColumns columns = (.ok (), t')) (hne : columns ≠ []) :
    t' ≠ t := by
  rintro rfl
  have hlength := length_of_dropColumns h
  have hpos := List.length_pos_iff.2 hne
  omega

theorem ne_of_addColumns (h : t.addColumns columns = (.ok (), t')) (hne : columns ≠ []) :
    t' ≠ t := by
  rintro rfl
  have hlength := congrArg List.length (columns_of_addColumns h)
  have hpos := List.length_pos_iff.2 hne
  simp only [List.length_append] at hlength
  omega

end Table

namespace Database

variable {db db' : Database} {name : String} {t t' : Table} {command : Command}
  {statement : Statement} {e : Error}

theorem putTable_self {tables : List (String × Table)} (h : tables.lookup name = some t) :
    putTable name t tables = tables := by
  induction tables with
  | nil => cases h
  | cons entry tables ih =>
    obtain ⟨n, u⟩ := entry
    unfold putTable
    by_cases hn : n = name
    · subst hn
      simp only [List.lookup_cons_self, Option.some.injEq] at h
      rw [if_pos rfl, h]
    · rw [Table.lookup_ne (Ne.symm hn)] at h
      rw [if_neg hn, ih h]

theorem setTable_self (h : db.table? name = some t) : db.setTable name t = db := by
  unfold setTable
  rw [putTable_self h]

theorem setTable_ne (h : db.table? name = some t) (hne : t' ≠ t) : db.setTable name t' ≠ db := by
  intro hsame
  have hput : (db.setTable name t').table? name = some t' := by
    rw [table?_setTable, Function.update_self]
  rw [hsame, h] at hput
  exact hne (Option.some.inj hput).symm

theorem map_fst_putTable {tables : List (String × Table)} (h : tables.lookup name = some t) :
    (putTable name t' tables).map Prod.fst = tables.map Prod.fst := by
  induction tables with
  | nil => cases h
  | cons entry tables ih =>
    obtain ⟨n, u⟩ := entry
    unfold putTable
    by_cases hn : n = name
    · rw [if_pos hn, List.map_cons, List.map_cons, hn]
    · rw [Table.lookup_ne (Ne.symm hn)] at h
      rw [if_neg hn, List.map_cons, List.map_cons, ih h]

/-- A change of columns halts at one that is not there to be dropped, or that is there already.
What it leaves has the columns before that one, of which there are some, changed and all else as
it was. -/
inductive Halts (db : Database) : Statement → Error → Database → Prop
  | drop {name : String} {t t' : Table} {done rest : List String} {column : String}
    (ht : db.table name = .ok t) (hne : done ≠ []) (hdone : t.dropColumns done = (.ok (), t'))
    (hc : column ∉ t'.columns) :
    Halts db (.dropColumns name (done ++ column :: rest)) (Error.missingColumn column)
      (db.setTable name t')
  | add {name : String} {t t' : Table} {done rest : List String} {column : String}
    (ht : db.table name = .ok t) (hne : done ≠ []) (hdone : t.addColumns done = (.ok (), t'))
    (hc : column ∈ t'.columns) :
    Halts db (.addColumns name (done ++ column :: rest)) (Error.columnExists column)
      (db.setTable name t')

theorem Halts.ne (h : db.Halts statement e db') : db' ≠ db := by
  cases h with
  | drop ht hne hdone _ =>
    exact setTable_ne (table?_of_table ht) (Table.ne_of_dropColumns hdone hne)
  | add ht hne hdone _ =>
    exact setTable_ne (table?_of_table ht) (Table.ne_of_addColumns hdone hne)

theorem Halts.frame (h : db.Halts statement e db') :
    db'.executed = db.executed ∧ db'.tables.map Prod.fst = db.tables.map Prod.fst := by
  cases h with
  | drop ht _ _ _ | add ht _ _ _ => exact ⟨rfl, map_fst_putTable (table?_of_table ht)⟩

/-- A statement that fails changes nothing, or it halts within a change of columns. -/
theorem apply_eq_error (h : db.apply command statement = (.error e, db')) :
    db' = db ∨ db.Halts statement e db' := by
  cases statement with
  | create name columns =>
    rw [apply] at h
    split at h
    · exact .inl (Prod.mk.inj h).2.symm
    · split at h
      · exact .inl (Prod.mk.inj h).2.symm
      · cases h
  | dropColumns name columns =>
    rw [apply] at h
    split at h
    · exact .inl (Prod.mk.inj h).2.symm
    · next t ht =>
      rcases hd : t.dropColumns columns with ⟨result, t'⟩
      rw [hd] at h
      cases result with
      | ok _ => cases h
      | error cause =>
        cases h
        obtain ⟨done, column, rest, rfl, hdone, hc, rfl⟩ := Table.dropColumns_eq_error hd
        by_cases hne : done = []
        · subst hne
          cases hdone
          exact .inl (setTable_self (table?_of_table ht))
        · exact .inr (.drop ht hne hdone hc)
  | addColumns name columns =>
    rw [apply] at h
    split at h
    · exact .inl (Prod.mk.inj h).2.symm
    · next t ht =>
      rcases ha : t.addColumns columns with ⟨result, t'⟩
      rw [ha] at h
      cases result with
      | ok _ => cases h
      | error cause =>
        cases h
        obtain ⟨done, column, rest, rfl, hdone, hc, rfl⟩ := Table.addColumns_eq_error ha
        by_cases hne : done = []
        · subst hne
          cases hdone
          exact .inl (setTable_self (table?_of_table ht))
        · exact .inr (.add ht hne hdone hc)
  | delete name column parameter =>
    rw [apply] at h
    split at h
    · exact .inl (Prod.mk.inj h).2.symm
    · cases h
  | insert name columns parameters =>
    rw [apply] at h
    split at h
    · exact .inl (Prod.mk.inj h).2.symm
    · cases h

/-- A command fails by its statement alone, and is not logged. -/
theorem execute_eq_error (h : (execute command).on db = (.error e, db')) :
    ∃ statement, Statement.ofText? command.sql = some statement ∧
      db.apply command statement = (.error e, db') := by
  unfold execute at h
  rw [Action.on_of] at h
  cases hs : Statement.ofText? command.sql with
  | none =>
    rw [hs] at h
    cases h
  | some statement =>
    rw [hs] at h
    dsimp only at h
    rcases ha : db.apply command statement with ⟨result, left⟩
    rw [ha] at h
    cases result with
    | ok _ => cases h
    | error cause =>
      cases h
      exact ⟨statement, rfl, ha⟩

/-- A command that fails leaves the log and the set of tables as they were. It changes the tables
exactly if it is a change of columns that halts behind its first one; all other failures leave the
database as it was. -/
theorem execute_error_changes_iff (h : (execute command).on db = (.error e, db')) :
    db'.executed = db.executed ∧ db'.tables.map Prod.fst = db.tables.map Prod.fst ∧
      (db' ≠ db ↔ ∃ statement, Statement.ofText? command.sql = some statement ∧
        db.Halts statement e db') := by
  obtain ⟨statement, hs, happly⟩ := execute_eq_error h
  have hcases := apply_eq_error happly
  have hiff : db' ≠ db ↔ ∃ statement, Statement.ofText? command.sql = some statement ∧
      db.Halts statement e db' := by
    constructor
    · intro hne
      exact ⟨statement, hs, hcases.resolve_left hne⟩
    · rintro ⟨other, _, hhalts⟩
      exact hhalts.ne
  rcases hcases with rfl | hhalts
  · exact ⟨rfl, rfl, hiff⟩
  · exact ⟨hhalts.frame.1, hhalts.frame.2, hiff⟩

/-- A total is added before the note is found to be there already. -/
theorem execute_error_changes_of_orders :
    let command : Command := ⟨"alter table [OrderIndexes] add [Total] bigint, [Note] bigint", []⟩
    let db : Database := ⟨[("OrderIndexes", ⟨["StructureId", "Note"], [[.integer 1, .null]]⟩)],
      [], [], []⟩
    let left : Database := ⟨[("OrderIndexes",
      ⟨["StructureId", "Note", "Total"], [[.integer 1, .null, .null]]⟩)], [], [], []⟩
    (execute command).on db = (.error (Error.columnExists "Note"), left) ∧
      left.executed = db.executed ∧ ∃ statement,
        Statement.ofText? command.sql = some statement ∧
          db.Halts statement (Error.columnExists "Note") left := by
  intro command db left
  have h : (execute command).on db = (.error (Error.columnExists "Note"), left) := by
    decide +kernel
  obtain ⟨hlog, -, hiff⟩ := execute_error_changes_iff h
  exact ⟨h, hlog, hiff.1 (by decide +kernel)⟩

/-- A statement that drops two columns fails at the second one, without which the first is gone. -/
theorem execute_drops_before_failing :
    let command : Command := ⟨"alter table [Orders] drop column [Total], [Tax]", []⟩
    let db : Database := ⟨[("Orders", ⟨["Id", "Total"], [[.integer 1, .integer 7]]⟩)], [], [], []⟩
    let left : Database := ⟨[("Orders", ⟨["Id"], [[.integer 1]]⟩)], [], [], []⟩
    (execute command).on db = (.error (Error.missingColumn "Tax"), left) ∧ left ≠ db := by
  decide +kernel

end Database

end DocStore
