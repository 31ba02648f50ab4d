import DocStore.Proofs.Sync.History
import DocStore.Proofs.Sync.Retry
import DocStore.Proofs.Writer.Interrupted

/-!
# Evolution of a structure type

The table of member columns after a whole history: it has the columns of the last version, and each
row has the values with which its structure was inserted, under the columns that belonged to every
version since.
-/

namespace DocStore

open Table (under)

def Step.versions : List Step → List Schema
  | [] => []
  | .switch schema :: steps => schema :: versions steps
  | .insert _ _ _ :: steps => versions steps

def Step.last (current : Schema) : List Step → Schema
  | [] => current
  | .switch schema :: steps => last schema steps
  | .insert _ _ _ :: steps => last current steps

/-- A structure that was inserted, the version under which it was, and those that followed. -/
structure Insertion where
  inserted : Structure
  maxLength : Nat
  version : Schema
  later : List Schema

/-- The insertions of a history that have a row of member columns, in their order. -/
def Step.insertions (current : Schema) : List Step → List Insertion
  | [] => []
  | .switch schema :: steps => insertions schema steps
  | .insert _ maxLength structures :: steps =>
    (if current.accessors.isEmpty then []
      else structures.map fun i => ⟨i, maxLength, current, versions steps⟩) ++
      insertions current steps

namespace Synchronizer

variable {s : Synchronizer} {name : String} {p : Progress} {db : Database} {t : Table}

/-- What a history leaves of the values of an insertion. -/
def left (s : Synchronizer) (i : Insertion) : String → Value :=
  s.survives i.later (s.written i.maxLength i.version i.inserted)

theorem carries_switched {rows : List (List Value)} {values : List (String → Value)}
    {schema : Schema} {columns : List String}
    (hl : ∀ row ∈ rows, row.length = columns.length)
    (h : List.Forall₂ (Carries columns) rows values) :
    List.Forall₂ (Carries (changedColumns (s.names schema) columns))
      (rows.map (changedRow (s.names schema) columns)) (values.map (s.survives [schema])) := by
  induction h with
  | nil => exact .nil
  | cons hrow _ ih =>
    rw [List.forall_mem_cons] at hl
    exact .cons (carries_changed hl.1 hrow) (ih hl.2)

theorem carries_memberRows (hs : s.Sound name p db t) (maxLength : Nat)
    (structures : List Structure) (later : List Schema) :
    List.Forall₂ (Carries t.columns) (s.memberRows maxLength p.current structures t)
      ((if p.current.accessors.isEmpty then []
        else structures.map fun i => (⟨i, maxLength, p.current, later⟩ : Insertion)).map fun i =>
          s.written i.maxLength i.version i.inserted) := by
  rw [memberRows]
  split
  · exact .nil
  · rw [List.map_map, List.forall₂_map_left_iff, List.forall₂_map_right_iff, List.forall₂_same]
    exact fun i _ => hs.carries_filled maxLength i

/-- A run succeeds. Of the rows that were there it leaves what survives its versions, and behind
them stand those of its own insertions. -/
theorem run_carries {steps : List Step} {values : List (String → Value)}
    (hs : s.Sound name p db t) (hv : ∀ v ∈ Step.versions steps, s.Version name v)
    (hrows : List.Forall₂ (Carries t.columns) t.rows values) :
    ∃ p' db' t', (s.run p steps).on db = (.ok p', db') ∧ s.Sound name p' db' t' ∧
      p'.current = Step.last p.current steps ∧
      List.Forall₂ (Carries t'.columns) t'.rows (values.map (s.survives (Step.versions steps)) ++
        (Step.insertions p.current steps).map s.left) := by
  -- By induction on the steps. `Sound` says that the next step can be taken; `values` is what the
  -- rows must hold, in the order in which they were written.
  induction steps generalizing p db t values with
  | nil =>
    have hsame : values.map (s.survives []) = values :=
      (List.map_congr_left fun value _ => survives_nil value).trans (List.map_id values)
    refine ⟨p, db, t, rfl, hs, rfl, ?_⟩
    rw [Step.versions, Step.insertions, hsame, List.map_nil, List.append_nil]
    exact hrows
  | cons step steps ih =>
    cases step with
    | switch schema =>
      rw [Step.versions, List.forall_mem_cons] at hv
      obtain ⟨p₁, db₁, hon₁, rfl, hs₁⟩ := hs.switch hv.1
      obtain ⟨p', db', t', hon, hs', hlast, hrows'⟩ :=
        ih hs₁ hv.2 (carries_switched hs.length hrows)
      refine ⟨p', db', t', ?_, hs', hlast, ?_⟩
      · rw [run, Action.on_bind, hon₁]
        exact hon
      · have hvalues : (values.map (s.survives [p₁.current])).map
            (s.survives (Step.versions steps)) =
              values.map (s.survives (p₁.current :: Step.versions steps)) := by
          rw [List.map_map]
          exact List.map_congr_left fun value _ => survives_cons (Step.versions steps) value
        rw [hvalues] at hrows'
        exact hrows'
    | insert batchSize maxLength structures =>
      obtain ⟨p₁, db₁, hon₁, hcurrent, hs₁⟩ := hs.insert batchSize maxLength structures
      have hnew := carries_memberRows hs maxLength structures (Step.versions steps)
      obtain ⟨p', db', t', hon, hs', hlast, hrows'⟩ :=
        ih hs₁ hv (List.rel_append hrows hnew)
      rw [hcurrent] at hlast hrows'
      refine ⟨p', db', t', ?_, hs', hlast, ?_⟩
      · rw [run, Action.on_bind, hon₁]
        exact hon
      · have hleft : ((if p.current.accessors.isEmpty then []
            else structures.map fun i =>
              (⟨i, maxLength, p.current, Step.versions steps⟩ : Insertion)).map fun i =>
                s.written i.maxLength i.version i.inserted).map
                  (s.survives (Step.versions steps)) =
            (if p.current.accessors.isEmpty then []
              else structures.map fun i => ⟨i, maxLength, p.current, Step.versions steps⟩).map
                s.left := by
          split
          · rfl
          · rw [List.map_map, List.map_map, List.map_map]
            rfl
        rw [List.map_append, hleft] at hrows'
        rw [Step.insertions, List.map_append, ← List.append_assoc]
        exact hrows'

variable {first : Schema} {steps : List Step}

theorem sound_of_upsert (hv : s.Version name first) :
    ∃ outcome memo db, (s.upsert [] first).on .empty = (.ok (outcome, memo), db) ∧
      s.Sound name ⟨memo, .empty, first⟩ db ⟨Column.structureId :: s.names first, []⟩ := by
  obtain ⟨_, tables, ⟨db, hon, hfail, rfl⟩, hall⟩ : ∃ created tables, (s.upsert [] first).Yields
      Database.empty (⟨created, {}⟩, _) tables ∧ _ :=
    upsert_yields hv.accepted (definable_memberColumns hv.definable) List.not_mem_nil
      (fun _ _ => List.not_mem_nil) rfl
  have hholds : ∀ l ∈ (Layout.ofSchema s.naming first).tables, db.Holds l := by
    intro l hl
    refine ⟨?_, ⟨l.columns, []⟩, hall l hl, fun _ hc => hc⟩
    rw [hfail]
    exact List.not_mem_nil
  have htable : db.table? (TableName.memberColumns first.name) =
      some ⟨Column.structureId :: s.names first, []⟩ :=
    hall _ (Layout.ofSchema s.naming first).memberColumns_mem_tables
  refine ⟨_, _, db, hon, ?_⟩
  exact {
    failing := hfail
    version := hv
    holds := Database.holdsType_of_tables hholds
    table := hv.name ▸ htable
    nodup := List.nodup_cons.2 ⟨hv.ne_id, hv.nodup⟩
    mem_columns := fun c => by
      rw [List.mem_cons, or_comm]
    length := nofun
    cache := LayoutCache.faithful_empty s.naming }

def memberDefinitions (s : Synchronizer) (schema : Schema) : List Sql :=
  Definition.column Column.structureId (Definition.idType schema ++ " not null primary key") ::
    (Definition.memberColumns s.naming schema).map (Definition.sparse s.dialect)

/-- The columns that the text of the table of member columns defines. -/
def definedColumns (s : Synchronizer) (schema : Schema) : List String :=
  Statement.definedColumns (Sql.join ", " (s.memberDefinitions schema)).chars

/-- A first insertion succeeds only if all names of the version were defined as they are. -/
theorem defined_of_history {batchSize maxLength : Nat} {structures : List Structure}
    (h : first.Accepted) (hi : ∀ c ∈ s.names first, Insertable c) (hne : structures ≠ [])
    (hacc : first.accessors ≠ [])
    (hok : (s.history first [.insert batchSize maxLength structures]).on .empty = (.ok p, db)) :
    ∀ c ∈ s.names first, c ∈ s.definedColumns first := by
  obtain ⟨⟨outcome, memo⟩, db₁, hupsert, hrun⟩ := Action.on_bind_eq_ok.1 hok
  obtain ⟨p₁, _, hstep, -⟩ := Action.on_bind_eq_ok.1 hrun
  obtain ⟨stats, _, hinsert, -⟩ := Action.on_bind_eq_ok.1 hstep
  have hnodup : (((s.wanted first).map createdLayout).map TableLayout.table).Nodup :=
    TableName.nodup_all first.name
  obtain ⟨created, -, htables, hon⟩ := upsert_on
    (creates_createdLayout h) hnodup (List.not_mem_nil : first.name ∉ ([] : SyncMemo))
    (rfl : Database.empty.failing = [])
  obtain rfl : created = db₁ := (Prod.mk.inj (hon.symm.trans hupsert)).2
  have hcolumns : ∀ c ∈ Column.structureId :: s.names first, Insertable c :=
    List.forall_mem_cons.2 ⟨Column.plain_structureId.insertable, hi⟩
  obtain ⟨t, ht, hc⟩ := Writer.columns_of_insert rfl (fun _ => hcolumns) h hne hacc hinsert
  have hdefined : (⟨TableName.memberColumns first.name, s.definedColumns first⟩ : TableLayout) ∈
      (s.wanted first).map createdLayout := by
    refine List.mem_map.2 ⟨(TableName.memberColumns first.name, Definition.createTable
      (TableName.memberColumns first.name) (s.memberDefinitions first)),
      List.mem_append_right _ (List.mem_singleton_self _), ?_⟩
    rw [createdLayout, Statement.ofText?_createTable_defined
      (TableName.quotable_memberColumns h.isIdentifier_name)]
    rfl
  rw [htables, supplied_of_mem hnodup hdefined] at ht
  obtain rfl := Option.some.inj ht
  exact fun c hin => hc c (List.mem_cons_of_mem _ hin)

/-- Switching between versions never mixes up the data of members: whatever the order of switches
and insertions, every step succeeds, the table of member columns has the columns of the last
version, and it has one row for each structure that was inserted under a version with members. The
row's value under a column is the one that was written for it if the column belonged to every
version since, and null otherwise. -/
theorem history_keeps_member_data (hfirst : s.Version name first)
    (hv : ∀ v ∈ Step.versions steps, s.Version name v) :
    ∃ p db t, (s.history first steps).on .empty = (.ok p, db) ∧
      db.table? (TableName.memberColumns name) = some t ∧
      (∀ c, c ∈ t.columns ↔ c ∈ s.names (Step.last first steps) ∨ c = Column.structureId) ∧
      List.Forall₂ (fun row (i : Insertion) =>
        under t.columns row Column.structureId = i.inserted.id.toValue ∧
        ∀ c ∈ t.columns, c ≠ Column.structureId → under t.columns row c =
          if ∀ v ∈ i.version :: i.later, c ∈ s.names v then
            s.written i.maxLength i.version i.inserted c
          else .null) t.rows (Step.insertions first steps) := by
  obtain ⟨outcome, memo, db, hon, hs⟩ := sound_of_upsert hfirst
  obtain ⟨p', db', t', hrun, hs', hlast, hrows⟩ := run_carries hs hv .nil
  refine ⟨p', db', t', ?_, hs'.table, ?_, ?_⟩
  · rw [history, Action.on_bind, hon]
    exact hrun
  · rw [← hlast]
    exact hs'.mem_columns
  · rw [List.map_nil, List.nil_append, List.forall₂_map_right_iff] at hrows
    refine hrows.imp fun row i hrow => ⟨?_, ?_⟩
    · rw [hrow, left, survives, if_pos (.inl rfl), written, if_pos rfl]
    · intro c _ hid
      rw [hrow, left, survives]
      by_cases hc : c ∈ s.names i.version
      · simp [hid, hc]
      · rw [written_of_notMem hid hc, ite_self, ite_self]

/-- A comma ends the definition of its column and an open parenthesis hides those behind it, so that
the table lacks a column and the first insertion fails. -/
theorem history_stops_at_undefined_columns :
    let schema : Schema := ⟨"Order", ⟨"Id", .identity⟩,
      [⟨"City", .string, none, false, false⟩, ⟨"Total", .integer, none, false, false⟩]⟩
    let order : Structure := ⟨.identity 1, "Order", "",
      [⟨.identity 1, "City", .string "a", .string, none⟩,
        ⟨.identity 1, "Total", .integer 7, .integer, none⟩]⟩
    let s : String → Synchronizer := fun column =>
      ⟨.offsetFetch, fun path => if path = "City" then column else path⟩
    schema.Accepted ∧ ∀ column ∈ ["Address,City", "A("],
      ((s column).names schema).Nodup ∧ Column.structureId ∉ (s column).names schema ∧
        ∀ p db, ((s column).history schema [.insert 10 300 [order]]).on .empty ≠ (.ok p, db) := by
  intro schema order s
  have haccepted : schema.Accepted := by decide +kernel
  have hnames : ∀ column ∈ ["Address,City", "A("], ((s column).names schema).Nodup ∧
      Column.structureId ∉ (s column).names schema := by decide +kernel
  have hinsertable : ∀ column ∈ ["Address,City", "A("], ∀ c ∈ (s column).names schema,
      Insertable c := by decide +kernel
  have hundefined : ∀ column ∈ ["Address,City", "A("],
      ¬ ∀ c ∈ (s column).names schema, c ∈ (s column).definedColumns schema := by decide +kernel
  refine ⟨haccepted, fun column hcolumn => ⟨(hnames column hcolumn).1,
    (hnames column hcolumn).2, fun p db hok => ?_⟩⟩
  exact hundefined column hcolumn (defined_of_history haccepted (hinsertable column hcolumn)
    (List.cons_ne_nil _ _) (List.cons_ne_nil _ _) hok)

/-- `Total` is dropped and comes back while `Name` stays: the first order keeps its name and loses
its total, and the second, inserted between, has a name only. -/
theorem history_keeps_member_data_of_orders :
    let name : Accessor := ⟨"Name", .string, none, false, false⟩
    let total : Accessor := ⟨"Total", .integer, none, false, false⟩
    let wide : Schema := ⟨"Order", ⟨"Id", .identity⟩, [total, name]⟩
    let narrow : Schema := ⟨"Order", ⟨"Id", .identity⟩, [name]⟩
    let entry : Int64 → String → Value → Family → IndexEntry := fun id path value family =>
      ⟨.identity id, path, value, family, none⟩
    let first : Structure := ⟨.identity 1, "Order", "",
      [entry 1 "Total" (.integer 7) .integer, entry 1 "Name" (.string "a") .string]⟩
    let second : Structure := ⟨.identity 2, "Order", "", [entry 2 "Name" (.string "b") .string]⟩
    let s : Synchronizer := ⟨.offsetFetch, ColumnName.ofPath 128⟩
    ∃ p db t row row', (s.history wide [.insert 10 300 [first], .switch narrow,
        .insert 10 300 [second], .switch wide]).on .empty = (.ok p, db) ∧
      db.table? "OrderIndexes" = some t ∧ t.rows = [row, row'] ∧
      under t.columns row "Name" = .string "a" ∧ under t.columns row "Total" = .null ∧
      under t.columns row' "Name" = .string "b" ∧ under t.columns row' "Total" = .null := by
  intro name total wide narrow entry first second s
  have hplain : s.naming.IsPlain := ColumnName.isPlain_ofPath 128
  have hwide : s.Version "Order" wide :=
    .of_isPlain hplain (by decide +kernel) rfl (by decide +kernel) (by decide +kernel)
  have hnarrow : s.Version "Order" narrow :=
    .of_isPlain hplain (by decide +kernel) rfl (by decide +kernel) (by decide +kernel)
  let steps : List Step := [.insert 10 300 [first], .switch narrow, .insert 10 300 [second],
    .switch wide]
  have hversions : ∀ v ∈ Step.versions steps, s.Version "Order" v := by
    intro v hv
    rcases List.mem_pair.1 hv with rfl | rfl
    · exact hnarrow
    · exact hwide
  obtain ⟨p, db, t, hon, ht, hcolumns, hrows⟩ :=
    history_keeps_member_data hwide hversions
  have hname : "Name" ∈ s.names wide ∧ "Name" ∈ s.names narrow := by decide +kernel
  have htotal : "Total" ∈ s.names wide ∧ "Total" ∉ s.names narrow := by decide +kernel
  have hinsertions : Step.insertions wide steps =
      [⟨first, 300, wide, [narrow, wide]⟩, ⟨second, 300, narrow, [wide]⟩] := rfl
  rw [hinsertions] at hrows
  obtain ⟨row, rows, hrow, hrest, hsome⟩ := List.forall₂_cons_right_iff.1 hrows
  obtain ⟨row', rows', hrow', hrest', rfl⟩ := List.forall₂_cons_right_iff.1 hrest
  obtain rfl := List.forall₂_nil_right_iff.1 hrest'
  have hcell := hrow.2 "Name" ((hcolumns _).2 (.inl hname.1)) (by decide)
  have hcell' := hrow'.2 "Name" ((hcolumns _).2 (.inl hname.1)) (by decide)
  have hgone := hrow.2 "Total" ((hcolumns _).2 (.inl htotal.1)) (by decide)
  have hgone' := hrow'.2 "Total" ((hcolumns _).2 (.inl htotal.1)) (by decide)
  simp only [List.forall_mem_cons, hname.1, hname.2, htotal.1, htotal.2, List.not_mem_nil]
    at hcell hcell' hgone hgone'
  refine ⟨p, db, t, row, row', hon, ht, hsome, ?_, ?_, ?_, ?_⟩
  · exact hcell.trans (by decide +kernel)
  · exact hgone.trans (by decide +kernel)
  · exact hcell'.trans (by decide +kernel)
  · exact hgone'.trans (by decide +kernel)

end Synchronizer

end DocStore
