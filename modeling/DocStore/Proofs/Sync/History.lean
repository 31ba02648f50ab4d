import DocStore.Proofs.Schema.LayoutCache
import DocStore.Proofs.Sync.Changes
import DocStore.Proofs.Sync.Creation

/-!
# Histories of a structure type

A history creates the tables of a type for a first version of its schema, then switches to other
versions and inserts structures of the current one, in any order. Every step succeeds, and what it
does to the table of member columns is what `survives` and `written` say of the values in it.
-/

namespace DocStore

open Table (under)

inductive Step where
  | switch (schema : Schema)
  | insert (batchSize maxLength : Nat) (structures : List Structure)

structure Progress where
  memo : SyncMemo
  cache : LayoutCache
  current : Schema

namespace Synchronizer

variable (s : Synchronizer)

def step (p : Progress) : Step → Action Progress
  | .switch schema => do
    let synced ← s.synchronize (p.memo.forget schema.name) schema
    pure ⟨synced.2, p.cache, schema⟩
  | .insert batchSize maxLength structures =>
    let inserted := (Writer.mk s.naming batchSize maxLength).insert p.cache p.current structures
    do
      let _ ← inserted.1
      pure ⟨p.memo, inserted.2, p.current⟩

def run (p : Progress) : List Step → Action Progress
  | [] => pure p
  | step :: steps => do
    let p ← s.step p step
    run p steps

/-- A history from its first version on, with nothing remembered and nothing kept. -/
def history (first : Schema) (steps : List Step) : Action Progress := do
  let upserted ← s.upsert [] first
  s.run ⟨upserted.2, .empty, first⟩ steps

/-- A version of the structure type of that name, with member columns that can be told apart and
whose names stand in statements as they are. -/
structure Version (name : String) (schema : Schema) : Prop where
  accepted : schema.Accepted
  name : schema.name = name
  nodup : (s.names schema).Nodup
  ne_id : Column.structureId ∉ s.names schema
  definable : ∀ c ∈ s.names schema, Definable c
  insertable : ∀ c ∈ s.names schema, Insertable c

/-- The value that a structure has for a column when it is inserted. -/
def written (maxLength : Nat) (schema : Schema) (i : Structure) (c : String) : Value :=
  if c = Column.structureId then i.id.toValue
  else
    match schema.accessors.find? fun a => s.naming a.path = c with
    | some a => Rows.memberValue maxLength i ⟨a.path, a.bounded⟩
    | none => .null

/-- What is left of values when the versions follow each other. -/
def survives (versions : List Schema) (value : String → Value) (c : String) : Value :=
  if c = Column.structureId ∨ ∀ v ∈ versions, c ∈ s.names v then value c else .null

/-- Read by column, the row has the values. -/
def Carries (columns : List String) (row : List Value) (value : String → Value) : Prop :=
  ∀ c, under columns row c = value c

variable {s} {name : String} {p : Progress} {db : Database} {t : Table} {schema : Schema}

theorem survives_nil (value : String → Value) : s.survives [] value = value := by
  funext c
  exact if_pos (.inr nofun)

theorem survives_cons (versions : List Schema) (value : String → Value) :
    s.survives versions (s.survives [schema] value) = s.survives (schema :: versions) value := by
  funext c
  simp only [survives, List.forall_mem_singleton, List.forall_mem_cons]
  by_cases hid : c = Column.structureId
  · simp [hid]
  · by_cases hc : c ∈ s.names schema <;> simp [hid, hc]

/-- A column has its member's value where it belongs to the version, and none elsewhere. -/
theorem written_of_notMem {maxLength : Nat} {i : Structure} {c : String}
    (hid : c ≠ Column.structureId) (hc : c ∉ s.names schema) :
    s.written maxLength schema i c = .null := by
  have hnone : schema.accessors.find? (fun a => s.naming a.path = c) = none := by
    rw [List.find?_eq_none]
    intro a ha hpath
    exact hc (List.mem_map.2 ⟨a, ha, by simpa using hpath⟩)
  rw [written, if_neg hid, hnone]

/-- The tables of the type are there, the table of member columns has the columns of the current
version, and the cache keeps layouts under their own names. -/
structure Sound (s : Synchronizer) (name : String) (p : Progress) (db : Database) (t : Table) :
    Prop where
  failing : db.failing = []
  version : s.Version name p.current
  holds : db.HoldsType (Layout.ofSchema s.naming p.current)
  table : db.table? (TableName.memberColumns name) = some t
  nodup : t.columns.Nodup
  mem_columns : ∀ c, c ∈ t.columns ↔ c ∈ s.names p.current ∨ c = Column.structureId
  length : ∀ row ∈ t.rows, row.length = t.columns.length
  cache : p.cache.Faithful s.naming

theorem Version.of_isPlain (hn : s.naming.IsPlain) (h : schema.Accepted)
    (hname : schema.name = name) (hnodup : (s.names schema).Nodup)
    (hid : Column.structureId ∉ s.names schema) : s.Version name schema where
  accepted := h
  name := hname
  nodup := hnodup
  ne_id := hid
  definable := fun c hc => (plain_names hn h c hc).definable
  insertable := fun c hc => (plain_names hn h c hc).insertable

theorem Sound.quotable (hs : s.Sound name p db t) :
    ∀ c ∈ t.columns, Quotable c := by
  intro c hc
  rcases (hs.mem_columns c).1 hc with hc | rfl
  · exact (hs.version.definable c hc).quotable
  · exact Column.plain_structureId.quotable

/-- Other versions differ in the table of member columns only. -/
theorem holdsType_of_update {db' : Database} {u : Table} {rows : List (List Value)}
    (hs : s.Sound name p db t) (hv : s.Version name schema) (hfail : db'.failing = db.failing)
    (hu : db.table? (TableName.uniques name) = some u)
    (htables : db'.table? = Function.update (Function.update db.table?
      (TableName.memberColumns name) (some (changed (s.names schema) t)))
        (TableName.uniques name) (some ⟨u.columns, rows⟩)) :
    db'.HoldsType (Layout.ofSchema s.naming schema) := by
  have hcurrent := hs.version.name
  obtain rfl := hv.name
  have hbody : (Layout.ofSchema s.naming p.current).body =
      (Layout.ofSchema s.naming schema).body := by
    rw [Layout.ofSchema, Layout.ofSchema, hcurrent]
  have hindex : ∀ x, (Layout.ofSchema s.naming p.current).index x =
      (Layout.ofSchema s.naming schema).index x := by
    intro x
    rw [Layout.ofSchema, Layout.ofSchema, hcurrent]
  have huniques : (Layout.ofSchema s.naming p.current).uniques =
      (Layout.ofSchema s.naming schema).uniques := by
    rw [Layout.ofSchema, Layout.ofSchema, hcurrent]
  have hnone : ∀ n, n ∉ db'.failing := fun n => hfail ▸ hs.failing ▸ List.not_mem_nil
  have hid : Column.structureId ∈ t.columns := (hs.mem_columns _).2 (.inr rfl)
  constructor
  · refine (hbody ▸ hs.holds.body).of_eq hfail ?_
    change db'.table? (TableName.body schema.name) = _
    rw [htables, Function.update_of_ne TableName.body_ne_uniques,
      Function.update_of_ne TableName.body_ne_memberColumns]
    rfl
  · intro x
    refine (hindex x ▸ hs.holds.index x).of_eq hfail ?_
    change db'.table? (TableName.index schema.name x) = _
    rw [htables, Function.update_of_ne (TableName.uniques_ne_index x).symm,
      Function.update_of_ne (TableName.memberColumns_ne_index x).symm]
    rfl
  · obtain ⟨_, u', hu', hcols⟩ := huniques ▸ hs.holds.uniques
    obtain rfl := Option.some.inj (hu.symm.trans hu')
    refine ⟨hnone _, ⟨u.columns, rows⟩, ?_, hcols⟩
    change db'.table? (TableName.uniques schema.name) = _
    rw [htables, Function.update_self]
  · refine ⟨hnone _, changed (s.names schema) t, ?_, ?_⟩
    · change db'.table? (TableName.memberColumns schema.name) = _
      rw [htables, Function.update_of_ne TableName.uniques_ne_memberColumns.symm,
        Function.update_self]
    · intro c hc
      refine (mem_changedColumns hv.ne_id hid).2 ?_
      rcases List.mem_cons.1 hc with rfl | hc
      · exact .inr rfl
      · exact .inl hc

/-- A switch changes the columns of the table to those of the version. -/
theorem Sound.switch (hs : s.Sound name p db t) (hv : s.Version name schema) :
    ∃ p' db', (s.step p (.switch schema)).on db = (.ok p', db') ∧ p'.current = schema ∧
      s.Sound name p' db' (changed (s.names schema) t) := by
  have hforgotten : schema.name ∉ p.memo.forget schema.name := by
    simp [SyncMemo.forget]
  have hid : Column.structureId ∈ t.columns := (hs.mem_columns _).2 (.inr rfl)
  obtain ⟨_, u, hu, hucols⟩ := hs.holds.uniques
  replace hu : db.table? (TableName.uniques p.current.name) = some u := hu
  rw [hs.version.name] at hu
  have hpath : ∀ other, db.table? (TableName.uniques schema.name) = some other →
      Column.uniqueMemberPath ∈ other.columns := by
    intro other ho
    rw [hv.name, hu] at ho
    obtain rfl := Option.some.inj ho
    exact hucols _ (by simp [Layout.ofSchema])
  obtain ⟨db', hon, hfail, htables⟩ := synchronize_yields hv.accepted
    hv.definable hforgotten hs.failing (hv.name ▸ hs.table) hpath hs.quotable hs.length hv.nodup
    hv.ne_id
  rw [hv.name, hu, Option.map_some, pruned] at htables
  refine ⟨⟨(p.memo.forget schema.name).mark schema.name, p.cache, schema⟩, db', ?_, rfl, ?_⟩
  · rw [step, Action.on_bind, hon]
    rfl
  · exact {
      failing := hfail.trans hs.failing
      version := hv
      holds := holdsType_of_update hs hv hfail hu htables
      table := by
        rw [htables, Function.update_of_ne TableName.uniques_ne_memberColumns.symm,
          Function.update_self]
      nodup := nodup_changedColumns hv.ne_id hv.nodup hs.nodup
      mem_columns := fun c => mem_changedColumns hv.ne_id hid
      length := by
        intro row hrow
        obtain ⟨old, hold, rfl⟩ := List.mem_map.1 hrow
        exact length_changedRow (hs.length old hold)
      cache := hs.cache }

theorem survives_singleton (value : String → Value) (c : String) :
    s.survives [schema] value c = if drops (s.names schema) c then .null else value c := by
  rw [survives]
  by_cases hd : drops (s.names schema) c = true
  · rw [if_pos hd, if_neg]
    rw [List.forall_mem_singleton]
    intro h
    rw [drops_eq_false.2 h.symm] at hd
    cases hd
  · rw [if_neg hd, if_pos]
    rw [List.forall_mem_singleton]
    exact (drops_eq_false.1 (Bool.eq_false_iff.2 hd)).symm

/-- Dropped columns are gone from a row, and added ones are without a value. -/
theorem carries_changed {columns : List String} {row : List Value} {value : String → Value}
    (hl : row.length = columns.length) (h : Carries columns row value) :
    Carries (changedColumns (s.names schema) columns) (changedRow (s.names schema) columns row)
      (s.survives [schema] value) := by
  intro c
  rw [survives_singleton, ← h c]
  exact under_changedRow hl

def memberRows (s : Synchronizer) (maxLength : Nat) (schema : Schema) (structures : List Structure)
    (t : Table) : List (List Value) :=
  if schema.accessors.isEmpty then []
  else structures.map fun i => t.filled
    ((Column.structureId :: s.names schema).zip (Writer.memberCells maxLength schema i))

theorem lookup_zip_map {α : Type} (key : α → String) (value : α → Value) (items : List α)
    (c : String) : ((items.map key).zip (items.map value)).lookup c =
      (items.find? fun a => key a = c).map value := by
  induction items with
  | nil => rfl
  | cons a items ih =>
    rw [List.map_cons, List.map_cons, List.zip_cons_cons, List.find?_cons]
    by_cases h : key a = c
    · simp [h]
    · rw [Table.lookup_ne (Ne.symm h), ih]
      simp [h]

theorem zip_memberCells (maxLength : Nat) (i : Structure) :
    ((Column.structureId :: s.names schema).zip (Writer.memberCells maxLength schema i)).map
      Prod.fst = Column.structureId :: s.names schema := by
  refine List.map_fst_zip ?_
  simp [names, Writer.memberCells]

/-- Inserted structures have their values in the columns of the table. -/
theorem Sound.carries_filled (hs : s.Sound name p db t) (maxLength : Nat) (i : Structure) :
    Carries t.columns (t.filled ((Column.structureId :: s.names p.current).zip
      (Writer.memberCells maxLength p.current i))) (s.written maxLength p.current i) := by
  intro c
  have hin : ∀ pair ∈ (Column.structureId :: s.names p.current).zip
      (Writer.memberCells maxLength p.current i), pair.1 ∈ t.columns := by
    intro pair hpair
    rw [hs.mem_columns]
    rcases List.mem_cons.1 (List.of_mem_zip hpair).1 with h | h
    · exact .inr h
    · exact .inl h
  have hnodup : (((Column.structureId :: s.names p.current).zip
      (Writer.memberCells maxLength p.current i)).map Prod.fst).Nodup := by
    rw [zip_memberCells, List.nodup_cons]
    exact ⟨hs.version.ne_id, hs.version.nodup⟩
  rw [Table.under_filled hin hnodup, Writer.memberCells, List.zip_cons_cons, written]
  by_cases hid : c = Column.structureId
  · subst hid
    simp
  · rw [Table.lookup_ne hid, if_neg hid, names, lookup_zip_map]
    cases p.current.accessors.find? fun a => s.naming a.path = c <;> rfl

theorem Sound.length_filled (hs : s.Sound name p db t) (maxLength : Nat) (i : Structure) :
    (t.filled ((Column.structureId :: s.names p.current).zip
      (Writer.memberCells maxLength p.current i))).length = t.columns.length := by
  refine Table.length_filled fun pair hpair => ?_
  rw [hs.mem_columns]
  rcases List.mem_cons.1 (List.of_mem_zip hpair).1 with h | h
  · exact .inr h
  · exact .inl h

theorem withRows_groups {w : Writer} (hw : w.naming = s.naming) {structures : List Structure}
    (hs : s.Sound name p db t) :
    Writer.withRows (w.groups (Layout.ofSchema w.naming p.current) p.current structures)
      (TableName.memberColumns name) t =
        ⟨t.columns, t.rows ++ s.memberRows w.maxLength p.current structures t⟩ := by
  obtain rfl := hs.version.name
  rw [Writer.withRows, Writer.filter_memberColumns, memberRows]
  cases hempty : p.current.accessors.isEmpty with
  | true => rfl
  | false =>
    rw [if_neg Bool.false_ne_true, if_neg Bool.false_ne_true, List.flatMap_singleton,
      RowSource.rowsIn, Writer.cells_memberColumns, List.map_map, hw]
    rfl

theorem length_of_mem_memberRows {maxLength : Nat} {structures : List Structure}
    (hs : s.Sound name p db t) {row : List Value}
    (hrow : row ∈ s.memberRows maxLength p.current structures t) :
    row.length = t.columns.length := by
  rw [memberRows] at hrow
  split at hrow
  · cases hrow
  · obtain ⟨i, _, rfl⟩ := List.mem_map.1 hrow
    exact hs.length_filled maxLength i

/-- An insertion adds rows to the table of member columns and changes no column. -/
theorem Sound.insert (hs : s.Sound name p db t) (batchSize maxLength : Nat)
    (structures : List Structure) :
    ∃ p' db', (s.step p (.insert batchSize maxLength structures)).on db = (.ok p', db') ∧
      p'.current = p.current ∧ s.Sound name p' db'
        ⟨t.columns, t.rows ++ s.memberRows maxLength p.current structures t⟩ := by
  by_cases hne : structures = []
  · subst hne
    have hsame : s.memberRows maxLength p.current [] t = [] := by
      rw [memberRows, List.map_nil, ite_self]
    rw [hsame, List.append_nil]
    exact ⟨p, db, rfl, rfl, hs⟩
  · let w : Writer := ⟨s.naming, batchSize, maxLength⟩
    obtain ⟨hlayout, hfaithful⟩ := hs.cache.getOrCreate p.current
    have hcolumns : ∀ c ∈ Column.structureId :: s.names p.current, Insertable c :=
      List.forall_mem_cons.2 ⟨Column.plain_structureId.insertable, hs.version.insertable⟩
    obtain ⟨stats, db', hon, hfail, htables⟩ : ∃ stats,
        (w.insert p.cache p.current structures).1.Yields db stats _ :=
      Writer.insert_yields hlayout (fun _ => hcolumns) hs.version.accepted hne
        (hs.holds.receives _ _)
    have hcache : (w.insert p.cache p.current structures).2 =
        (p.cache.getOrCreate s.naming p.current).2 := Writer.insert_cache hne
    refine ⟨⟨p.memo, (w.insert p.cache p.current structures).2, p.current⟩, db', ?_, rfl, ?_⟩
    · rw [step, Action.on_bind, hon]
      rfl
    · exact {
        failing := hfail.trans hs.failing
        version := hs.version
        holds := hs.holds.of_withRows hfail htables
        table := by
          rw [htables]
          dsimp only
          rw [hs.table, Option.map_some, withRows_groups rfl hs]
        nodup := hs.nodup
        mem_columns := hs.mem_columns
        length := by
          intro row hrow
          rcases List.mem_append.1 hrow with h | h
          · exact hs.length row h
          · exact length_of_mem_memberRows hs h
        cache := hcache ▸ hfaithful }

end Synchronizer

end DocStore
