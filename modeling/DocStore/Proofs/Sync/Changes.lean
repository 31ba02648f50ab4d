import DocStore.Proofs.Sync.Pruning

/-!
# Changing tables

A synchronization takes the table of member columns to the one that `changed` describes: columns
that the schema does not have are dropped, those that the table does not have are added, and every
other column of a row keeps its value.
-/

namespace DocStore

open Table (under kept)

section Changed

variable {names columns : List String} {row : List Value} {t : Table} {c : String}

/-- A column that is neither the identity nor one of the names is dropped. -/
def drops (names : List String) (c : String) : Bool :=
  !names.contains c && c ≠ Column.structureId

def adds (names columns : List String) : List String :=
  names.filter fun c => !(columns.filter fun c => c ≠ Column.structureId).contains c

def changedColumns (names columns : List String) : List String :=
  (columns.filter fun c => !drops names c) ++ adds names columns

def changedRow (names columns : List String) (row : List Value) : List Value :=
  kept (drops names) columns row ++ (adds names columns).map fun _ => .null

def changed (names : List String) (t : Table) : Table :=
  ⟨changedColumns names t.columns, t.rows.map (changedRow names t.columns)⟩

theorem drops_eq_false : drops names c = false ↔ c ∈ names ∨ c = Column.structureId := by
  rw [drops, Bool.and_eq_false_iff]
  simp

theorem mem_adds (hid : Column.structureId ∉ names) :
    c ∈ adds names columns ↔ c ∈ names ∧ c ∉ columns := by
  rw [adds, List.mem_filter]
  refine and_congr_right fun hc => ?_
  have hne : c ≠ Column.structureId := fun h => hid (h ▸ hc)
  simp [hne]

theorem mem_changedColumns (hid : Column.structureId ∉ names)
    (hc : Column.structureId ∈ columns) :
    c ∈ changedColumns names columns ↔ c ∈ names ∨ c = Column.structureId := by
  rw [changedColumns, List.mem_append, mem_adds hid, List.mem_filter, Bool.not_eq_true',
    drops_eq_false]
  constructor
  · rintro (⟨_, h⟩ | ⟨h, _⟩)
    · exact h
    · exact .inl h
  · intro h
    by_cases hmem : c ∈ columns
    · exact .inl ⟨hmem, h⟩
    · rcases h with h | rfl
      · exact .inr ⟨h, hmem⟩
      · exact absurd hc hmem

theorem nodup_adds (hn : names.Nodup) : (adds names columns).Nodup :=
  hn.sublist List.filter_sublist

theorem nodup_changedColumns (hid : Column.structureId ∉ names) (hn : names.Nodup)
    (hc : columns.Nodup) : (changedColumns names columns).Nodup := by
  rw [changedColumns, List.nodup_append]
  refine ⟨hc.sublist List.filter_sublist, nodup_adds hn, ?_⟩
  rintro a ha b hb rfl
  exact ((mem_adds hid).1 hb).2 (List.mem_of_mem_filter ha)

theorem length_changedRow (hl : row.length = columns.length) :
    (changedRow names columns row).length = (changedColumns names columns).length := by
  rw [changedRow, changedColumns, List.length_append, List.length_append, List.length_map,
    Table.length_kept hl]

/-- A column that stays keeps its value, and every other is without one. -/
theorem under_changedRow (hl : row.length = columns.length) :
    under (changedColumns names columns) (changedRow names columns row) c =
      if drops names c then .null else under columns row c := by
  rw [changedColumns, changedRow, Table.under_append (Table.length_kept hl)]
  by_cases hd : drops names c = true
  · rw [if_pos hd]
    refine Table.under_of_notMem fun h => ?_
    have hkeep := List.of_mem_filter h
    rw [hd] at hkeep
    cases hkeep
  · rw [if_neg hd]
    exact Table.under_kept hl (Bool.eq_false_iff.2 hd)

end Changed

namespace SyncPlan

open Database

variable {db : Database} {name : String} {t : Table} {dialect : Dialect}
  {definitions : List ColumnDefinition} {columns : List String}

theorem adding_yields (hq : Quotable name) (hp : ∀ c ∈ definitions, Definable c.name)
    (hf : name ∉ db.failing) (ht : db.table? name = some t)
    (hn : (definitions.map ColumnDefinition.name).Nodup)
    (hd : ∀ c ∈ definitions.map ColumnDefinition.name, c ∉ t.columns) :
    ∃ n, (executeBatch (if definitions.isEmpty then []
        else [Definition.addColumns dialect name definitions])).Yields db n
      (Function.update db.table? name (some ⟨t.columns ++ definitions.map ColumnDefinition.name,
        t.rows.map fun row =>
          row ++ (definitions.map ColumnDefinition.name).map fun _ => .null⟩)) := by
  cases definitions with
  | nil =>
    have hsame : (⟨t.columns ++ [], t.rows.map fun row => row ++ []⟩ : Table) = t := by
      simp
    refine ⟨0, ?_⟩
    simp only [List.map_nil, hsame, update_self ht]
    exact executeBatch_nil db
  | cons c definitions =>
    have hadd := Table.addColumns_eq hn hd
    refine executeBatch_cons (Database.addColumns_yields (Statement.ofText?_addColumns hq hp) hf ht
      hadd) fun db' _ htables => ?_
    rw [← htables]
    exact ⟨0, executeBatch_nil db'⟩

theorem columnCommands_yields {logical : List ColumnDefinition} {uniques : List String}
    (hq : Quotable name) (hp : ∀ c ∈ logical, Definable c.name)
    (hcols : ∀ c ∈ t.columns, Quotable c)
    (hf : name ∉ db.failing) (ht : db.table? name = some t)
    (hl : ∀ row ∈ t.rows, row.length = t.columns.length)
    (hn : (logical.map ColumnDefinition.name).Nodup)
    (hid : Column.structureId ∉ logical.map ColumnDefinition.name) :
    ∃ n, (executeBatch ((ofColumns t.columns logical uniques).columnCommands dialect name)).Yields
      db n (Function.update db.table? name
        (some (changed (logical.map ColumnDefinition.name) t))) := by
  let names := logical.map ColumnDefinition.name
  let plan := ofColumns t.columns logical uniques
  let dropped : Table := ⟨t.columns.filter fun c => !drops names c,
    t.rows.map (kept (drops names) t.columns)⟩
  have hdrop : plan.drop = t.columns.filter (drops names) := List.filter_filter
  have hadd : plan.add.map ColumnDefinition.name = adds names t.columns := by
    rw [adds, List.filter_map]
    rfl
  have hdropped : t.dropColumns plan.drop = (.ok (), dropped) := by
    rw [hdrop]
    exact Table.dropColumns_filter hl (drops names)
  have hadding : ∀ db' : Database, name ∉ db'.failing → db'.table? name = some dropped →
      ∃ n, (executeBatch (if plan.add.isEmpty then []
          else [Definition.addColumns dialect name plan.add])).Yields db' n
        (Function.update db'.table? name (some (changed names t))) := by
    intro db' hf' ht'
    have hadded : changed names t = ⟨dropped.columns ++ plan.add.map ColumnDefinition.name,
        dropped.rows.map fun row =>
          row ++ (plan.add.map ColumnDefinition.name).map fun _ => .null⟩ := by
      rw [hadd, List.map_map]
      rfl
    rw [hadded]
    refine adding_yields hq (fun c hc => hp c (List.mem_of_mem_filter hc)) hf' ht' ?_ ?_
    · rw [hadd]
      exact nodup_adds hn
    · intro c hc hmem
      rw [hadd, mem_adds hid] at hc
      exact hc.2 (List.mem_of_mem_filter hmem)
  rw [columnCommands]
  by_cases hempty : plan.drop = []
  · have hsame : dropped = t := by
      rw [hempty] at hdropped
      exact (Prod.mk.inj hdropped).2.symm
    rw [show plan.drop.isEmpty = true from List.isEmpty_iff.2 hempty]
    exact hadding db hf (hsame ▸ ht)
  · rw [show plan.drop.isEmpty = false from List.isEmpty_eq_false_iff.2 hempty]
    refine executeBatch_cons (Database.dropColumns_yields (Statement.ofText?_dropColumns hq ?_) hf
      ht hdropped) fun db' hfail htables => ?_
    · intro c hc
      rw [hdrop] at hc
      exact hcols c (List.mem_of_mem_filter hc)
    · have hadded := hadding db' (hfail ▸ hf) (by rw [htables, Function.update_self])
      rw [htables, Function.update_idem] at hadded
      exact hadded

end SyncPlan

namespace Synchronizer

variable {s : Synchronizer} {schema : Schema} {db : Database} {memo : SyncMemo} {t u : Table}

def names (s : Synchronizer) (schema : Schema) : List String :=
  schema.accessors.map fun a => s.naming a.path

theorem plain_names (hn : s.naming.IsPlain) (h : schema.Accepted) :
    ∀ c ∈ s.names schema, Plain c := by
  intro c hc
  obtain ⟨a, ha, rfl⟩ := List.mem_map.1 hc
  exact hn _ (h.isPath_of_mem ha)

theorem definable_memberColumns (hd : ∀ c ∈ s.names schema, Definable c) :
    ∀ c ∈ Definition.memberColumns s.naming schema, Definable c.name := by
  intro c hc
  obtain ⟨a, ha, rfl⟩ := List.mem_map.1 hc
  exact hd _ (List.mem_map_of_mem ha)

def planOf (s : Synchronizer) (schema : Schema) (t : Table) (uniques : Option Table) : SyncPlan :=
  SyncPlan.ofColumns t.columns (Definition.memberColumns s.naming schema)
    (obsoletePaths schema uniques)

theorem plan_on_available (hq : Quotable (TableName.uniques schema.name))
    (hf : TableName.memberColumns schema.name ∉ db.failing)
    (hf' : TableName.uniques schema.name ∉ db.failing)
    (ht : db.table? (TableName.memberColumns schema.name) = some t)
    (hu : ∀ u, db.table? (TableName.uniques schema.name) = some u →
      Column.uniqueMemberPath ∈ u.columns) :
    (s.plan schema).on db =
      (.ok (s.planOf schema t (db.table? (TableName.uniques schema.name))), db) := by
  rw [plan, Action.on_bind, Database.columnNames_on hf ht]
  dsimp only
  rw [Action.on_bind, obsoleteUniques_on hq hf' hu]
  rfl

theorem plan_on (hq : Quotable (TableName.uniques schema.name)) (hf : db.failing = [])
    (ht : db.table? (TableName.memberColumns schema.name) = some t)
    (hu : ∀ u, db.table? (TableName.uniques schema.name) = some u →
      Column.uniqueMemberPath ∈ u.columns) :
    (s.plan schema).on db =
      (.ok (s.planOf schema t (db.table? (TableName.uniques schema.name))), db) :=
  plan_on_available hq (hf ▸ List.not_mem_nil) (hf ▸ List.not_mem_nil) ht hu

/-- The deletions of a plan prune the table of uniques, if there is one. -/
theorem pruning_yields {uniques : Option Table} (hq : Quotable (TableName.uniques schema.name))
    (hf : TableName.uniques schema.name ∉ db.failing)
    (hu : db.table? (TableName.uniques schema.name) = uniques)
    (hc : ∀ u, uniques = some u → Column.uniqueMemberPath ∈ u.columns) :
    ∃ n, (Database.executeBatch ((s.planOf schema t uniques).uniqueCommands
      (TableName.uniques schema.name))).Yields db n (Function.update db.table?
        (TableName.uniques schema.name) (uniques.map (pruned schema))) := by
  cases uniques with
  | none =>
    have hsame : Function.update db.table? (TableName.uniques schema.name) none = db.table? := by
      rw [← hu, Function.update_eq_self]
    refine ⟨0, ?_⟩
    rw [Option.map_none, hsame]
    exact Database.executeBatch_nil db
  | some u =>
    rw [Option.map_some, ← withoutPaths_obsolete]
    exact SyncPlan.uniqueCommands_yields hq hf hu (hc u rfl)

/-- A type that is not synchronized gets the changed table of member columns, and loses the obsolete
unique rows. -/
theorem synchronize_yields (h : schema.Accepted) (hd : ∀ c ∈ s.names schema, Definable c)
    (hmemo : schema.name ∉ memo) (hf : db.failing = [])
    (ht : db.table? (TableName.memberColumns schema.name) = some t)
    (hu : ∀ u, db.table? (TableName.uniques schema.name) = some u →
      Column.uniqueMemberPath ∈ u.columns)
    (hcols : ∀ c ∈ t.columns, Quotable c) (hl : ∀ row ∈ t.rows, row.length = t.columns.length)
    (hnames : (s.names schema).Nodup) (hid : Column.structureId ∉ s.names schema) :
    (s.synchronize memo schema).Yields db
      (s.planOf schema t (db.table? (TableName.uniques schema.name)), memo.mark schema.name)
      (Function.update (Function.update db.table? (TableName.memberColumns schema.name)
        (some (changed (s.names schema) t))) (TableName.uniques schema.name)
          ((db.table? (TableName.uniques schema.name)).map (pruned schema))) := by
  have hfail : ∀ name, name ∉ db.failing := fun name => hf ▸ List.not_mem_nil
  have hlogical : (Definition.memberColumns s.naming schema).map ColumnDefinition.name =
      s.names schema := List.map_map
  have hq := TableName.quotable_uniques h.isIdentifier_name
  let plan := s.planOf schema t (db.table? (TableName.uniques schema.name))
  obtain ⟨m, db', hcolumns, hf', htables⟩ : ∃ m, (Database.executeBatch (plan.columnCommands
      s.dialect (TableName.memberColumns schema.name))).Yields db m _ :=
    SyncPlan.columnCommands_yields (TableName.quotable_memberColumns h.isIdentifier_name)
      (definable_memberColumns hd) hcols (hfail _) ht hl (hlogical ▸ hnames) (hlogical ▸ hid)
  have hsame : db'.table? (TableName.uniques schema.name) =
      db.table? (TableName.uniques schema.name) := by
    rw [htables, Function.update_of_ne TableName.uniques_ne_memberColumns]
  obtain ⟨n, huniques⟩ : ∃ n, (Database.executeBatch (plan.uniqueCommands
      (TableName.uniques schema.name))).Yields db' n _ :=
    pruning_yields hq (hf' ▸ hfail _) hsame hu
  rw [htables, hlogical] at huniques
  have happly : (s.apply schema plan).Yields db () _ :=
    .after hcolumns hf' (huniques.bind_pure fun _ => ())
  have hexists : (Database.tableExists (TableName.memberColumns schema.name)).on db =
      (.ok true, db) := by
    rw [Database.tableExists_on (hfail _), ht]
    rfl
  rw [synchronize, if_neg (mt SyncMemo.isSynced_iff.1 hmemo)]
  refine .after hexists rfl (.after (plan_on hq hf ht hu) rfl (happly.bind_pure _))

end Synchronizer

end DocStore
