import DocStore.Proofs.Sync.Creation
import DocStore.Proofs.Sync.Reconciliation

/-!
# What an upsert leaves to synchronize

An upsert that succeeds leaves all ten tables of a type. What a plan for the same schema then holds
is known exactly: it drops no column, adds a member that has the name of the identity column, and
prunes unique rows that were there before the table of member columns was, since a type without that
table is created and not synchronized.
-/

namespace DocStore

open Table (under)

namespace Database

variable {db db' : Database} {front rest : List Command} {n : Nat}

theorem executeBatch_append_eq_ok (h : (executeBatch (front ++ rest)).on db = (.ok n, db')) :
    ∃ m k db₁, (executeBatch front).on db = (.ok m, db₁) ∧
      (executeBatch rest).on db₁ = (.ok k, db') := by
  induction front generalizing db n with
  | nil => exact ⟨0, n, db, rfl, h⟩
  | cons command front ih =>
    obtain ⟨affected, db₁, hcommand, h⟩ := Action.on_bind_eq_ok.1 h
    obtain ⟨others, db₂, hbatch, h⟩ := Action.on_bind_eq_ok.1 h
    cases h
    obtain ⟨m, k, db₃, hfront, hrest⟩ := ih hbatch
    refine ⟨affected + m, k, db₃, ?_, hrest⟩
    exact Action.on_bind_eq_ok.2 ⟨affected, db₁, hcommand,
      Action.on_bind_eq_ok.2 ⟨m, db₃, hfront, rfl⟩⟩

theorem executeBatch_singleton_eq_ok {command : Command}
    (h : (executeBatch [command]).on db = (.ok n, db')) :
    (execute command).on db = (.ok n, db') := by
  obtain ⟨affected, db₁, hcommand, h⟩ := Action.on_bind_eq_ok.1 h
  obtain ⟨others, db₂, hbatch, h⟩ := Action.on_bind_eq_ok.1 h
  cases hbatch
  cases h
  exact hcommand

end Database

namespace SyncPlan

open Database

variable {db db' : Database} {name : String} {t : Table} {dialect : Dialect} {n : Nat}
  {logical definitions : List ColumnDefinition} {uniques : List String}

theorem dropping_yields (drop : String → Bool) (hq : Quotable name)
    (hcols : ∀ c ∈ t.columns, Quotable c) (hf : name ∉ db.failing)
    (ht : db.table? name = some t) :
    ∃ k t', (executeBatch (if (t.columns.filter drop).isEmpty then []
        else [Definition.dropColumns name (t.columns.filter drop)])).Yields db k
      (Function.update db.table? name (some t')) ∧
        t'.columns = t.columns.filter fun c => !drop c := by
  by_cases hempty : t.columns.filter drop = []
  · have hkept : t.columns.filter (fun c => !drop c) = t.columns := by
      rw [List.filter_eq_self]
      intro c hc
      simpa using List.filter_eq_nil_iff.1 hempty c hc
    refine ⟨0, t, ?_, hkept.symm⟩
    rw [if_pos (List.isEmpty_iff.2 hempty), update_self ht]
    exact executeBatch_nil db
  · obtain ⟨t', hdropped, hcolumns⟩ := t.dropColumns_columns drop
    have hread : Statement.ofText? (Definition.dropColumns name (t.columns.filter drop)).sql =
        some (.dropColumns name (t.columns.filter drop)) :=
      Statement.ofText?_dropColumns hq fun c hc => hcols c (List.mem_of_mem_filter hc)
    rw [if_neg fun h => hempty (List.isEmpty_iff.1 h)]
    obtain ⟨k, hyields⟩ := executeBatch_cons (Database.dropColumns_yields hread hf ht hdropped)
      fun db' _ htables => ⟨0, htables ▸ executeBatch_nil db'⟩
    exact ⟨k, t', hyields, hcolumns⟩

theorem adding_eq_ok (hq : Quotable name) (hp : ∀ c ∈ definitions, Definable c.name)
    (hf : name ∉ db.failing) (ht : db.table? name = some t)
    (h : (executeBatch (if definitions.isEmpty then []
      else [Definition.addColumns dialect name definitions])).on db = (.ok n, db')) :
    ∃ t', t'.columns = t.columns ++ definitions.map ColumnDefinition.name ∧
      db'.failing = db.failing ∧ db'.table? = Function.update db.table? name (some t') := by
  cases definitions with
  | nil =>
    cases h
    exact ⟨t, (List.append_nil _).symm, rfl, (update_self ht).symm⟩
  | cons c definitions =>
    obtain ⟨t', hadded, hfail, htables⟩ := addColumns_eq_ok (Statement.ofText?_addColumns hq hp) hf
      ht (executeBatch_singleton_eq_ok h)
    exact ⟨t', Table.columns_of_addColumns hadded, hfail, htables⟩

/-- Where the commands succeed, the members of the schema and the identity are the columns. -/
theorem columnCommands_eq_ok (hq : Quotable name) (hp : ∀ c ∈ logical, Definable c.name)
    (hcols : ∀ c ∈ t.columns, Quotable c) (hf : name ∉ db.failing) (ht : db.table? name = some t)
    (h : (executeBatch ((ofColumns t.columns logical uniques).columnCommands dialect name)).on db =
      (.ok n, db')) :
    ∃ t', t'.columns = changedColumns (logical.map ColumnDefinition.name) t.columns ∧
      db'.failing = db.failing ∧ db'.table? = Function.update db.table? name (some t') := by
  let names := logical.map ColumnDefinition.name
  let plan := ofColumns t.columns logical uniques
  have hdrop : plan.drop = t.columns.filter (drops names) := List.filter_filter
  have hadd : plan.add.map ColumnDefinition.name = adds names t.columns := by
    rw [adds, List.filter_map]
    rfl
  obtain ⟨m, k, db₁, hdropping, hadding⟩ := executeBatch_append_eq_ok h
  change (executeBatch (if plan.drop.isEmpty then [] else _)).on db = _ at hdropping
  rw [hdrop] at hdropping
  obtain ⟨_, dropped, hyields, hdropped⟩ := dropping_yields (drops names) hq hcols hf ht
  obtain ⟨-, hfail, htables⟩ := hyields.eq_of_on hdropping
  have ht₁ : db₁.table? name = some dropped := by rw [htables, Function.update_self]
  obtain ⟨t', hadded, hfail', htables'⟩ := adding_eq_ok hq
    (fun c hc => hp c (List.mem_of_mem_filter hc)) (hfail ▸ hf) ht₁ hadding
  refine ⟨t', ?_, hfail'.trans hfail, ?_⟩
  · rw [hadded, hdropped, changedColumns]
    exact congrArg (_ ++ ·) hadd
  · rw [htables', htables, Function.update_idem]

/-- Of a table with the members of the schema as its columns, a plan keeps all of them, and adds the
members that have the name of the identity column. -/
theorem ofColumns_of_mem {columns : List String}
    (hc : ∀ c ∈ columns, c ∈ logical.map ColumnDefinition.name ∨ c = Column.structureId)
    (hn : ∀ c ∈ logical.map ColumnDefinition.name, c ≠ Column.structureId → c ∈ columns) :
    ofColumns columns logical uniques =
      ⟨[], logical.filter fun c => c.name = Column.structureId, uniques⟩ := by
  rw [ofColumns, SyncPlan.mk.injEq]
  refine ⟨?_, List.filter_congr fun c hmem => ?_, rfl⟩
  · rw [List.filter_eq_nil_iff]
    intro c hmem
    obtain ⟨hmem, hne⟩ := List.mem_filter.1 hmem
    have hname := (hc c hmem).resolve_right (by simpa using hne)
    simpa using hname
  · have hname := hn c.name (List.mem_map_of_mem hmem)
    by_cases h : c.name = Column.structureId
    · simp [h]
    · simp [h, hname h]

end SyncPlan

namespace Synchronizer

variable {s : Synchronizer} {schema : Schema} {db db' : Database} {memo memo' : SyncMemo}
  {t : Table}

theorem mem_of_mem_changedColumns {names columns : List String} {c : String}
    (h : c ∈ changedColumns names columns) : c ∈ names ∨ c = Column.structureId := by
  rcases List.mem_append.1 h with h | h
  · exact drops_eq_false.1 (by simpa using (List.mem_filter.1 h).2)
  · exact .inl (List.mem_of_mem_filter h)

theorem mem_changedColumns_of_mem {names columns : List String} {c : String} (h : c ∈ names) :
    c ∈ changedColumns names columns := by
  rw [changedColumns, List.mem_append, List.mem_filter, adds, List.mem_filter]
  by_cases hc : c ∈ columns
  · exact .inl ⟨hc, by simp [drops_eq_false.2 (.inl h)]⟩
  · exact .inr ⟨h, by simp [hc]⟩

/-- Creating the missing tables succeeds only where none of the tables fails. -/
theorem available_of_createMissing {wanted : List (String × Command)}
    {layouts : List TableLayout} {created : List String}
    (hw : List.Forall₂ Creates wanted layouts)
    (h : (createMissing wanted).on db = (.ok created, db')) :
    ∀ l ∈ layouts, l.table ∉ db.failing := by
  intro l hl hf
  obtain ⟨_, _, _, _, _, _, hfailed, _⟩ := createMissing_interrupted hw ⟨l, hl, hf⟩
  rw [hfailed] at h
  cases h

/-- A synchronization that succeeds leaves the member columns of the schema and no obsolete unique
row. -/
theorem synchronize_eq_ok {u : Table} {plan : SyncPlan} (h : schema.Accepted)
    (hd : ∀ c ∈ s.names schema, Definable c) (hmemo : schema.name ∉ memo)
    (hf : TableName.memberColumns schema.name ∉ db.failing)
    (hf' : TableName.uniques schema.name ∉ db.failing)
    (ht : db.table? (TableName.memberColumns schema.name) = some t)
    (hu : db.table? (TableName.uniques schema.name) = some u)
    (hc : Column.uniqueMemberPath ∈ u.columns) (hcols : ∀ c ∈ t.columns, Quotable c)
    (hok : (s.synchronize memo schema).on db = (.ok (plan, memo'), db')) :
    ∃ t', t'.columns = changedColumns (s.names schema) t.columns ∧ db'.failing = db.failing ∧
      db'.table? = Function.update (Function.update db.table?
        (TableName.memberColumns schema.name) (some t')) (TableName.uniques schema.name)
          (some (pruned schema u)) := by
  have hq := TableName.quotable_uniques h.isIdentifier_name
  have hqm := TableName.quotable_memberColumns h.isIdentifier_name
  have hlogical : (Definition.memberColumns s.naming schema).map ColumnDefinition.name =
      s.names schema := List.map_map
  rw [synchronize, if_neg (mt SyncMemo.isSynced_iff.1 hmemo)] at hok
  obtain ⟨there, _, hexists, hok⟩ := Action.on_bind_eq_ok.1 hok
  obtain ⟨-, rfl, rfl⟩ := Database.tableExists_eq_ok hexists
  rw [ht] at hok
  obtain ⟨planned, _, hplan, hok⟩ := Action.on_bind_eq_ok.1 hok
  rw [plan_on_available hq hf hf' ht fun v hv => Option.some.inj (hu.symm.trans hv) ▸ hc] at hplan
  cases hplan
  obtain ⟨_, db₂, happly, hok⟩ := Action.on_bind_eq_ok.1 hok
  cases hok
  obtain ⟨m, db₁, hcolumns, happly⟩ := Action.on_bind_eq_ok.1 happly
  obtain ⟨k, db₂, huniques, hend⟩ := Action.on_bind_eq_ok.1 happly
  cases hend
  obtain ⟨t', hchanged, hfail, htables⟩ :=
    SyncPlan.columnCommands_eq_ok hqm (definable_memberColumns hd) hcols hf ht hcolumns
  have hsame : db₁.table? (TableName.uniques schema.name) =
      db.table? (TableName.uniques schema.name) := by
    rw [htables, Function.update_of_ne TableName.uniques_ne_memberColumns]
  obtain ⟨_, hpruning⟩ := pruning_yields (s := s) (t := t) hq (hfail ▸ hf') hsame
    fun v hv => Option.some.inj (hu.symm.trans hv) ▸ hc
  obtain ⟨-, hfail', htables'⟩ := hpruning.eq_of_on huniques
  refine ⟨t', hlogical ▸ hchanged, hfail'.trans hfail, ?_⟩
  rw [htables', htables, hu, Option.map_some]

/-- The members of a schema whose columns have the name of the identity column. -/
def clashing (s : Synchronizer) (schema : Schema) : List ColumnDefinition :=
  (Definition.memberColumns s.naming schema).filter fun c => c.name = Column.structureId

theorem clashing_eq_nil : s.clashing schema = [] ↔ Column.structureId ∉ s.names schema := by
  simp [clashing, names, Definition.memberColumns]

theorem plan_of_columns {u : Table} (h : schema.Accepted)
    (hf : TableName.memberColumns schema.name ∉ db.failing)
    (hf' : TableName.uniques schema.name ∉ db.failing)
    (ht : db.table? (TableName.memberColumns schema.name) = some t)
    (hu : db.table? (TableName.uniques schema.name) = some u)
    (hc : Column.uniqueMemberPath ∈ u.columns)
    (hcols : ∀ c ∈ t.columns, c ∈ s.names schema ∨ c = Column.structureId)
    (hnames : ∀ c ∈ s.names schema, c ≠ Column.structureId → c ∈ t.columns) :
    (s.plan schema).on db =
      (.ok ⟨[], s.clashing schema, obsoletePaths schema (some u)⟩, db) := by
  have hlogical : (Definition.memberColumns s.naming schema).map ColumnDefinition.name =
      s.names schema := List.map_map
  rw [plan_on_available (TableName.quotable_uniques h.isIdentifier_name) hf hf' ht
    fun v hv => Option.some.inj (hu.symm.trans hv) ▸ hc, hu, planOf,
    SyncPlan.ofColumns_of_mem (hlogical ▸ hcols) (hlogical ▸ hnames), clashing]

/-- Without a table of uniques nothing is obsolete, nor with an empty one. -/
theorem obsoletePaths_getD (uniques : Option Table) (columns : List String) :
    obsoletePaths schema (some (uniques.getD ⟨columns, []⟩)) = obsoletePaths schema uniques := by
  cases uniques <;> rfl

structure Filled (s : Synchronizer) (schema : Schema) (db db' : Database) : Prop where
  failing : db'.failing = db.failing
  available : TableName.memberColumns schema.name ∉ db.failing
  available' : TableName.uniques schema.name ∉ db.failing
  all : ∀ l ∈ (Layout.ofSchema s.naming schema).tables, (db'.table? l.table).isSome
  members : db'.table? (TableName.memberColumns schema.name) =
    some ((db.table? (TableName.memberColumns schema.name)).getD
      ⟨Column.structureId :: s.names schema, []⟩)
  uniques : db'.table? (TableName.uniques schema.name) =
    some ((db.table? (TableName.uniques schema.name)).getD
      ⟨(Layout.ofSchema s.naming schema).uniques.columns, []⟩)

theorem filled_of_createMissing {created : List String} (hn : s.naming.IsPlain)
    (h : schema.Accepted)
    (hok : (createMissing (s.wanted schema)).on db = (.ok created, db')) :
    s.Filled schema db db' := by
  have hwanted := creates_wanted h (hn.definable_memberColumns h)
  have havailable := available_of_createMissing hwanted hok
  have hn := nodup_tables s.naming schema
  obtain ⟨-, hfail, htables⟩ := (createMissing_yields hwanted hn havailable).eq_of_on hok
  have hmembers := (Layout.ofSchema s.naming schema).memberColumns_mem_tables
  have huniques := (Layout.ofSchema s.naming schema).uniques_mem_tables
  refine ⟨hfail, havailable _ hmembers, havailable _ huniques, ?_,
    htables ▸ supplied_of_mem hn hmembers, htables ▸ supplied_of_mem hn huniques⟩
  intro l hl
  rw [htables, supplied_of_mem hn hl]
  rfl

/-- The plan that an upsert leaves where it succeeds; all tables are there then. -/
theorem plan_after_upsert {outcome : UpsertOutcome} (hn : s.naming.IsPlain) (h : schema.Accepted)
    (hmemo : schema.name ∉ memo)
    (hcols : ∀ t, db.table? (TableName.memberColumns schema.name) = some t →
      ∀ c ∈ t.columns, Quotable c)
    (hu : ∀ u, db.table? (TableName.uniques schema.name) = some u →
      Column.uniqueMemberPath ∈ u.columns)
    (hok : (s.upsert memo schema).on db = (.ok (outcome, memo'), db')) :
    (∀ l ∈ (Layout.ofSchema s.naming schema).tables, (db'.table? l.table).isSome) ∧
      (s.plan schema).on db' = (.ok ⟨[], s.clashing schema,
        if (db.table? (TableName.memberColumns schema.name)).isSome then []
        else obsoletePaths schema (db.table? (TableName.uniques schema.name))⟩, db') := by
  rw [upsert, if_neg (mt SyncMemo.isSynced_iff.1 hmemo)] at hok
  obtain ⟨existed, _, hexists, hok⟩ := Action.on_bind_eq_ok.1 hok
  obtain ⟨-, rfl, rfl⟩ := Database.tableExists_eq_ok hexists
  obtain ⟨created, db₁, hcreate, hok⟩ := Action.on_bind_eq_ok.1 hok
  have hfilled := filled_of_createMissing hn h hcreate
  have hmembers := hfilled.members
  have hfm := hfilled.failing ▸ hfilled.available
  have hfu := hfilled.failing ▸ hfilled.available'
  have hpath : Column.uniqueMemberPath ∈ ((db.table? (TableName.uniques schema.name)).getD
      ⟨(Layout.ofSchema s.naming schema).uniques.columns, []⟩).columns := by
    cases ht : db.table? (TableName.uniques schema.name) with
    | none => simp [Layout.ofSchema]
    | some u => exact hu u ht
  cases ht : db.table? (TableName.memberColumns schema.name) with
  | none =>
    rw [ht] at hok hmembers
    cases hok
    refine ⟨hfilled.all, ?_⟩
    rw [plan_of_columns h hfm hfu hmembers hfilled.uniques hpath
      (fun c hc => (List.mem_cons.1 hc).symm) (fun c hc _ => List.mem_cons_of_mem _ hc),
      obsoletePaths_getD]
    rfl
  | some t =>
    rw [ht] at hok hmembers
    obtain ⟨⟨plan, memo₂⟩, db₂, hsync, hok⟩ := Action.on_bind_eq_ok.1 hok
    cases hok
    have hdefinable : ∀ c ∈ s.names schema, Definable c :=
      fun c hc => (plain_names hn h c hc).definable
    obtain ⟨t', hchanged, hfail, htables⟩ := synchronize_eq_ok h hdefinable hmemo hfm hfu
      hmembers hfilled.uniques hpath (hcols t ht) hsync
    have ht' : db'.table? (TableName.memberColumns schema.name) = some t' := by
      rw [htables, Function.update_of_ne TableName.uniques_ne_memberColumns.symm,
        Function.update_self]
    have hu' := (congrFun htables (TableName.uniques schema.name)).trans
      (Function.update_self _ _ _)
    refine ⟨?_, ?_⟩
    · intro l hl
      have hthere := hfilled.all l hl
      rw [htables, Function.update_apply, Function.update_apply]
      split
      · rfl
      · split
        · rfl
        · exact hthere
    · rw [plan_of_columns h (hfail ▸ hfm) (hfail ▸ hfu) ht' hu' hpath
        (fun c hc => mem_of_mem_changedColumns (hchanged ▸ hc))
        (fun c hc _ => hchanged ▸ mem_changedColumns_of_mem hc)]
      exact congrArg (fun paths => (Except.ok (⟨[], s.clashing schema, paths⟩ : SyncPlan), db'))
        (obsolete_pruned schema _)

theorem obsoletePaths_eq_nil {uniques : Option Table} :
    obsoletePaths schema uniques = [] ↔ ∀ u, uniques = some u → ∀ row ∈ u.rows,
      schema.isObsolete (under u.columns row Column.uniqueMemberPath) = false := by
  cases uniques with
  | none => exact ⟨fun _ => nofun, fun _ => rfl⟩
  | some u =>
    rw [obsoletePaths, List.eq_nil_iff_forall_not_mem]
    constructor
    · intro h v hv row hrow
      obtain rfl := Option.some.inj hv
      cases hv : under u.columns row Column.uniqueMemberPath with
      | string path =>
        have hstored : .string path ∈ storedPaths u :=
          Table.mem_distinct.2 ⟨List.mem_map.2 ⟨row, hrow, hv⟩, nofun⟩
        exact Bool.eq_false_iff.2 fun ho => h path (mem_obsolete.2 ⟨hstored, ho⟩)
      | _ => rfl
    · intro h path hpath
      obtain ⟨hstored, hobsolete⟩ := mem_obsolete.1 hpath
      obtain ⟨row, hrow, hv⟩ := List.mem_map.1 (Table.mem_distinct.1 hstored).1
      have hrow := h u rfl row hrow
      rw [hv, hobsolete] at hrow
      cases hrow

/-- Where an upsert succeeds all ten tables are there, and nothing is left to synchronize exactly if
no member's column has the name of the identity column, and there was a table of member columns
before or no obsolete unique row. -/
theorem upsert_leaves_empty_plan_iff {outcome : UpsertOutcome} (hn : s.naming.IsPlain)
    (h : schema.Accepted) (hmemo : schema.name ∉ memo)
    (hcols : ∀ t, db.table? (TableName.memberColumns schema.name) = some t →
      ∀ c ∈ t.columns, Quotable c)
    (hu : ∀ u, db.table? (TableName.uniques schema.name) = some u →
      Column.uniqueMemberPath ∈ u.columns)
    (hok : (s.upsert memo schema).on db = (.ok (outcome, memo'), db')) :
    (∀ l ∈ (Layout.ofSchema s.naming schema).tables, (db'.table? l.table).isSome) ∧
      ∃ plan, (s.plan schema).on db' = (.ok plan, db') ∧
        (plan.isEmpty = true ↔ Column.structureId ∉ s.names schema ∧
          ((db.table? (TableName.memberColumns schema.name)).isSome ∨
            ∀ u, db.table? (TableName.uniques schema.name) = some u → ∀ row ∈ u.rows,
              schema.isObsolete (under u.columns row Column.uniqueMemberPath) = false)) := by
  obtain ⟨hall, hplan⟩ := plan_after_upsert hn h hmemo hcols hu hok
  refine ⟨hall, _, hplan, ?_⟩
  rw [← clashing_eq_nil, ← obsoletePaths_eq_nil]
  cases (db.table? (TableName.memberColumns schema.name)).isSome <;> simp [SyncPlan.isEmpty]

/-- Orders have a table of uniques with a row of `Name`, which is unique; all else is missing. -/
theorem upsert_leaves_empty_plan_of_orders :
    let schema : Schema := ⟨"Order", ⟨"Id", .identity⟩,
      [⟨"Total", .integer, none, false, false⟩, ⟨"Name", .string, some .perType, false, false⟩]⟩
    let s : Synchronizer := ⟨.rowNumber, ColumnName.ofPath 128⟩
    let uniques : Table := ⟨["StructureId", "UqStructureId", "UqMemberPath", "UqValue"],
      [[.integer 1, .null, .string "Name", .string "a"]]⟩
    let db : Database := { tables := [("OrderUniques", uniques)] }
    ∃ outcome memo db', (s.upsert [] schema).on db = (.ok (outcome, memo), db') ∧
      (∀ l ∈ (Layout.ofSchema s.naming schema).tables, (db'.table? l.table).isSome) ∧
      ∃ plan, (s.plan schema).on db' = (.ok plan, db') ∧ plan.isEmpty = true := by
  intro schema s uniques db
  have hplain : s.naming.IsPlain := ColumnName.isPlain_ofPath 128
  have haccepted : schema.Accepted := by decide +kernel
  have hmissing : db.table? (TableName.memberColumns schema.name) = none := by decide +kernel
  have huniques : db.table? (TableName.uniques schema.name) = some uniques := by decide +kernel
  obtain ⟨_, _, ⟨db', hok, -⟩, -⟩ := upsert_yields haccepted
    (hplain.definable_memberColumns haccepted) List.not_mem_nil
    (fun _ _ => List.not_mem_nil) hmissing
  have hcols : ∀ t, db.table? (TableName.memberColumns schema.name) = some t →
      ∀ c ∈ t.columns, Quotable c := by
    rw [hmissing]
    exact fun _ => nofun
  have hu : ∀ u, db.table? (TableName.uniques schema.name) = some u →
      Column.uniqueMemberPath ∈ u.columns := by
    rw [huniques]
    rintro _ ⟨⟩
    decide
  have hcurrent : ∀ u, db.table? (TableName.uniques schema.name) = some u → ∀ row ∈ u.rows,
      schema.isObsolete (under u.columns row Column.uniqueMemberPath) = false := by
    rw [huniques]
    rintro _ ⟨⟩
    decide +kernel
  obtain ⟨hall, plan, hplan, hempty⟩ := upsert_leaves_empty_plan_iff hplain haccepted
    List.not_mem_nil hcols hu hok
  exact ⟨_, _, db', hok, hall, plan, hplan, hempty.2 ⟨by decide +kernel, .inr hcurrent⟩⟩

/-- Orders have a table of uniques with a row of `Code`, which is no member any more; all else is
missing. The upsert keeps the row, and takes the type for synchronized. -/
theorem upsert_leaves_obsolete_rows :
    let schema : Schema := ⟨"Order", ⟨"Id", .identity⟩, [⟨"Number", .integer, none, false, false⟩]⟩
    let s : Synchronizer := ⟨.rowNumber, ColumnName.ofPath 128⟩
    let uniques : Table := ⟨["StructureId", "UqStructureId", "UqMemberPath", "UqValue"],
      [[.integer 1, .null, .string "Code", .string "a"]]⟩
    let db : Database := { tables := [("OrderUniques", uniques)] }
    ∃ outcome memo db', (s.upsert [] schema).on db = (.ok (outcome, memo), db') ∧
      (s.plan schema).on db' = (.ok { obsoleteUniques := ["Code"] }, db') ∧
      (s.synchronize memo schema).on db' = (.ok ({}, memo), db') := by
  intro schema s uniques db
  have hplain : s.naming.IsPlain := ColumnName.isPlain_ofPath 128
  have haccepted : schema.Accepted := by decide +kernel
  have hmissing : db.table? (TableName.memberColumns schema.name) = none := by decide +kernel
  have huniques : db.table? (TableName.uniques schema.name) = some uniques := by decide +kernel
  obtain ⟨_, _, ⟨db', hok, -⟩, -⟩ := upsert_yields haccepted
    (hplain.definable_memberColumns haccepted) List.not_mem_nil
    (fun _ _ => List.not_mem_nil) hmissing
  have hu : ∀ u, db.table? (TableName.uniques schema.name) = some u →
      Column.uniqueMemberPath ∈ u.columns := by
    rw [huniques]
    rintro _ ⟨⟩
    decide
  obtain ⟨-, hplan⟩ := plan_after_upsert hplain haccepted List.not_mem_nil
    (by rw [hmissing]; exact fun _ => nofun) hu hok
  rw [hmissing, huniques] at hplan
  have hleft : obsoletePaths schema (some uniques) = ["Code"] := by decide +kernel
  have hclashing : s.clashing schema = [] := by decide +kernel
  rw [hclashing, if_neg (by simp), hleft] at hplan
  refine ⟨_, _, db', hok, hplan, ?_⟩
  rw [synchronize, if_pos (by simp [SyncMemo.isSynced, SyncMemo.mark])]
  rfl

end Synchronizer

end DocStore
