import DocStore.Proofs.Sync.Isolation

/-!
# Retrying an upsert

An upsert that a failing table interrupts has created some of the missing tables, from the front of
their order, and has not marked the memo. As the table of member columns is the last one, it is not
among them: a retry takes the branch that the first run would have taken, and ends as that.
-/

namespace DocStore

open Database

structure Session where
  database : Database
  memo : SyncMemo

namespace Session

/-- What is done in a session. The memo stays marked even if something fails afterwards. -/
abbrev Run (α : Type) := ExceptT Error (StateM Session) α

namespace Run

variable {α β : Type} {f : α → Run β} {g : α → SyncMemo → Action (β × SyncMemo)} {name : String}

def on (x : Run α) (session : Session) : Except Error α × Session :=
  x.run.run session

theorem on_bind (x : Run α) (f : α → Run β) (session : Session) :
    (x >>= f).on session =
      match x.on session with
      | (.ok a, session) => (f a).on session
      | (.error e, session) => (.error e, session) := by
  change (ExceptT.bind x f : Run β) session = _
  simp only [ExceptT.bind, ExceptT.mk, on, ExceptT.run, StateT.run, bind, StateT.bind,
    ExceptT.bindCont]
  rcases x session with ⟨_ | _, _⟩ <;> rfl

def perform (x : Action α) : Run α := fun session =>
  ((x.on session.database).1, { session with database := (x.on session.database).2 })

def isSynced (name : String) : Run Bool := fun session =>
  (.ok (session.memo.isSynced name), session)

def mark (name : String) : Run Unit := fun session =>
  (.ok (), { session with memo := session.memo.mark name })

/-- The run does what the action does, which gives the memo with its result. Where it fails, the
memo is as it was. -/
def Threads (run : Run α) (x : SyncMemo → Action (α × SyncMemo)) : Prop :=
  ∀ db memo, run.on ⟨db, memo⟩ =
    match (x memo).on db with
    | (.ok (a, memo'), db') => (.ok a, ⟨db', memo'⟩)
    | (.error e, db') => (.error e, ⟨db', memo⟩)

theorem Threads.pure (a : α) : (Pure.pure a : Run α).Threads fun memo => Pure.pure (a, memo) :=
  fun _ _ => rfl

/-- A mark after which nothing fails. -/
theorem Threads.mark (name : String) (a : α) :
    (Run.mark name >>= fun _ => Pure.pure a).Threads fun memo =>
      Pure.pure (a, memo.mark name) :=
  fun _ _ => rfl

theorem Threads.perform (x : Action α) (hf : ∀ a, (f a).Threads (g a)) :
    (Run.perform x >>= f).Threads fun memo => x >>= fun a => g a memo := by
  intro db memo
  have hx : (Run.perform x).on ⟨db, memo⟩ = ((x.on db).1, ⟨(x.on db).2, memo⟩) := rfl
  rw [on_bind, hx, Action.on_bind]
  rcases x.on db with ⟨_ | a, db'⟩
  · rfl
  · exact hf a db' memo

theorem Threads.isSynced {f : Bool → Run β} {g g' : SyncMemo → Action (β × SyncMemo)}
    (hf : (f true).Threads g) (hf' : (f false).Threads g') :
    (Run.isSynced name >>= f).Threads fun memo =>
      if memo.isSynced name then g memo else g' memo := by
  intro db memo
  have hname : (Run.isSynced name).on ⟨db, memo⟩ = (.ok (memo.isSynced name), ⟨db, memo⟩) := rfl
  rw [on_bind, hname]
  beta_reduce
  cases memo.isSynced name with
  | true => exact hf db memo
  | false => exact hf' db memo

theorem Threads.map {run : Run α} {x : SyncMemo → Action (α × SyncMemo)} (h : run.Threads x)
    (k : α → β) : (run >>= fun a => Pure.pure (k a)).Threads fun memo =>
      x memo >>= fun (a, memo) => Pure.pure (k a, memo) := by
  intro db memo
  rw [on_bind, h db memo, Action.on_bind]
  rcases (x memo).on db with ⟨_ | ⟨a, memo'⟩, db'⟩ <;> rfl

variable {run : Run α} {x : SyncMemo → Action (α × SyncMemo)} {db left : Database}
  {memo memo' : SyncMemo}

theorem Threads.on_eq_ok (h : run.Threads x) {a : α} :
    run.on ⟨db, memo⟩ = (.ok a, ⟨left, memo'⟩) ↔ (x memo).on db = (.ok (a, memo'), left) := by
  rw [h db memo]
  rcases (x memo).on db with ⟨_ | _, _⟩
  · exact ⟨nofun, nofun⟩
  · exact ⟨fun h => by cases h; rfl, fun h => by cases h; rfl⟩

theorem Threads.on_eq_error (h : run.Threads x) {e : Error}
    (hx : (x memo).on db = (.error e, left)) :
    run.on ⟨db, memo⟩ = (.error e, ⟨left, memo⟩) := by
  rw [h db memo, hx]

end Run

open Session.Run

/-- `Synchronizer.synchronize`, which marks the memo as one of its steps. -/
def synchronize (s : Synchronizer) (schema : Schema) : Run SyncPlan := do
  if ← isSynced schema.name then pure {}
  else if ← perform (tableExists (TableName.memberColumns schema.name)) then
    let plan ← perform (s.plan schema)
    perform (s.apply schema plan)
    mark schema.name
    pure plan
  else pure {}

def upsert (s : Synchronizer) (schema : Schema) : Run UpsertOutcome := do
  if ← isSynced schema.name then pure {}
  else
    let existed ← perform (tableExists (TableName.memberColumns schema.name))
    let created ← perform (Synchronizer.createMissing (s.wanted schema))
    if existed then
      let sync ← synchronize s schema
      pure ⟨created, sync⟩
    else
      mark schema.name
      pure ⟨created, {}⟩

theorem synchronize_threads (s : Synchronizer) (schema : Schema) :
    (synchronize s schema).Threads fun memo => s.synchronize memo schema := by
  refine .isSynced (.pure _) (.perform _ fun there => ?_)
  cases there with
  | true => exact .perform _ fun plan => .perform _ fun _ => .mark schema.name plan
  | false => exact .pure _

/-- Nothing that can fail comes after a mark, so that it is the same to give a memo that is marked
with the result. -/
theorem upsert_threads (s : Synchronizer) (schema : Schema) :
    (upsert s schema).Threads fun memo => s.upsert memo schema := by
  refine .isSynced (.pure _) (.perform _ fun existed => .perform _ fun created => ?_)
  cases existed with
  | true => exact (synchronize_threads s schema).map (UpsertOutcome.mk created)
  | false => exact .mark schema.name _

end Session

def Database.cleared (db : Database) : Database :=
  { db with failing := [] }

namespace Synchronizer

variable {s : Synchronizer} {schema : Schema} {db : Database} {memo memo' : SyncMemo}
  {layouts front back : List TableLayout}

def createdLayout (entry : String × Command) : TableLayout :=
  ⟨entry.1, match Statement.ofText? entry.2.sql with
    | some (.create _ columns) => columns
    | _ => []⟩

/-- Whatever the naming, each statement creates some table. -/
theorem creates_createdLayout (h : schema.Accepted) :
    List.Forall₂ Creates (s.wanted schema) ((s.wanted schema).map createdLayout) := by
  rw [List.forall₂_map_right_iff, List.forall₂_same]
  intro entry he
  obtain ⟨hn, definitions, hdefinitions⟩ := exists_createTable_of_mem_wanted he
  have hread := Statement.ofText?_createTable_defined
    (TableName.quotable_of_mem_all h.isIdentifier_name hn) definitions
  refine ⟨rfl, ?_⟩
  rw [createdLayout, hdefinitions, hread]

theorem tables_createdLayout : ((s.wanted schema).map createdLayout).map TableLayout.table =
    TableName.all schema.name :=
  rfl

def finish (s : Synchronizer) (memo : SyncMemo) (schema : Schema) (existed : Bool) :
    Action (SyncPlan × SyncMemo) :=
  if existed then s.synchronize memo schema else pure ({}, memo.mark schema.name)

theorem finish_local (h : schema.Accepted) (existed : Bool) :
    (s.finish memo schema existed).Local (TableName.all schema.name) := by
  cases existed with
  | true => exact synchronize_local h memo
  | false => exact .pure _

theorem upsert_eq (hmemo : schema.name ∉ memo) : s.upsert memo schema = (do
    let existed ← tableExists (TableName.memberColumns schema.name)
    let created ← createMissing (s.wanted schema)
    let (sync, memo) ← s.finish memo schema existed
    pure (⟨created, sync⟩, memo)) := by
  rw [upsert, if_neg (mt SyncMemo.isSynced_iff.1 hmemo)]
  refine congrArg (_ >>= ·) (funext fun existed => congrArg (_ >>= ·) (funext fun created => ?_))
  cases existed <;> rfl

/-- Without failing tables, an upsert comes down to what follows on the supplied tables. -/
theorem upsert_on (hw : List.Forall₂ Creates (s.wanted schema) layouts)
    (hn : (layouts.map TableLayout.table).Nodup) (hmemo : schema.name ∉ memo)
    (hf : db.failing = []) :
    ∃ db₁, db₁.failing = [] ∧ db₁.table? = supplied layouts db.table? ∧
      (s.upsert memo schema).on db = Action.on (do
        let (sync, memo) ← s.finish memo schema
          (db.table? (TableName.memberColumns schema.name)).isSome
        pure (⟨missing layouts db.table?, sync⟩, memo)) db₁ := by
  obtain ⟨db₁, hcreated, hfail, htables⟩ :=
    createMissing_yields hw hn fun _ _ => hf ▸ List.not_mem_nil
  refine ⟨db₁, hfail.trans hf, htables, ?_⟩
  rw [upsert_eq hmemo, Action.on_bind, tableExists_on (hf ▸ List.not_mem_nil)]
  change Action.on (_ >>= _) db = _
  rw [Action.on_bind, hcreated]

/-- An interrupted upsert has supplied a part of the tables, but not all. -/
theorem upsert_interrupted (hw : List.Forall₂ Creates (s.wanted schema) layouts)
    (hmemo : schema.name ∉ memo) (hf : ∃ l ∈ layouts, l.table ∈ db.failing) :
    ∃ front back e left, layouts = front ++ back ∧ back ≠ [] ∧
      (s.upsert memo schema).on db = (.error e, left) ∧
        left.table? = supplied front db.table? := by
  rw [upsert_eq hmemo, Action.on_bind]
  by_cases hmembers : TableName.memberColumns schema.name ∈ db.failing
  · obtain ⟨l, hl, -⟩ := hf
    rw [tableExists_of_failing hmembers]
    exact ⟨[], layouts, _, db, rfl, List.ne_nil_of_mem hl, rfl, supplied_nil.symm⟩
  · obtain ⟨front, l, back, e, left, hlayouts, hon, -, htables⟩ := createMissing_interrupted hw hf
    refine ⟨front, l :: back, e, left, hlayouts, List.cons_ne_nil l back, ?_, htables⟩
    rw [tableExists_on hmembers]
    change Action.on (_ >>= _) db = _
    rw [Action.on_bind, hon]

/-- A part of the tables does not reach the last one. -/
theorem memberColumns_notMem_front
    (htables : (front ++ back).map TableLayout.table = TableName.all schema.name)
    (hback : back ≠ []) :
    TableName.memberColumns schema.name ∉ front.map TableLayout.table := by
  obtain ⟨others, last, rfl⟩ := (List.eq_nil_or_concat back).resolve_left hback
  have hnodup := TableName.nodup_all schema.name
  rw [List.map_append, List.map_concat, List.concat_eq_append, ← List.append_assoc] at htables
  obtain ⟨hothers, -⟩ := List.append_inj' htables rfl
  rw [TableName.all, ← hothers, List.nodup_append] at hnodup
  intro hmem
  exact hnodup.2.2 _ (List.mem_append_left _ hmem) _ (List.mem_singleton_self _) rfl

variable {outcome : UpsertOutcome} {done : Database}

/-- A run on a part of the tables ends as the run without them. -/
theorem upsert_of_supplied (h : schema.Accepted) (hmemo : schema.name ∉ memo)
    (hw : List.Forall₂ Creates (s.wanted schema) (front ++ back))
    (htables : (front ++ back).map TableLayout.table = TableName.all schema.name)
    (hback : back ≠ []) {db' : Database} (hf : db.failing = []) (hf' : db'.failing = [])
    (hsupplied : db'.table? = supplied front db.table?)
    (hok : (s.upsert memo schema).on db = (.ok (outcome, memo'), done)) :
    ∃ again ended, (s.upsert memo schema).on db' = (.ok (again, memo'), ended) ∧
      ended.table? = done.table? := by
  have hn : ((front ++ back).map TableLayout.table).Nodup :=
    htables ▸ TableName.nodup_all schema.name
  obtain ⟨db₁, hf₁, ht₁, hon₁⟩ := upsert_on hw hn hmemo hf
  obtain ⟨db₂, hf₂, ht₂, hon₂⟩ := upsert_on hw hn hmemo hf'
  -- Both runs find the table of member columns, or both do not.
  have hexisted : db'.table? (TableName.memberColumns schema.name) =
      db.table? (TableName.memberColumns schema.name) := by
    rw [hsupplied, supplied_of_notMem (memberColumns_notMem_front htables hback)]
  have hsame : db₂.table? = db₁.table? := by
    rw [ht₁, ht₂, hsupplied, supplied_append_supplied]
  rw [hexisted] at hon₂
  rw [hon₁] at hok
  obtain ⟨⟨sync, memo₁⟩, done₁, hfinish, hpure⟩ := Action.on_bind_eq_ok.1 hok
  cases hpure
  obtain ⟨ended, hagain, htables⟩ := (finish_local h _).again hfinish hsame fun _ _ => by
    rw [hf₁, hf₂]
  exact ⟨_, ended, hon₂.trans (Action.on_bind_eq_ok.2 ⟨_, _, hagain, rfl⟩), htables⟩

/-- Where none of its tables fails, an upsert does what it does without failing tables. -/
theorem upsert_of_cleared (h : schema.Accepted)
    (hf : ∀ name ∈ TableName.all schema.name, name ∉ db.failing)
    (hok : (s.upsert memo schema).on db.cleared = (.ok (outcome, memo'), done)) :
    ∃ left, (s.upsert memo schema).on db = (.ok (outcome, memo'), left) ∧
      left.table? = done.table? :=
  (upsert_local h memo).again hok rfl fun name hn => iff_of_false (hf name hn) List.not_mem_nil

end Synchronizer

namespace Session

def cleared (session : Session) : Session :=
  { session with database := session.database.cleared }

/-- An upsert would succeed if no table failed. If it fails, the type is not marked, and once the
tables fail no more a second run succeeds. In the end there are the tables of the run that nothing
interrupted, and the memo is the one of that run. -/
theorem upsert_retries {s : Synchronizer} {schema : Schema} {session done : Session}
    {outcome : UpsertOutcome} (h : schema.Accepted) (hmemo : schema.name ∉ session.memo)
    (hok : (upsert s schema).on session.cleared = (.ok outcome, done)) :
    (∃ left, (upsert s schema).on session = (.ok outcome, left) ∧
      left.database.table? = done.database.table? ∧ left.memo = done.memo) ∨
    ∃ e left, (upsert s schema).on session = (.error e, left) ∧ schema.name ∉ left.memo ∧
      ∃ again ended, (upsert s schema).on left.cleared = (.ok again, ended) ∧
        ended.database.table? = done.database.table? ∧ ended.memo = done.memo := by
  obtain ⟨db, memo⟩ := session
  obtain ⟨done, memo'⟩ := done
  have hthreads := upsert_threads s schema
  replace hok : (s.upsert memo schema).on db.cleared = (.ok (outcome, memo'), done) :=
    hthreads.on_eq_ok.1 hok
  by_cases hf : ∀ name ∈ TableName.all schema.name, name ∉ db.failing
  · obtain ⟨left, hon, htables⟩ := Synchronizer.upsert_of_cleared h hf hok
    exact .inl ⟨⟨left, memo'⟩, hthreads.on_eq_ok.2 hon, htables, rfl⟩
  · have hw := Synchronizer.creates_createdLayout (s := s) h
    have hall : ((s.wanted schema).map Synchronizer.createdLayout).map TableLayout.table =
      TableName.all schema.name := Synchronizer.tables_createdLayout
    have hfails : ∃ l ∈ (s.wanted schema).map Synchronizer.createdLayout,
        l.table ∈ db.failing := by
      rw [← hall, List.forall_mem_map] at hf
      simpa using hf
    obtain ⟨front, back, e, left, hparts, hback, hon, hsupplied⟩ :=
      Synchronizer.upsert_interrupted hw hmemo hfails
    rw [hparts] at hw hall
    replace hsupplied : left.cleared.table? = Synchronizer.supplied front db.cleared.table? :=
      hsupplied
    obtain ⟨again, ended, hagain, htables⟩ :=
      Synchronizer.upsert_of_supplied h hmemo hw hall hback rfl rfl hsupplied hok
    exact .inr ⟨e, ⟨left, memo⟩, hthreads.on_eq_error hon, hmemo, again, ⟨ended, memo'⟩,
      hthreads.on_eq_ok.2 hagain, htables, rfl⟩

/-- Orders have a body and no other table, and the table of dates fails. -/
theorem upsert_retries_of_orders :
    let schema : Schema := ⟨"Order", ⟨"Id", .identity⟩, [⟨"Total", .integer, none, false, false⟩]⟩
    let s : Synchronizer := ⟨.rowNumber, ColumnName.ofPath 128⟩
    let bodies : Table := ⟨["StructureId", "Json"], [[.integer 1, .string "a"]]⟩
    let session : Session :=
      ⟨{ tables := [("OrderStructure", bodies)], failing := ["OrderDates"] }, []⟩
    ∃ e left again ended, (upsert s schema).on session = (.error e, left) ∧ "Order" ∉ left.memo ∧
      (upsert s schema).on left.cleared = (.ok again, ended) ∧
      ended.database.table? "OrderStructure" = some bodies ∧
      ended.database.table? "OrderDates" = some ⟨["StructureId", "MemberPath", "Value"], []⟩ ∧
      ended.database.table? "OrderIndexes" = some ⟨["StructureId", "Total"], []⟩ ∧
      ended.memo = ["Order"] := by
  intro schema s bodies session
  have haccepted : schema.Accepted := by decide +kernel
  have hdefinable : ∀ c ∈ Definition.memberColumns s.naming schema, Definable c.name :=
    (ColumnName.isPlain_ofPath 128).definable_memberColumns haccepted
  have hmissing : session.database.cleared.table? (TableName.memberColumns schema.name) = none := by
    decide +kernel
  obtain ⟨done, hdone, -, htables⟩ := Synchronizer.upsert_supplies haccepted
    hdefinable (List.not_mem_nil : schema.name ∉ session.memo) (fun _ _ => List.not_mem_nil)
    hmissing
  have hok := (upsert_threads s schema).on_eq_ok.2 hdone
  have hdates : ∃ l ∈ (Layout.ofSchema s.naming schema).tables,
      l.table ∈ session.database.failing :=
    ⟨_, Layout.index_mem_tables _ .dates, List.mem_singleton_self _⟩
  obtain ⟨_, _, _, _, -, -, hfails, -⟩ := Synchronizer.upsert_interrupted
    (Synchronizer.creates_wanted haccepted hdefinable)
    (List.not_mem_nil : schema.name ∉ session.memo) hdates
  obtain ⟨left, hon, -⟩ | ⟨e, left, hon, hmark, again, ended, hagain, hended, hmemo⟩ :=
    upsert_retries haccepted List.not_mem_nil hok
  · cases hon.symm.trans ((upsert_threads s schema).on_eq_error hfails)
  · rw [htables] at hended
    refine ⟨e, left, again, ended, hon, hmark, hagain, ?_, ?_, ?_, hmemo⟩
    all_goals
      rw [hended]
      decide +kernel

end Session

end DocStore
