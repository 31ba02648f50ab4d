import DocStore.Proofs.Database.Filling
import DocStore.Proofs.Database.Written
import Mathlib.Logic.Function.Basic

/-!
# Effects of operations

What an operation does depends on the tables and on which of them fail, and it changes tables only.
`Action.Yields` says that an operation succeeds, with a result and the tables that it leaves; it is
put together from the parts of the operation by `Action.Yields.bind`.
-/

namespace DocStore

namespace Action

variable {α β : Type} {x : Action α} {f : α → Action β} {db : Database} {a : α} {b : β}
  {tables tables' : String → Option Table}

/-- The operation succeeds with the result and leaves the tables. -/
def Yields (x : Action α) (db : Database) (a : α) (tables : String → Option Table) : Prop :=
  ∃ db', x.on db = (.ok a, db') ∧ db'.failing = db.failing ∧ db'.table? = tables

theorem Yields.pure (a : α) (db : Database) : Yields (Pure.pure a) db a db.table? :=
  ⟨db, rfl, rfl, rfl⟩

theorem Yields.after {db' : Database} (hx : x.on db = (.ok a, db'))
    (hfail : db'.failing = db.failing) (hf : (f a).Yields db' b tables) :
    (x >>= f).Yields db b tables := by
  obtain ⟨db'', hf, hfail', htables⟩ := hf
  refine ⟨db'', ?_, hfail'.trans hfail, htables⟩
  rw [on_bind, hx]
  exact hf

theorem Yields.bind (hx : x.Yields db a tables)
    (hf : ∀ db', db'.failing = db.failing → db'.table? = tables → (f a).Yields db' b tables') :
    (x >>= f).Yields db b tables' := by
  obtain ⟨db', hx, hfail, htables⟩ := hx
  exact .after hx hfail (hf db' hfail htables)

theorem Yields.bind_pure (hx : x.Yields db a tables) (g : α → β) :
    (x >>= fun a => Pure.pure (g a)).Yields db (g a) tables := by
  refine hx.bind fun db' _ htables => ?_
  rw [← htables]
  exact .pure (g a) db'

theorem on_bind_eq_ok {db' : Database} :
    (x >>= f).on db = (.ok b, db') ↔
      ∃ a db₁, x.on db = (.ok a, db₁) ∧ (f a).on db₁ = (.ok b, db') := by
  rw [on_bind]
  rcases x.on db with ⟨_ | a, db₁⟩
  · exact ⟨nofun, fun ⟨_, _, h, _⟩ => nomatch h⟩
  · exact ⟨fun h => ⟨a, db₁, rfl, h⟩, fun ⟨_, _, h, hf⟩ => by cases h; exact hf⟩

/-- An operation has one outcome. -/
theorem Yields.eq_of_on {a' : α} {db' : Database} (h : x.Yields db a tables)
    (hon : x.on db = (.ok a', db')) :
    a' = a ∧ db'.failing = db.failing ∧ db'.table? = tables := by
  obtain ⟨_, hx, hfail, htables⟩ := h
  rw [hx] at hon
  cases hon
  exact ⟨rfl, hfail, htables⟩

theorem Yields.ofExcept {result : Except Error α} (h : result = .ok a) (db : Database) :
    (ofExcept result).Yields db a db.table? :=
  ⟨db, by rw [Action.ofExcept, on_of, h], rfl, rfl⟩

end Action

namespace Database

variable {db : Database} {name other : String} {t t' : Table} {command : Command}
  {columns : List String}

theorem lookup_putTable (tables : List (String × Table)) :
    (putTable name t tables).lookup other =
      if other = name then some t else tables.lookup other := by
  induction tables with
  | nil =>
    by_cases h : other = name
    · simp [putTable, h]
    · rw [putTable, Table.lookup_ne h, if_neg h]
  | cons entry tables ih =>
    obtain ⟨n, u⟩ := entry
    rw [putTable]
    by_cases hn : n = name
    · subst hn
      rw [if_pos rfl]
      by_cases h : other = n
      · simp [h]
      · rw [Table.lookup_ne h, Table.lookup_ne h, if_neg h]
    · rw [if_neg hn]
      by_cases h : other = n
      · subst h
        simp [hn]
      · rw [Table.lookup_ne h, Table.lookup_ne h, ih]

theorem table?_setTable (db : Database) (name : String) (t : Table) :
    (db.setTable name t).table? = Function.update db.table? name (some t) := by
  funext other
  rw [Function.update_apply]
  exact lookup_putTable db.tables

theorem check_of_notMem (h : name ∉ db.failing) : db.check name = .ok () :=
  if_neg h

theorem table_of_table? (hf : name ∉ db.failing) (ht : db.table? name = some t) :
    db.table name = .ok t := by
  rw [table, check_of_notMem hf, ht]
  rfl

theorem tableExists_on (hf : name ∉ db.failing) :
    (tableExists name).on db = (.ok (db.table? name).isSome, db) := by
  rw [tableExists, Action.on_of, check_of_notMem hf]
  rfl

theorem tableExists_of_failing (hf : name ∈ db.failing) :
    (tableExists name).on db = (.error (Error.tableUnavailable name), db) := by
  rw [tableExists, Action.on_of, check, if_pos hf]
  rfl

theorem columnNames_on (hf : name ∉ db.failing) (ht : db.table? name = some t) :
    (columnNames name).on db = (.ok t.columns, db) := by
  rw [columnNames, Action.on_of, table_of_table? hf ht]
  rfl

theorem tableExists_eq_ok {b : Bool} {db' : Database}
    (h : (tableExists name).on db = (.ok b, db')) :
    name ∉ db.failing ∧ b = (db.table? name).isSome ∧ db = db' := by
  by_cases hf : name ∈ db.failing
  · rw [tableExists_of_failing hf] at h
    cases h
  · rw [tableExists_on hf] at h
    cases h
    exact ⟨hf, rfl, rfl⟩

def applied (db : Database) (command : Command) : Except Error Nat × Database :=
  match Statement.ofText? command.sql with
  | some statement => db.apply command statement
  | none => (.ok 0, db)

theorem execute_on (db : Database) : (execute command).on db =
    match (db.applied command).1 with
    | .ok affected => (.ok affected, { (db.applied command).2 with
        executed := (db.applied command).2.executed ++ [command] })
    | .error e => (.error e, (db.applied command).2) :=
  rfl

theorem execute_yields {statement : Statement} {n : Nat} {db' : Database}
    (hs : Statement.ofText? command.sql = some statement)
    (ha : db.apply command statement = (.ok n, db')) (hfail : db'.failing = db.failing) :
    (execute command).Yields db n db'.table? := by
  refine ⟨{ db' with executed := db'.executed ++ [command] }, ?_, hfail, rfl⟩
  rw [execute, Action.on_of, hs]
  dsimp only
  rw [ha]

theorem create_yields (hs : Statement.ofText? command.sql = some (.create name columns))
    (hf : name ∉ db.failing) (hn : db.table? name = none) :
    (execute command).Yields db 0 (Function.update db.table? name (some ⟨columns, []⟩)) := by
  rw [← table?_setTable]
  refine execute_yields hs ?_ rfl
  rw [apply, check_of_notMem hf, hn]
  rfl

theorem dropColumns_yields (hs : Statement.ofText? command.sql = some (.dropColumns name columns))
    (hf : name ∉ db.failing) (ht : db.table? name = some t)
    (hd : t.dropColumns columns = (.ok (), t')) :
    (execute command).Yields db 0 (Function.update db.table? name (some t')) := by
  rw [← table?_setTable]
  refine execute_yields hs ?_ rfl
  rw [apply, table_of_table? hf ht]
  dsimp only
  rw [hd]
  rfl

theorem addColumns_yields (hs : Statement.ofText? command.sql = some (.addColumns name columns))
    (hf : name ∉ db.failing) (ht : db.table? name = some t)
    (ha : t.addColumns columns = (.ok (), t')) :
    (execute command).Yields db 0 (Function.update db.table? name (some t')) := by
  rw [← table?_setTable]
  refine execute_yields hs ?_ rfl
  rw [apply, table_of_table? hf ht]
  dsimp only
  rw [ha]
  rfl

/-- Columns that were added were not there. -/
theorem addColumns_eq_ok {n : Nat} {db' : Database}
    (hs : Statement.ofText? command.sql = some (.addColumns name columns))
    (hf : name ∉ db.failing) (ht : db.table? name = some t)
    (h : (execute command).on db = (.ok n, db')) :
    ∃ t', t.addColumns columns = (.ok (), t') ∧ db'.failing = db.failing ∧
      db'.table? = Function.update db.table? name (some t') := by
  rcases ha : t.addColumns columns with ⟨result, t'⟩
  cases result with
  | error e =>
    have hfailed : (execute command).on db = (.error e, db.setTable name t') := by
      rw [execute, Action.on_of, hs]
      dsimp only
      rw [apply, table_of_table? hf ht]
      dsimp only
      rw [ha]
      rfl
    rw [hfailed] at h
    cases h
  | ok _ => exact ⟨t', rfl, ((addColumns_yields hs hf ht ha).eq_of_on h).2⟩

theorem delete_yields {column parameter : String} {i : Nat} {rows : List (List Value)}
    (hs : Statement.ofText? command.sql = some (.delete name column parameter))
    (hf : name ∉ db.failing) (ht : db.table? name = some t) (hi : t.ordinal? column = some i)
    (hr : t.rowsWithout i ((command.param? parameter).getD .null) = rows) :
    (execute command).Yields db (t.rows.length - rows.length)
      (Function.update db.table? name (some ⟨t.columns, rows⟩)) := by
  rw [← table?_setTable]
  refine execute_yields hs ?_ rfl
  rw [apply, table_of_table? hf ht]
  simp only [bind, Except.bind, Table.ordinal_of_ordinal? hi, pure, Except.pure, hr]

/-- A row is inserted with the values of the parameters under the columns. -/
theorem insert_yields {sql : Sql} {values : List Value}
    (hs : Statement.ofText? (Command.ofValues sql values).sql =
      some (.insert name columns ((List.range values.length).map parameterName)))
    (hf : name ∉ db.failing) (ht : db.table? name = some t) (hc : ∀ c ∈ columns, c ∈ t.columns) :
    (execute (Command.ofValues sql values)).Yields db 1 (Function.update db.table? name
      (some ⟨t.columns, t.rows ++ [t.filled (columns.zip values)]⟩)) := by
  have hp : ∀ p ∈ columns.zip values, p.1 ∈ t.columns := fun p h => hc _ (List.of_mem_zip h).1
  rw [← table?_setTable]
  refine execute_yields hs ?_ rfl
  rw [apply, table_of_table? hf ht]
  simp only [Command.values_numbered, bind, Except.bind, Table.fillRow_emptyRow hp, pure,
    Except.pure]

end Database

namespace RowSource

variable {source : RowSource} {t : Table}

def Readable (source : RowSource) : Prop :=
  ∀ row ∈ source.rows, ∀ i < source.fieldCount, ∃ v, row i = .ok v

def field (row : Nat → Except Error Value) (i : Nat) : Value :=
  match row i with
  | .ok v => v
  | .error _ => .null

def cells (source : RowSource) : List (List Value) :=
  source.rows.map fun row => (List.range source.fieldCount).map (field row)

theorem Readable.field (h : source.Readable) {row : Nat → Except Error Value}
    (hr : row ∈ source.rows) {i : Nat} (hi : i < source.fieldCount) :
    row i = .ok (RowSource.field row i) := by
  obtain ⟨v, hv⟩ := h row hr i hi
  rw [RowSource.field, hv]

def rowsIn (source : RowSource) (t : Table) : List (List Value) :=
  source.cells.map fun values => t.filled (source.layout.columns.zip values)

theorem map_zipIdx (columns : List String) (value : Nat → Value) :
    (columns.zipIdx.map fun c => (c.2, c.1)).map (fun m => (m.2, value m.1)) =
      columns.zip ((List.range columns.length).map value) := by
  refine List.ext_getElem (by simp) fun i h h' => ?_
  simp

theorem copyRow_eq (h : source.Readable) {row : Nat → Except Error Value} (hr : row ∈ source.rows)
    {name : String} {ordinals : List (Nat × Nat)}
    (hm : t.mapped name source.mappings = .ok ordinals)
    (hc : ∀ c ∈ source.layout.columns, c ∈ t.columns) :
    Table.copyRow t.emptyRow row ordinals =
      .ok (t.filled (source.layout.columns.zip
        ((List.range source.fieldCount).map (RowSource.field row)))) := by
  have hv : ∀ m ∈ source.mappings, row m.1 = .ok (RowSource.field row m.1) := by
    intro m hmem
    obtain ⟨c, hcol, rfl⟩ := List.mem_map.1 hmem
    exact h.field hr (List.snd_lt_of_mem_zipIdx hcol)
  rw [Table.copyRow_eq hm hv, mappings, map_zipIdx]
  exact Table.fillRow_emptyRow fun p hp => hc _ (List.of_mem_zip hp).1

end RowSource

namespace Database

variable {db : Database} {source : RowSource} {t : Table}

theorem copied_eq {name : String} (hf : name ∉ db.failing) (ht : db.table? name = some t)
    (hr : source.Readable) (hc : ∀ c ∈ source.layout.columns, c ∈ t.columns) :
    db.copied name source.mappings source =
      .ok (⟨t.columns, t.rows ++ source.rowsIn t⟩, source.rows.length) := by
  have hm : ∀ m ∈ source.mappings, m.2 ∈ t.columns := by
    intro m hm
    obtain ⟨c, hcol, rfl⟩ := List.mem_map.1 hm
    exact hc _ (List.fst_mem_of_mem_zipIdx hcol)
  obtain ⟨ordinals, ho⟩ := Table.mapped_eq name hm
  have hrows : source.rows.mapM (fun row => Table.copyRow t.emptyRow row ordinals) =
      .ok (source.rowsIn t) := by
    rw [mapM_eq_ok fun row hrow => RowSource.copyRow_eq hr hrow ho hc, RowSource.rowsIn,
      RowSource.cells, List.map_map]
    rfl
  rw [copied, table_of_table? hf ht]
  simp only [bind, Except.bind, ho, hrows]
  rw [RowSource.rowsIn, RowSource.cells, List.length_map, List.length_map]

theorem bulkCopy_yields {name : String} (hf : name ∉ db.failing) (ht : db.table? name = some t)
    (hr : source.Readable) (hc : ∀ c ∈ source.layout.columns, c ∈ t.columns) (batchSize : Nat) :
    (bulkCopy name source.mappings source batchSize).Yields db source.rows.length
      (Function.update db.table? name (some ⟨t.columns, t.rows ++ source.rowsIn t⟩)) := by
  rw [← table?_setTable]
  let count := source.rows.length
  refine ⟨{ db.setTable name _ with
    bulkCopies := db.bulkCopies ++ [⟨name, count, batches count batchSize⟩] }, ?_, rfl, rfl⟩
  rw [bulkCopy, Action.on_of, copied_eq hf ht hr hc]
  rfl

end Database

end DocStore
