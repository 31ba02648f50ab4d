import DocStore.Proofs.Database.Effects
import DocStore.Proofs.Schema.Names
import DocStore.Sync.Plan

/-!
# Pruning unique rows

Unique rows are obsolete when their path is a string that is not the path of a unique member. A
plan names the obsolete paths that are stored, and its deletions leave the rows that are not
obsolete (`uniqueCommands_yields` with `withoutPaths_obsolete`).
-/

namespace DocStore

open Table (under)

namespace Database

variable {db : Database} {command : Command} {rest : List Command} {m : Nat} {name : String}
  {t : Table} {tables tables' : String → Option Table}

theorem executeBatch_nil (db : Database) : (executeBatch []).Yields db 0 db.table? :=
  .pure 0 db

theorem executeBatch_after {db' : Database} {n : Nat}
    (hx : (execute command).on db = (.ok m, db')) (hfail : db'.failing = db.failing)
    (hy : (executeBatch rest).Yields db' n tables) :
    (executeBatch (command :: rest)).Yields db (m + n) tables := by
  refine .after hx hfail (hy.bind_pure _)

theorem executeBatch_cons (hx : (execute command).Yields db m tables)
    (hy : ∀ db', db'.failing = db.failing → db'.table? = tables →
      ∃ n, (executeBatch rest).Yields db' n tables') :
    ∃ n, (executeBatch (command :: rest)).Yields db n tables' := by
  obtain ⟨db', hon, hfail, htables⟩ := hx
  obtain ⟨n, hrest⟩ := hy db' hfail htables
  exact ⟨m + n, executeBatch_after hon hfail hrest⟩

theorem update_self (ht : db.table? name = some t) :
    Function.update db.table? name (some t) = db.table? := by
  rw [← ht, Function.update_eq_self]

end Database

theorem Value.same_string {v : Value} {s : String} : v.same (.string s) = true ↔ v = .string s := by
  cases v <;> simp [Value.same]

namespace Table

variable {u : Table} {row : List Value} {c : String} {i : Nat}

theorem mem_distinct {seen values : List Value} {s : String} :
    .string s ∈ distinct seen values ↔ .string s ∈ values ∧ .string s ∉ seen := by
  induction values generalizing seen with
  | nil => simp [distinct]
  | cons v values ih =>
    have hseen : (seen.any fun w => w.same (.string s)) = true ↔ .string s ∈ seen := by
      simp [List.any_eq_true, Value.same_string]
    rw [distinct]
    by_cases hv : v = .string s
    · subst hv
      split
      · next h => simp [ih, hseen.1 h]
      · next h => simpa using fun hs => h (hseen.2 hs)
    · have hne : Value.string s ≠ v := Ne.symm hv
      split
      · simp [ih, hne]
      · simp [ih, hne]

theorem under_of_ordinal? (h : u.ordinal? c = some i) : under u.columns row c = cell row i := by
  rw [ordinal?] at h
  rw [under, h]

end Table

def Schema.isObsolete (schema : Schema) (path : Value) : Bool :=
  match path with
  | .string s => !(schema.uniqueAccessors.map Accessor.path).contains s
  | _ => false

def pruned (schema : Schema) (u : Table) : Table :=
  ⟨u.columns, u.rows.filter fun row =>
    !schema.isObsolete (under u.columns row Column.uniqueMemberPath)⟩

def storedPaths (u : Table) : List Value :=
  Table.distinct [] (u.rows.map fun row => under u.columns row Column.uniqueMemberPath)

def withoutPaths (paths : List String) (u : Table) : Table :=
  ⟨u.columns, u.rows.filter fun row =>
    paths.all fun path => !(under u.columns row Column.uniqueMemberPath).same (.string path)⟩

namespace Synchronizer

variable {schema : Schema} {u : Table} {path : String}

theorem mem_obsolete {stored : List Value} :
    path ∈ obsolete schema stored ↔
      .string path ∈ stored ∧ schema.isObsolete (.string path) = true := by
  have hstring : ∀ v : Value, v.string? = some path ↔ v = .string path := by
    intro v
    cases v <;> simp [Value.string?]
  simp [obsolete, List.mem_filter, List.mem_filterMap, hstring, Schema.isObsolete]

/-- Deleting the obsolete paths that are stored leaves no obsolete row, and deletes no other. -/
theorem withoutPaths_obsolete (schema : Schema) (u : Table) :
    withoutPaths (obsolete schema (storedPaths u)) u = pruned schema u := by
  refine congrArg (Table.mk u.columns) (List.filter_congr fun row hrow => ?_)
  have hmem : under u.columns row Column.uniqueMemberPath ∈
      u.rows.map fun row => under u.columns row Column.uniqueMemberPath :=
    List.mem_map_of_mem hrow
  rw [Bool.eq_iff_iff, List.all_eq_true]
  simp only [Bool.not_eq_true', Bool.eq_false_iff, ne_eq, Value.same_string]
  constructor
  · intro h hobsolete
    cases hv : under u.columns row Column.uniqueMemberPath with
    | string s =>
      rw [hv] at hmem hobsolete
      refine h s (mem_obsolete.2 ⟨?_, hobsolete⟩) hv
      exact Table.mem_distinct.2 ⟨hmem, List.not_mem_nil⟩
    | _ =>
      rw [hv] at hobsolete
      cases hobsolete
  · intro h path hpath hv
    exact h (hv ▸ (mem_obsolete.1 hpath).2)

/-- A pruned table has no obsolete path. -/
theorem obsolete_pruned (schema : Schema) (u : Table) :
    obsolete schema (storedPaths (pruned schema u)) = [] := by
  refine List.eq_nil_iff_forall_not_mem.2 fun path hpath => ?_
  obtain ⟨hstored, hobsolete⟩ := mem_obsolete.1 hpath
  obtain ⟨row, hrow, hv⟩ := List.mem_map.1 (Table.mem_distinct.1 hstored).1
  have hkeep := List.of_mem_filter hrow
  change under u.columns row Column.uniqueMemberPath = .string path at hv
  rw [hv, hobsolete] at hkeep
  cases hkeep

variable {db : Database}

/-- The paths that a plan deletes; without a table of uniques there are none. -/
def obsoletePaths (schema : Schema) (uniques : Option Table) : List String :=
  match uniques with
  | some u => obsolete schema (storedPaths u)
  | none => []

theorem obsoleteUniques_on (hq : Quotable (TableName.uniques schema.name))
    (hf : TableName.uniques schema.name ∉ db.failing)
    (hc : ∀ u, db.table? (TableName.uniques schema.name) = some u →
      Column.uniqueMemberPath ∈ u.columns) :
    (obsoleteUniques schema).on db =
      (.ok (obsoletePaths schema (db.table? (TableName.uniques schema.name))), db) := by
  rw [obsoleteUniques, Action.on_bind, Database.tableExists_on hf]
  cases hu : db.table? (TableName.uniques schema.name) with
  | none => rfl
  | some u =>
    obtain ⟨i, hi⟩ := Table.ordinal?_of_mem (hc u hu)
    have hselected :
        db.selected (Definition.storedUniquePaths (TableName.uniques schema.name)).sql =
          .ok (storedPaths u) := by
      rw [Database.selected, Statement.selectDistinct?_storedUniquePaths hq]
      simp only [bind, Except.bind, Database.table_of_table? hf hu, Table.ordinal_of_ordinal? hi,
        storedPaths, Table.under_of_ordinal? hi]
    change (_ >>= _ : Action (List String)).on db = _
    rw [Action.on_bind, Database.queryColumn, Action.on_of, hselected]
    rfl

end Synchronizer

namespace SyncPlan

variable {db : Database} {name : String} {u : Table}

theorem deleteUniqueRows_yields (hq : Quotable name) (hf : name ∉ db.failing)
    (hu : db.table? name = some u) (hc : Column.uniqueMemberPath ∈ u.columns) (path : String) :
    ∃ m, (Database.execute (Definition.deleteUniqueRows name path)).Yields db m
      (Function.update db.table? name (some (withoutPaths [path] u))) := by
  obtain ⟨i, hi⟩ := Table.ordinal?_of_mem hc
  have hrows : u.rowsWithout i
      (((Definition.deleteUniqueRows name path).param? "@p0").getD .null) =
        (withoutPaths [path] u).rows := by
    have hname : parameterName 0 = "@p0" := by decide
    have hparam : (Definition.deleteUniqueRows name path).param? "@p0" = some (.string path) := by
      simp [Command.param?, Definition.deleteUniqueRows, Command.ofValues, Command.numbered, hname]
    simp [Table.rowsWithout, withoutPaths, hparam, Table.under_of_ordinal? hi]
  exact ⟨_, Database.delete_yields (Statement.ofText?_deleteUniqueRows hq path) hf hu hi hrows⟩

theorem withoutPaths_cons (path : String) (paths : List String) (u : Table) :
    withoutPaths paths (withoutPaths [path] u) = withoutPaths (path :: paths) u := by
  simp [withoutPaths, List.filter_filter, Bool.and_comm]

/-- The deletions of a plan leave the rows of other paths. -/
theorem uniqueCommands_yields {plan : SyncPlan} (hq : Quotable name) (hf : name ∉ db.failing)
    (hu : db.table? name = some u) (hc : Column.uniqueMemberPath ∈ u.columns) :
    ∃ n, (Database.executeBatch (plan.uniqueCommands name)).Yields db n
      (Function.update db.table? name (some (withoutPaths plan.obsoleteUniques u))) := by
  rw [uniqueCommands]
  induction plan.obsoleteUniques generalizing db u with
  | nil =>
    have hsame : withoutPaths [] u = u := by simp [withoutPaths]
    refine ⟨0, ?_⟩
    rw [hsame, Database.update_self hu]
    exact Database.executeBatch_nil db
  | cons path paths ih =>
    obtain ⟨m, db', hon, hfail, htables⟩ := deleteUniqueRows_yields hq hf hu hc path
    have hu' : db'.table? name = some (withoutPaths [path] u) := by
      rw [htables, Function.update_self]
    obtain ⟨n, hrest⟩ := ih (hfail ▸ hf) hu' hc
    rw [htables, Function.update_idem, withoutPaths_cons] at hrest
    exact ⟨m + n, Database.executeBatch_after hon hfail hrest⟩

end SyncPlan

end DocStore
