import DocStore.Config
import DocStore.Database.Basic
import DocStore.Sql.Definition

/-!
# Synchronizing schemas

When the schema of a structure type changes, its member columns and unique rows have to follow. A
`SyncPlan` is the difference between schema and database; a synchronizer computes and applies it
once per type, which a `SyncMemo` remembers.
-/

namespace DocStore

abbrev SyncMemo := List String

namespace SyncMemo

def isSynced (memo : SyncMemo) (name : String) : Bool :=
  name ∈ memo

theorem isSynced_iff {memo : SyncMemo} {name : String} :
    memo.isSynced name = true ↔ name ∈ memo :=
  decide_eq_true_iff

def mark (memo : SyncMemo) (name : String) : SyncMemo :=
  name :: memo

def forget (memo : SyncMemo) (name : String) : SyncMemo :=
  memo.filter fun other => other ≠ name

end SyncMemo

structure SyncPlan where
  drop : List String := []
  add : List ColumnDefinition := []
  /-- Paths with unique rows that are not unique members any more. -/
  obsoleteUniques : List String := []
  deriving DecidableEq, Inhabited

namespace SyncPlan

def isEmpty (plan : SyncPlan) : Bool :=
  plan.drop.isEmpty && plan.add.isEmpty && plan.obsoleteUniques.isEmpty

def columnCommands (plan : SyncPlan) (dialect : Dialect) (table : String) : List Command :=
  (if plan.drop.isEmpty then [] else [Definition.dropColumns table plan.drop]) ++
    if plan.add.isEmpty then [] else [Definition.addColumns dialect table plan.add]

def uniqueCommands (plan : SyncPlan) (table : String) : List Command :=
  plan.obsoleteUniques.map (Definition.deleteUniqueRows table)

def ofColumns (physical : List String) (logical : List ColumnDefinition)
    (obsoleteUniques : List String) : SyncPlan :=
  let members := physical.filter fun c => c ≠ Column.structureId
  ⟨members.filter fun c => !(logical.map ColumnDefinition.name).contains c,
    logical.filter fun c => !members.contains c.name, obsoleteUniques⟩

end SyncPlan

structure Synchronizer where
  dialect : Dialect
  naming : ColumnNaming

namespace Synchronizer

def ofConfig (c : Config) : Synchronizer :=
  ⟨c.dialect, ColumnName.ofPath c.identifierLength⟩

/-- The stored paths of values that are strings and belong to no unique member. -/
def obsolete (schema : Schema) (stored : List Value) : List String :=
  (stored.filterMap Value.string?).filter fun path =>
    !(schema.uniqueAccessors.map Accessor.path).contains path

def obsoleteUniques (schema : Schema) : Action (List String) := do
  let table := TableName.uniques schema.name
  if ← Database.tableExists table then
    let stored ← Database.queryColumn (Definition.storedUniquePaths table)
    pure (obsolete schema stored)
  else pure []

def plan (s : Synchronizer) (schema : Schema) : Action SyncPlan := do
  let physical ← Database.columnNames (TableName.memberColumns schema.name)
  let uniques ← obsoleteUniques schema
  pure (SyncPlan.ofColumns physical (Definition.memberColumns s.naming schema) uniques)

def apply (s : Synchronizer) (schema : Schema) (plan : SyncPlan) : Action Unit := do
  let _ ← Database.executeBatch
    (plan.columnCommands s.dialect (TableName.memberColumns schema.name))
  let _ ← Database.executeBatch (plan.uniqueCommands (TableName.uniques schema.name))
  pure ()

/-- Brings the database in line with the schema, unless that was done before. A type without a
table of member columns is left alone. -/
def synchronize (s : Synchronizer) (memo : SyncMemo) (schema : Schema) :
    Action (SyncPlan × SyncMemo) := do
  if memo.isSynced schema.name then pure ({}, memo)
  else if ← Database.tableExists (TableName.memberColumns schema.name) then
    let plan ← s.plan schema
    s.apply schema plan
    pure (plan, memo.mark schema.name)
  else pure ({}, memo)

end Synchronizer

end DocStore
