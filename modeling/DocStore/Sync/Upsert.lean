import DocStore.Sync.Plan

/-!
# Creating the tables of a structure type

`Synchronizer.upsert` creates those of a type's ten tables that are missing. Where the table of
member columns was there before, the type is synchronized; a new one fits the schema.
-/

namespace DocStore

structure UpsertOutcome where
  created : List String := []
  sync : SyncPlan := {}
  deriving DecidableEq, Inhabited

namespace Synchronizer

/-- The tables of a type with the statements that create them, in the order of creation. -/
def wanted (s : Synchronizer) (schema : Schema) : List (String × Command) :=
  let layout := Layout.ofSchema s.naming schema
  (layout.body.table, Definition.createBody schema layout) ::
    (layout.uniques.table, Definition.createUniques schema layout) ::
    (IndexTable.all.map fun t =>
      ((layout.index t).table, Definition.createIndex s.dialect schema layout t)) ++
    [(layout.memberColumns.table, Definition.createMemberColumns s.dialect schema layout
      (Definition.memberColumns s.naming schema))]

def createMissing : List (String × Command) → Action (List String)
  | [] => pure []
  | (table, command) :: rest => do
    if ← Database.tableExists table then createMissing rest
    else
      let _ ← Database.execute command
      let others ← createMissing rest
      pure (table :: others)

def upsert (s : Synchronizer) (memo : SyncMemo) (schema : Schema) :
    Action (UpsertOutcome × SyncMemo) := do
  if memo.isSynced schema.name then pure ({}, memo)
  else
    let existed ← Database.tableExists (TableName.memberColumns schema.name)
    let created ← createMissing (s.wanted schema)
    if existed then
      let (sync, memo) ← s.synchronize memo schema
      pure (⟨created, sync⟩, memo)
    else pure (⟨created, {}⟩, memo.mark schema.name)

end Synchronizer

end DocStore
