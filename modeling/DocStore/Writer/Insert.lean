import DocStore.Config
import DocStore.Sql.Definition
import DocStore.Writer.Rows

/-!
# Writing structures

A batch of structures is written group by group, one group per table: bodies, the index tables,
uniques and member columns. A group of one row is inserted by a statement, a larger one is copied.
The first group that fails ends the writing.
-/

namespace DocStore

structure GroupWrite where
  table : String
  rows : Nat
  /-- The group was copied rather than inserted. -/
  streamed : Bool
  deriving DecidableEq, Inhabited

structure WriteStats where
  structures : Nat
  groups : List GroupWrite
  deriving DecidableEq, Inhabited

namespace WriteStats

def group? (stats : WriteStats) (table : String) : Option GroupWrite :=
  stats.groups.find? fun g => g.table = table

def rows (stats : WriteStats) : Nat :=
  stats.groups.foldr (fun g total => g.rows + total) 0

def streamed (stats : WriteStats) : Nat :=
  (stats.groups.filter GroupWrite.streamed).length

end WriteStats

structure Writer where
  naming : ColumnNaming
  batchSize : Nat
  maxLength : Nat

namespace Writer

def ofConfig (c : Config) : Writer :=
  ⟨ColumnName.ofPath c.identifierLength, max c.batchSize 1, c.stringMax⟩

/-- The entries of an index table; members without a value have no row. -/
def entriesOf (t : IndexTable) (structures : List Structure) : List IndexEntry :=
  (structures.flatMap Structure.indexes).filter fun entry =>
    entry.table = t && !entry.value.isNull

def indexGroup (w : Writer) (layout : Layout) (structures : List Structure) (t : IndexTable) :
    List RowSource :=
  match entriesOf t structures with
  | [] => []
  | entries => [Rows.indexes (layout.index t) w.maxLength entries]

def uniqueGroup (w : Writer) (layout : Layout) (structures : List Structure) : List RowSource :=
  match structures.flatMap Structure.uniques with
  | [] => []
  | entries => [Rows.uniques layout.uniques w.maxLength entries]

def groups (w : Writer) (layout : Layout) (schema : Schema) (structures : List Structure) :
    List RowSource :=
  Rows.bodies layout.body structures ::
    IndexTable.all.flatMap (w.indexGroup layout structures) ++
    w.uniqueGroup layout structures ++
    if schema.accessors.isEmpty then []
    else [Rows.memberColumns layout w.maxLength structures]

def firstRow (source : RowSource) : Except Error (List Value) :=
  match source.rows with
  | [] => (List.range source.fieldCount).mapM fun _ => .error Error.notOnRow
  | row :: _ => (List.range source.fieldCount).mapM row

def insertOne (source : RowSource) : Action Nat := do
  let values ← Action.ofExcept (firstRow source)
  Database.execute (Definition.insertRow source.table source.layout.columns values)

def writeGroup (w : Writer) (source : RowSource) : Action GroupWrite := do
  let count := source.rows.length
  if 1 < count then
    let _ ← Database.bulkCopy source.table source.mappings source w.batchSize
    pure ⟨source.table, count, true⟩
  else
    let _ ← insertOne source
    pure ⟨source.table, count, false⟩

def writeGroups (w : Writer) : List RowSource → Action (List GroupWrite)
  | [] => pure []
  | source :: rest => do
    let first ← w.writeGroup source
    let others ← w.writeGroups rest
    pure (first :: others)

def insert (w : Writer) (cache : LayoutCache) (schema : Schema) (structures : List Structure) :
    Action WriteStats × LayoutCache :=
  if structures.isEmpty then (pure ⟨0, []⟩, cache)
  else
    let ((_, layout), cache) := cache.getOrCreate w.naming schema
    (do
      let written ← w.writeGroups (w.groups layout schema structures)
      pure ⟨structures.length, written⟩, cache)

end Writer

end DocStore
