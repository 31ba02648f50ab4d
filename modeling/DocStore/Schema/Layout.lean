import DocStore.Schema.Basic
import DocStore.Schema.ColumnName

/-!
# Table layouts

Every structure type has ten tables: bodies, uniques, seven index tables and one row of member
columns per structure. A `Layout` holds the names of their columns in order. A `LayoutCache` keeps
one layout per structure name and replaces it when it no longer describes the schema.
-/

namespace DocStore

namespace Column

def structureId : String := "StructureId"
def json : String := "Json"
def uniqueStructureId : String := "UqStructureId"
def uniqueMemberPath : String := "UqMemberPath"
def uniqueValue : String := "UqValue"
def memberPath : String := "MemberPath"
def value : String := "Value"
def stringValue : String := "StringValue"
def rowNumber : String := "RowNum"

end Column

namespace TableName

def body (structureName : String) : String := structureName ++ "Structure"
def uniques (structureName : String) : String := structureName ++ "Uniques"
def index (structureName : String) (t : IndexTable) : String := structureName ++ t.suffix
def memberColumns (structureName : String) : String := structureName ++ "Indexes"

end TableName

structure TableLayout where
  table : String
  columns : List String
  deriving DecidableEq, Inhabited

namespace TableLayout

/-- The position of a column; of equal names the last. -/
def ordinal? (layout : TableLayout) (column : String) : Option Nat :=
  (layout.columns.zipIdx.filter fun c => c.1 = column).getLast?.map Prod.snd

end TableLayout

/-- The member behind one column, and whether its values are cut to a length. -/
structure MemberField where
  path : String
  bounded : Bool
  deriving DecidableEq, Inhabited

/-- The layouts of a structure type's tables. The `n`-th member fills the column after the `n`-th
of `memberColumns`, the first being the identity. -/
structure Layout where
  body : TableLayout
  uniques : TableLayout
  index : IndexTable → TableLayout
  memberColumns : TableLayout
  members : List MemberField

namespace Layout

def indexColumns (t : IndexTable) : List String :=
  [Column.structureId, Column.memberPath, Column.value] ++
    if t.hasStringValue then [Column.stringValue] else []

def ofSchema (naming : ColumnNaming) (schema : Schema) : Layout where
  body := ⟨TableName.body schema.name, [Column.structureId, Column.json]⟩
  uniques := ⟨TableName.uniques schema.name,
    [Column.structureId, Column.uniqueStructureId, Column.uniqueMemberPath, Column.uniqueValue]⟩
  index := fun t => ⟨TableName.index schema.name t, indexColumns t⟩
  memberColumns := ⟨TableName.memberColumns schema.name,
    Column.structureId :: schema.accessors.map fun a => naming a.path⟩
  members := schema.accessors.map fun a => ⟨a.path, a.bounded⟩

def describes (layout : Layout) (schema : Schema) : Bool :=
  layout.members = schema.accessors.map fun a => ⟨a.path, a.bounded⟩

end Layout

/-- One layout per structure name. Every layout that is built gets the next serial number, so that
two answers share a layout exactly when they share its number. -/
structure LayoutCache where
  entries : List (String × Nat × Layout) := []
  built : Nat := 0

namespace LayoutCache

def empty : LayoutCache := ⟨[], 0⟩

def size (cache : LayoutCache) : Nat :=
  cache.entries.length

def find? (cache : LayoutCache) (name : String) : Option (Nat × Layout) :=
  cache.entries.lookup name

def put (name : String) (entry : Nat × Layout) :
    List (String × Nat × Layout) → List (String × Nat × Layout)
  | [] => [(name, entry)]
  | other :: rest => if other.1 = name then (name, entry) :: rest else other :: put name entry rest

/-- The layout of a schema: the kept one if it still describes the schema, else a new one. -/
def getOrCreate (cache : LayoutCache) (naming : ColumnNaming) (schema : Schema) :
    (Nat × Layout) × LayoutCache :=
  let create :=
    let entry := (cache.built, Layout.ofSchema naming schema)
    (entry, ⟨put schema.name entry cache.entries, cache.built + 1⟩)
  match cache.find? schema.name with
  | some entry => if entry.2.describes schema then (entry, cache) else create
  | none => create

end LayoutCache

end DocStore
