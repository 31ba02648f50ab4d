import DocStore.Schema.Layout
import DocStore.Sql.Dialect

/-!
# Statements that define and change tables

The statements that create the tables of a structure type, add and drop member columns, prune
unique rows and insert single rows.
-/

namespace DocStore

structure ColumnDefinition where
  name : String
  family : Family
  deriving DecidableEq, Inhabited

namespace Definition

def memberColumns (naming : ColumnNaming) (schema : Schema) : List ColumnDefinition :=
  schema.accessors.map fun a => ⟨naming a.path, a.storageFamily⟩

def idType (schema : Schema) : String :=
  match schema.id.kind with
  | .identity => "bigint"
  | .guid => "uniqueidentifier"

def column (name type : String) : Sql :=
  [.name name, .raw (" " ++ type)]

def createTable (table : String) (definitions : List Sql) : Command :=
  Command.ofSql (.raw "create table " :: .name table :: .raw " (" ::
    Sql.join ", " definitions ++ [.raw ")"])

def createBody (schema : Schema) (layout : Layout) : Command :=
  createTable layout.body.table
    [column Column.structureId (idType schema ++ " not null primary key"),
      column Column.json "nvarchar(max) not null"]

def uniqueConstraint : Sql :=
  .raw "unique (" ::
    Sql.names [Column.uniqueStructureId, Column.uniqueMemberPath, Column.uniqueValue] ++ [.raw ")"]

def createUniques (schema : Schema) (layout : Layout) : Command :=
  createTable layout.uniques.table
    [column Column.structureId (idType schema ++ " not null"),
      column Column.uniqueStructureId (idType schema ++ " null"),
      column Column.uniqueMemberPath "nvarchar(300) not null",
      column Column.uniqueValue "nvarchar(300) not null", uniqueConstraint]

/-- Tables of strings hold the indexed part in the value column and the whole beside it. -/
def valueType (dialect : Dialect) (t : IndexTable) : String :=
  dialect.columnType (if t.hasStringValue then .string else t.valueFamily)

def createIndex (dialect : Dialect) (schema : Schema) (layout : Layout) (t : IndexTable) :
    Command :=
  createTable (layout.index t).table
    ([column Column.structureId (idType schema ++ " not null"),
        column Column.memberPath "nvarchar(300) not null",
        column Column.value (valueType dialect t ++ " null")] ++
      if t.hasStringValue then [column Column.stringValue "nvarchar(max) null"] else [])

def sparse (dialect : Dialect) (c : ColumnDefinition) : Sql :=
  column c.name (dialect.columnType c.family ++ " sparse null")

def createMemberColumns (dialect : Dialect) (schema : Schema) (layout : Layout)
    (columns : List ColumnDefinition) : Command :=
  createTable layout.memberColumns.table
    (column Column.structureId (idType schema ++ " not null primary key") ::
      columns.map (sparse dialect))

def addColumns (dialect : Dialect) (table : String) (columns : List ColumnDefinition) : Command :=
  Command.ofSql (.raw "alter table " :: .name table :: .raw " add " ::
    Sql.join ", " (columns.map (sparse dialect)))

def dropColumns (table : String) (columns : List String) : Command :=
  Command.ofSql (.raw "alter table " :: .name table :: .raw " drop column " :: Sql.names columns)

def storedUniquePaths (table : String) : Command :=
  Command.ofSql [.raw "select distinct ", .name Column.uniqueMemberPath, .raw " from ", .name table]

def deleteUniqueRows (table path : String) : Command :=
  Command.ofValues [.raw "delete from ", .name table, .raw " where ",
    .name Column.uniqueMemberPath, .raw " = ", .parameter 0] [.string path]

def insertRow (table : String) (columns : List String) (values : List Value) : Command :=
  Command.ofValues (.raw "insert into " :: .name table :: .raw " (" :: Sql.names columns ++
    .raw ") values (" ::
      Sql.join ", " ((List.range values.length).map fun number => [Piece.parameter number]) ++
    [.raw ")"]) values

end Definition

end DocStore
