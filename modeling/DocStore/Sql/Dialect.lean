import DocStore.Query.Paging
import DocStore.Sql.Text

/-!
# Dialects

What differs between database engines, and what a statement needs that all of them share: column
types, limits and paging. One dialect numbers the rows of a window and picks those of the page, the
other skips and fetches rows.
-/

namespace DocStore

inductive Dialect where
  | rowNumber
  | offsetFetch
  deriving DecidableEq, Repr, Inhabited

structure SelectParts where
  columns : Sql
  /-- The names under which the columns appear in the result. -/
  outputs : List String
  source : Sql
  filter : Sql
  orderBy : Sql

namespace Dialect

def maxIdentifierLength : Dialect → Nat
  | _ => 128

def columnType : Dialect → Family → String
  | _, .integer => "bigint"
  | _, .fractal => "float"
  | _, .boolean => "bit"
  | _, .dateTime => "datetime2"
  | _, .guid => "uniqueidentifier"
  | _, .string | _, .enum => "nvarchar(300)"
  | _, .text => "nvarchar(max)"

def limit : Dialect → Nat → Sql
  | _, count => [.raw ("top(" ++ count.repr ++ ") ")]

def existence : Dialect → Sql → Sql
  | _, inner => .raw "select case when exists (" :: inner ++ [.raw ") then 1 else 0 end"]

def rowValue (n : Nat) : Value :=
  .integer (Int64.ofNat n)

def pagingValues : Dialect → Paging → List Value
  | rowNumber, p => [rowValue p.firstRow, rowValue p.lastRow]
  | offsetFetch, p => [rowValue p.offset, rowValue p.fetch]

/-- The select of one page; `next` is the number of the first of its two parameters. -/
def paged (dialect : Dialect) (parts : SelectParts) (next : Nat) : Sql :=
  match dialect with
  | rowNumber =>
    .raw "select " ::
      Sql.join ", " (parts.outputs.map fun output => [.raw "pg.", .name output]) ++
      .raw " from (select " :: parts.columns ++
      .raw ", row_number() over (order by " :: parts.orderBy ++
      .raw ") as " :: .name "RowNum" :: .raw " " :: parts.source ++ parts.filter ++
      [.raw ") pg where pg.", .name "RowNum", .raw " between ", .parameter next, .raw " and ",
        .parameter (next + 1), .raw " order by pg.", .name "RowNum"]
  | offsetFetch =>
    .raw "select " :: parts.columns ++ .raw " " :: parts.source ++ parts.filter ++
      .raw " order by " :: parts.orderBy ++
      [.raw " offset ", .parameter next, .raw " rows fetch next ", .parameter (next + 1),
        .raw " rows only"]

end Dialect

end DocStore
