/-!
# Families of values

The family of an indexed member decides which columns hold its values: every family has one index
table, and strings and enumeration names share theirs.
-/

namespace DocStore

/-- The family of a member's values. Enumerations are stored by name, texts are not bounded in
length. -/
inductive Family where
  | integer
  | fractal
  | boolean
  | dateTime
  | guid
  | string
  | enum
  | text
  deriving DecidableEq, Repr, Inhabited

inductive IndexTable where
  | integers
  | fractals
  | booleans
  | dates
  | guids
  | strings
  | texts
  deriving DecidableEq, Repr, Inhabited

/-- Within which rows the values of a unique member must differ. -/
inductive Uniqueness where
  | perType
  | perInstance
  deriving DecidableEq, Repr, Inhabited

namespace Family

def all : List Family :=
  [integer, fractal, boolean, dateTime, guid, string, enum, text]

def name : Family → String
  | integer => "Integer"
  | fractal => "Fractal"
  | boolean => "Boolean"
  | dateTime => "DateTime"
  | guid => "Guid"
  | string => "String"
  | enum => "Enum"
  | text => "Text"

def indexTable : Family → IndexTable
  | integer => .integers
  | fractal => .fractals
  | boolean => .booleans
  | dateTime => .dates
  | guid => .guids
  | string | enum => .strings
  | text => .texts

def isTextual : Family → Bool
  | string | enum | text => true
  | _ => false

end Family

namespace IndexTable

def all : List IndexTable :=
  [integers, fractals, booleans, dates, guids, strings, texts]

def suffix : IndexTable → String
  | integers => "Integers"
  | fractals => "Fractals"
  | booleans => "Booleans"
  | dates => "Dates"
  | guids => "Guids"
  | strings => "Strings"
  | texts => "Texts"

/-- Tables of strings keep the whole value next to the part that is indexed. -/
def hasStringValue : IndexTable → Bool
  | strings | texts => true
  | _ => false

def valueFamily : IndexTable → Family
  | integers => .integer
  | fractals => .fractal
  | booleans => .boolean
  | dates => .dateTime
  | guids => .guid
  | strings => .string
  | texts => .text

theorem mem_all (t : IndexTable) : t ∈ all := by
  cases t <;> decide

end IndexTable

end DocStore
