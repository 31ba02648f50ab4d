import DocStore.Identity

/-!
# Structures

A structure is the stored form of one document: its identity, its body and one entry per indexed
member. The unique entries are among the index entries. `Structure.ofParts` refuses a unique member
that has more than one entry.
-/

namespace DocStore

structure IndexEntry where
  id : StructureId
  path : String
  value : Value
  family : Family
  unique : Option Uniqueness
  deriving DecidableEq, Inhabited

namespace IndexEntry

def isUnique (entry : IndexEntry) : Bool :=
  entry.unique.isSome

def table (entry : IndexEntry) : IndexTable :=
  entry.family.indexTable

end IndexEntry

structure Structure where
  id : StructureId
  name : String
  body : String
  indexes : List IndexEntry
  deriving DecidableEq, Inhabited

namespace Structure

def uniques (s : Structure) : List IndexEntry :=
  s.indexes.filter IndexEntry.isUnique

def occurrences (indexes : List IndexEntry) (path : String) : Nat :=
  (indexes.filter fun entry => entry.path = path).length

/-- The structure of the given parts; the first unique path with a second entry is the error. -/
def ofParts (id : StructureId) (name body : String) (indexes : List IndexEntry) :
    Except Error Structure :=
  let s : Structure := ⟨id, name, body, indexes⟩
  match s.uniques.find? fun entry => 1 < occurrences indexes entry.path with
  | some entry => .error (Error.uniqueCarriesSeveral entry.path name id.text)
  | none => .ok s

def index? (s : Structure) (path : String) : Option IndexEntry :=
  s.indexes.find? fun entry => entry.path = path

end Structure

end DocStore
