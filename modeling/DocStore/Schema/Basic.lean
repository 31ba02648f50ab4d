import DocStore.Error
import DocStore.Identity
import DocStore.Text.Split
import DocStore.Value.Family

/-!
# Schemas

A schema names a structure type, its identity member and the members that are indexed.
`Schema.ofParts` accepts exactly those whose names are identifiers and whose paths are distinct.
-/

namespace DocStore

structure IdAccessor where
  path : String
  kind : IdKind
  deriving DecidableEq, Inhabited

/-- An indexed member: its dotted path, the family of its values, and how many there may be. -/
structure Accessor where
  path : String
  family : Family
  unique : Option Uniqueness
  /-- The member is itself a collection. -/
  enumerable : Bool
  /-- The path leads through a collection. -/
  element : Bool
  deriving DecidableEq, Inhabited

structure Schema where
  name : String
  id : IdAccessor
  accessors : List Accessor
  deriving DecidableEq, Inhabited

namespace Accessor

def isUnique (a : Accessor) : Bool :=
  a.unique.isSome

/-- Members that may have several values, stored as one composite. -/
def isCollection (a : Accessor) : Bool :=
  a.enumerable || a.element

/-- The family of what is stored: composites are strings, or texts where the member is one. -/
def storageFamily (a : Accessor) : Family :=
  if a.isCollection && a.family != .text then .string else a.family

def bounded (a : Accessor) : Bool :=
  a.storageFamily != .text

end Accessor

namespace Schema

def isNameStart (c : Char) : Bool :=
  c.isAlpha || c = '_'

def isNameChar (c : Char) : Bool :=
  c.isAlphanum || c = '_'

def isIdentifier : List Char → Bool
  | [] => false
  | c :: rest => isNameStart c && rest.all isNameChar

def segments (path : String) : List (List Char) :=
  Text.pieces '.' path.toList

def isPath (path : String) : Bool :=
  (segments path).all isIdentifier

/-- Every path is valid, differs from the identity member and from those `seen` before. -/
def checkAccessors (idPath : String) (seen : List String) : List Accessor → Except Error Unit
  | [] => .ok ()
  | a :: rest =>
    if !isPath a.path then .error (Error.invalidMemberPath a.path)
    else if a.path = idPath then .error (Error.indexedIdentity a.path)
    else if a.path ∈ seen then .error (Error.indexedTwice a.path)
    else checkAccessors idPath (a.path :: seen) rest

def ofParts (name : String) (id : Option IdAccessor) (accessors : List Accessor) :
    Except Error Schema :=
  if !isIdentifier name.toList then .error (Error.invalidStructureName name)
  else
    match id with
    | none => .error (Error.noIdentityMember name)
    | some id =>
      if !isPath id.path then .error (Error.invalidMemberPath id.path)
      else if id.path.toList.contains '.' then .error (Error.nestedIdentity id.path)
      else
        match checkAccessors id.path [] accessors with
        | .error e => .error e
        | .ok () => .ok ⟨name, id, accessors⟩

def accessor? (schema : Schema) (path : String) : Option Accessor :=
  schema.accessors.find? fun a => a.path = path

def isId (schema : Schema) (path : String) : Bool :=
  schema.id.path = path

def uniqueAccessors (schema : Schema) : List Accessor :=
  schema.accessors.filter Accessor.isUnique

end Schema

end DocStore
