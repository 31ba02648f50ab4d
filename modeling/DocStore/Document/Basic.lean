/-!
# Documents

A document is a tree of scalars, arrays and objects. The members of an object stand in the order of
their keys and no key occurs twice; `Document.ofMembers` and `Document.insert` keep both.
-/

namespace DocStore

inductive Document where
  | null
  | bool (b : Bool)
  /-- A whole number of at most 64 bits, with or without sign. -/
  | integer (n : Int)
  | float (x : Float)
  | string (s : String)
  | array (items : List Document)
  | object (members : List (String × Document))
  deriving Inhabited

namespace Document

def isNull : Document → Bool
  | null => true
  | _ => false

def insertMember (key : String) (value : Document) :
    List (String × Document) → List (String × Document)
  | [] => [(key, value)]
  | (k, v) :: rest =>
    if key = k then (key, value) :: rest
    else if key < k then (key, value) :: (k, v) :: rest
    else (k, v) :: insertMember key value rest

/-- The object of the given members; of equal keys the last wins. -/
def ofMembers (members : List (String × Document)) : Document :=
  object (members.foldl (fun sorted m => insertMember m.1 m.2 sorted) [])

def get? (d : Document) (key : String) : Option Document :=
  match d with
  | object members => members.lookup key
  | _ => none

def insert (d : Document) (key : String) (value : Document) : Document :=
  match d with
  | object members => object (insertMember key value members)
  | other => other

end Document

end DocStore
