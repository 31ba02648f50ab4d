import DocStore.Document.Basic
import DocStore.Schema.Basic
import DocStore.Value.Composite
import DocStore.Value.Reading

/-!
# Members of documents

The values of an indexed member are read from a document by following its path name by name: an
object leads to its member, an array to what its elements lead to. What several values become in
the one row of the member is decided by `Accessor.indexValue`. The identity of a document is read
by `Schema.readId`.
-/

namespace DocStore

namespace Document

mutual

def step (name : String) : Document → List Document
  | .object members => (members.lookup name).toList
  | .array items => stepItems name items
  | _ => []

def stepItems (name : String) : List Document → List Document
  | [] => []
  | item :: others => step name item ++ stepItems name others

end

/-- What a path leads to, all documents of one level before the next name. -/
def follow (names : List String) (nodes : List Document) : List Document :=
  names.foldl (fun level name => level.flatMap (step name)) nodes

/-- The scalars at the end of a path: nulls are left out, and one array is opened. -/
def leaves : Document → List Document
  | .null => []
  | .array items => items.filter fun item => !item.isNull
  | d => [d]

end Document

namespace Accessor

def names (a : Accessor) : List String :=
  (Schema.segments a.path).map String.ofList

/-- The values of the member; the first that cannot be read in its family is the error. -/
def readValues (a : Accessor) (item : Document) : Except Error (List Value) :=
  ((Document.follow a.names [item]).flatMap Document.leaves).mapM (Value.ofDocument a.family)

/-- The value that is stored for the member: one as it is, several as a composite where the family
allows it. -/
def indexValue (a : Accessor) (values : List Value) : Except Error Value :=
  if a.isCollection then .ok (Composite.ofValues values)
  else
    match values with
    | [] => .ok .null
    | [v] => .ok v
    | _ =>
      if a.family.isTextual then .ok (Composite.ofValues values)
      else .error (Error.severalValues a.path values.length a.family.name)

end Accessor

namespace Schema

/-- The identity that a document holds, if one is assigned. A number below one, a number that is
not a whole one and the nil guid stand for none. -/
def readId (schema : Schema) (item : Document) : Except Error (Option StructureId) :=
  match schema.id.kind, (item.get? schema.id.path).getD .null with
  | _, .null => .ok none
  | .identity, .integer n =>
    if 1 ≤ n ∧ n ≤ Int64.maxValue.toInt then .ok (some (.identity (Int64.ofInt n))) else .ok none
  | .identity, .float _ => .ok none
  | .guid, .string s =>
    match Guid.ofText? s with
    | some g => if g.isNil then .ok none else .ok (some (.guid g))
    | none => .error (Error.invalidGuid s)
  | kind, other => .error (Error.identityNotReadable schema.id.path other.text kind.name)

end Schema

end DocStore
