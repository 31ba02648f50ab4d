import DocStore.Document.Failure
import DocStore.Schema.Reading
import DocStore.Structure.Basic

/-!
# Building structures

A structure is built from an item in four steps: its document is taken, its identity is found or
assigned, its members are indexed in the order of the schema, and its body is written. The first
step that fails ends the building. `Outcome.assigned` tells the identity that the item was given,
also when a later step failed.
-/

namespace DocStore

/-- What is to be stored: a document, or the reason why there is none. -/
abbrev Item := Except Error Document

def Item.failed (message : String) : Item :=
  .error (Error.noDocument (DocumentFailure.ofMessage message).text)

abbrev BodySerializer := Document → Except Error String

def BodySerializer.documentText : BodySerializer := fun d => .ok d.text

def hasRepeated : List Value → Bool
  | [] => false
  | v :: rest => rest.any (fun w => w.same v) || hasRepeated rest

namespace Structure

structure Outcome where
  result : Except Error Structure
  assigned : Option StructureId

def idDocument : StructureId → Document
  | .identity i => .integer i.toInt
  | .guid g => .string g.text

/-- A new identity: `fresh` where the type uses guids, else the one checked out for the item. -/
def newId (schema : Schema) (checkedOut : Option StructureId) (fresh : Guid) :
    Except Error StructureId :=
  match schema.id.kind, checkedOut with
  | .guid, _ => .ok (.guid fresh)
  | .identity, some (.identity i) => .ok (.identity i)
  | .identity, _ => .error (Error.missingIdentity schema.name)

def checkUnique (schema : Schema) (id : StructureId) (a : Accessor) (values : List Value) :
    Except Error Unit :=
  match a.unique, values with
  | none, _ => .ok ()
  | some _, [] => .error (Error.nullUnique schema.name a.path)
  | some _, [_] => .ok ()
  | some mode, values =>
    let kind := if hasRepeated values && mode == .perInstance then ErrorKind.duplicateUniqueValue
      else ErrorKind.uniqueMultipleValues
    .error (Error.uniqueYieldedSeveral kind a.path schema.name id.text values.length)

def buildIndex (schema : Schema) (id : StructureId) (item : Document) (a : Accessor) :
    Except Error IndexEntry := do
  let values ← a.readValues item
  checkUnique schema id a values
  let value ← a.indexValue values
  .ok ⟨id, a.path, value, a.storageFamily, a.unique⟩

/-- The structure of a document that holds its identity. -/
def ofIdentified (schema : Schema) (serialize : BodySerializer) (id : StructureId)
    (item : Document) : Except Error Structure := do
  let indexes ← schema.accessors.mapM (buildIndex schema id item)
  let body ← serialize item
  Structure.ofParts id schema.name body indexes

/-- Builds the structure of an item. An identity that the document holds is kept; otherwise the
new one is written into the document. -/
def build (schema : Schema) (serialize : BodySerializer) (item : Item)
    (checkedOut : Option StructureId) (fresh : Guid) : Outcome :=
  match item with
  | .error e => ⟨.error e, none⟩
  | .ok d =>
    match schema.readId d with
    | .error e => ⟨.error e, none⟩
    | .ok (some id) => ⟨ofIdentified schema serialize id d, none⟩
    | .ok none =>
      match newId schema checkedOut fresh with
      | .error e => ⟨.error e, none⟩
      | .ok id =>
        ⟨ofIdentified schema serialize id (d.insert schema.id.path (idDocument id)), some id⟩

end Structure

end DocStore
