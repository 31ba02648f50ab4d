import DocStore.Structure.Builder

/-!
# Building batches

The items of a batch are built independently of each other, so any number of workers gives the same
answer: the structures in the order of the items, or the error of the first item that fails. Item
`n` gets the `n`-th identity of the range.
-/

namespace DocStore.Structure

def buildAt (schema : Schema) (serialize : BodySerializer) (range : Option IdentityRange)
    (fresh : Nat → Guid) (offset : Nat) (item : Item) : Outcome :=
  match range with
  | none => build schema serialize item none (fresh offset)
  | some range =>
    match range.at? offset with
    | .error e => ⟨.error e, none⟩
    | .ok id => build schema serialize item (some id) (fresh offset)

structure Built where
  stored : Structure
  assigned : Option StructureId

def Outcome.built (o : Outcome) : Except Error Built :=
  o.result.map fun s => ⟨s, o.assigned⟩

def buildFrom (schema : Schema) (serialize : BodySerializer) (range : Option IdentityRange)
    (fresh : Nat → Guid) (offset : Nat) : List Item → Except Error (List Built)
  | [] => .ok []
  | item :: rest => do
    let first ← (buildAt schema serialize range fresh offset item).built
    let others ← buildFrom schema serialize range fresh (offset + 1) rest
    .ok (first :: others)

def buildMany (schema : Schema) (serialize : BodySerializer) (items : List Item)
    (range : Option IdentityRange) (fresh : Nat → Guid) : Except Error (List Built) :=
  buildFrom schema serialize range fresh 0 items

/-- A source of identity ranges with a state of its own, asked for a structure name and a count. -/
abbrev Checkout (σ : Type) := String → Nat → σ → Except Error IdentityRange × σ

/-- Builds all items after checking out one range for them; types with guids and empty batches need
none. -/
def buildManyWithCheckout {σ : Type} (schema : Schema) (serialize : BodySerializer)
    (items : List Item) (checkout : Checkout σ) (state : σ) (fresh : Nat → Guid) :
    Except Error (List Built) × σ :=
  if schema.id.kind = .identity ∧ items ≠ [] then
    match checkout schema.name items.length state with
    | (.error e, state) => (.error e, state)
    | (.ok range, state) => (buildMany schema serialize items (some range) fresh, state)
  else (buildMany schema serialize items none fresh, state)

end DocStore.Structure
