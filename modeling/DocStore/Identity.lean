import DocStore.Error
import DocStore.Value.Basic

/-!
# Identities of structures

A structure is identified by a positive whole number, handed out in ranges, or by a guid that is
not nil. `StructureId.ofInt` and `StructureId.ofGuid` refuse everything else.
-/

namespace DocStore

inductive IdKind where
  | identity
  | guid
  deriving DecidableEq, Repr, Inhabited

inductive StructureId where
  | identity (value : Int64)
  | guid (value : Guid)
  deriving DecidableEq, Inhabited

def IdKind.name : IdKind → String
  | identity => "Identity"
  | guid => "Guid"

def IdKind.family : IdKind → Family
  | identity => .integer
  | guid => .guid

namespace StructureId

def ofInt (value : Int) : Except Error StructureId :=
  if value < 1 then .error (Error.identityBelowOne value) else .ok (identity (Int64.ofInt value))

def ofGuid (value : Guid) : Except Error StructureId :=
  if value.isNil then .error Error.nilGuid else .ok (guid value)

def kind : StructureId → IdKind
  | identity _ => .identity
  | guid _ => .guid

def toValue : StructureId → Value
  | identity i => .integer i
  | guid g => .guid g

def text : StructureId → String
  | identity i => Value.int64Text i
  | guid g => g.text

end StructureId

structure IdentityRange where
  start : Int64
  count : Nat
  deriving DecidableEq

namespace IdentityRange

def ofStart (start : Int64) (count : Nat) : Except Error IdentityRange :=
  if start.toInt < 1 then .error (Error.rangeBelowOne start.toInt) else .ok ⟨start, count⟩

def at? (range : IdentityRange) (offset : Nat) : Except Error StructureId :=
  if range.count ≤ offset then .error (Error.offsetOutsideRange offset range.count)
  else StructureId.ofInt (range.start.toInt + offset)

end IdentityRange

end DocStore
