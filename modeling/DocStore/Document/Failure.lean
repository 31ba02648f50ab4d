import DocStore.Number.Numeral
import DocStore.Text.Split

/-!
# Failures to write a document

An item that cannot be written as a document says so in a message. A message that ends in
`at line L column C` holds a reason and a position; any other message is all reason. Lines count
from 1, so line 0 is no position and is not shown.
-/

namespace DocStore

/-- Why there is no document, and the position that the reason speaks of. -/
structure DocumentFailure where
  reason : String
  line : Nat := 0
  column : Nat := 0
  deriving DecidableEq, Inhabited

namespace DocumentFailure

def trailingNumber? (text : List Char) : Option (List Char × Nat) :=
  let digits := (text.reverse.takeWhile Char.isDigit).reverse
  let n := Numeral.ofDigits digits
  if digits.isEmpty ∨ UInt64.size ≤ n then none
  else some ((text.reverse.dropWhile Char.isDigit).reverse, n)

def positioned? (message : List Char) : Option DocumentFailure := do
  let (before, column) ← trailingNumber? message
  let before ← Text.before? " column ".toList before
  let (before, line) ← trailingNumber? before
  let reason ← Text.before? " at line ".toList before
  some ⟨String.ofList reason, line, column⟩

def ofMessage (message : String) : DocumentFailure :=
  (positioned? message.toList).getD ⟨message, 0, 0⟩

def text (f : DocumentFailure) : String :=
  if f.line = 0 then f.reason
  else f.reason ++ " at line " ++ f.line.repr ++ " column " ++ f.column.repr

end DocumentFailure

end DocStore
