import DocStore.Calendar.Reader
import DocStore.Document.Printer
import DocStore.Error
import DocStore.Number.Numeral
import DocStore.Value.Basic

/-!
# Values of documents

A scalar of a document becomes the value of a member's family, or cannot be read as one. Null has
the value null in every family; numbers and timestamps may also stand as strings.
-/

namespace DocStore.Value

def ofDocument? (family : Family) (d : Document) : Option Value :=
  match family, d with
  | _, .null => some null
  | .integer, .integer n => (int64? n).map integer
  | .integer, .string s => (Numeral.int64? s).map integer
  | .fractal, .integer n => some (fractal (Float.ofInt n))
  | .fractal, .float x => some (fractal x)
  | .fractal, .string s => (Numeral.float? s).map fractal
  | .boolean, .bool b => some (boolean b)
  | .dateTime, .string s => (Instant.ofText? s).map dateTime
  | .guid, .string s => (Guid.ofText? s).map guid
  | .string, .string s | .enum, .string s | .text, .string s => some (string s)
  | .string, .integer n | .enum, .integer n | .text, .integer n => some (string n.repr)
  | .string, .float x | .enum, .float x | .text, .float x => some (string (documentFloatText x))
  | .string, .bool b | .enum, .bool b | .text, .bool b => some (string (boolText b))
  | _, _ => none

def ofDocument (family : Family) (d : Document) : Except Error Value :=
  match ofDocument? family d with
  | some v => .ok v
  | none => .error (Error.unreadable d.text family.name)

theorem ofDocument_eq_ok {family : Family} {d : Document} {v : Value} :
    ofDocument family d = .ok v ↔ ofDocument? family d = some v := by
  rw [ofDocument]
  cases ofDocument? family d <;> simp

end DocStore.Value
