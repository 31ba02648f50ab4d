import DocStore.Checksum

/-!
# Column names

A member's path becomes the name of a column: dots become underscores, and a name beyond the length
limit is cut and ends in the checksum of the path.
-/

namespace DocStore

abbrev ColumnNaming := String → String

namespace ColumnName

def flat (path : String) : List Char :=
  path.toList.map fun c => if c = '.' then '_' else c

/-- No limit is below ten characters: one, an underscore and the checksum. -/
def limit (maxLength : Nat) : Nat :=
  max maxLength 10

def ofPath (maxLength : Nat) : ColumnNaming := fun path =>
  let name := flat path
  if name.length ≤ limit maxLength then String.ofList name
  else
    String.ofList
      (name.take (limit maxLength - 9) ++ '_' :: Checksum.hex (Checksum.ofText path))

end ColumnName

end DocStore
