import DocStore.Text.Blank
import DocStore.Text.Digit
import DocStore.Value.Basic

/-!
# Statements as the database reads them

The database understands creating tables, dropping and adding columns, deleting by one column,
inserting one row, and selecting the distinct values of one column. Words are met in any letter
case and blanks are allowed around a statement; every other text is no statement that changes
anything.
-/

namespace DocStore

inductive Statement where
  | create (table : String) (columns : List String)
  | dropColumns (table : String) (columns : List String)
  | addColumns (table : String) (columns : List String)
  | delete (table column parameter : String)
  | insert (table : String) (columns parameters : List String)
  deriving DecidableEq, Inhabited

namespace Statement

/-- Two characters that differ at most in letter case; `c` is an ASCII letter in lower case or no
letter. -/
def sameLetter (c d : Char) : Bool :=
  c = d.toLower || (c = 's' && d = 'ſ') || (c = 'k' && d.toNat = 0x212A)

def words? : List Char → List Char → Option (List Char)
  | [], text => some text
  | _ :: _, [] => none
  | c :: words, d :: text => if sameLetter c d then words? words text else none

def around? (words : List Char) : List Char → Option (List Char × List Char)
  | [] => none
  | d :: text =>
    match words? words (d :: text) with
    | some rest => some ([], rest)
    | none => (around? words text).map fun (before, rest) => (d :: before, rest)

def bracketed? : List Char → Option (String × List Char)
  | '[' :: rest =>
    match rest.takeWhile (fun c => c ≠ ']'), rest.dropWhile (fun c => c ≠ ']') with
    | c :: name, ']' :: rest => some (String.ofList (c :: name), rest)
    | _, _ => none
  | _ => none

/-- All names between brackets; `inside` are the reversed characters behind an opening one. -/
def bracketedNames (inside : Option (List Char)) : List Char → List String
  | [] => []
  | c :: rest =>
    match inside with
    | none => bracketedNames (if c = '[' then some [] else none) rest
    | some name =>
      if c = ']' then
        if name.isEmpty then bracketedNames none rest
        else String.ofList name.reverse :: bracketedNames none rest
      else bracketedNames (some (c :: name)) rest

/-- The parts between commas outside parentheses, without blanks around them; `depth` counts the
open parentheses and `part` holds the reversed characters of the part. -/
def topLevelParts (depth : Nat) (part : List Char) : List Char → List (List Char)
  | [] => [Text.trim part.reverse]
  | c :: rest =>
    if c = ',' ∧ depth = 0 then Text.trim part.reverse :: topLevelParts 0 [] rest
    else
      let depth := if c = '(' then depth + 1 else if c = ')' then depth - 1 else depth
      topLevelParts depth (c :: part) rest

/-- The name of a column definition; constraints do not begin with a bracket. -/
def leadingName? (definition : List Char) : Option String :=
  if definition.head? = some '[' then (bracketedNames none definition).head? else none

def definedColumns (definitions : List Char) : List String :=
  (topLevelParts 0 [] definitions).filterMap leadingName?

def closed? (text : List Char) : Option (List Char) :=
  let trimmed := Text.trimEnd text
  if trimmed.getLast? = some ')' then some trimmed.dropLast else none

def create? (text : List Char) : Option Statement := do
  let rest ← words? "create table ".toList (Text.trimStart text)
  let (table, rest) ← bracketed? rest
  match Text.trimStart rest with
  | '(' :: rest => (closed? rest).map fun body => create table (definedColumns body)
  | _ => none

def dropColumns? (text : List Char) : Option Statement := do
  let rest ← words? "alter table ".toList (Text.trimStart text)
  let (table, rest) ← bracketed? rest
  let rest ← words? " drop column ".toList rest
  some (dropColumns table (bracketedNames none rest))

def addColumns? (text : List Char) : Option Statement := do
  let rest ← words? "alter table ".toList (Text.trimStart text)
  let (table, rest) ← bracketed? rest
  let rest ← words? " add ".toList rest
  some (addColumns table (definedColumns rest))

def parameter? : List Char → Option String
  | '@' :: p :: rest =>
    let digits := rest.takeWhile Text.isDecimalDigit
    let behind := rest.dropWhile Text.isDecimalDigit
    if (p = 'p' || p = 'P') && !digits.isEmpty && behind.all Text.isBlank then
      some (String.ofList ('@' :: p :: digits))
    else none
  | _ => none

def delete? (text : List Char) : Option Statement := do
  let rest ← words? "delete from ".toList (Text.trimStart text)
  let (table, rest) ← bracketed? rest
  let rest ← words? " where ".toList rest
  let (column, rest) ← bracketed? rest
  let rest ← words? " = ".toList rest
  let parameter ← parameter? rest
  some (delete table column parameter)

def insert? (text : List Char) : Option Statement := do
  let rest ← words? "insert into ".toList (Text.trimStart text)
  let (table, rest) ← bracketed? rest
  let rest ← words? " (".toList rest
  let (columns, rest) ← around? ") values (".toList rest
  let values ← closed? rest
  some (insert table (bracketedNames none columns)
    ((Text.pieces ',' values).map fun value => String.ofList (Text.trim value)))

def ofText? (sql : String) : Option Statement :=
  let text := sql.toList
  (create? text).orElse fun _ =>
    (dropColumns? text).orElse fun _ =>
      (addColumns? text).orElse fun _ =>
        (delete? text).orElse fun _ => insert? text

def selectDistinct? (sql : String) : Option (String × String) := do
  let rest ← words? "select distinct ".toList (Text.trimStart sql.toList)
  let (column, rest) ← bracketed? rest
  let rest ← words? " from ".toList rest
  let (table, rest) ← bracketed? rest
  if rest.all Text.isBlank then some (column, table) else none

end Statement

end DocStore
