import DocStore.Value.Basic

/-!
# Statement text

A statement is held as a list of pieces until it is rendered: fixed text, names in brackets,
literals in quotes and numbered parameters. Rendering doubles a closing bracket in a name and a
quote in a literal, so that neither can end early.
-/

namespace DocStore

inductive Piece where
  | raw (text : String)
  | name (identifier : String)
  | literal (text : String)
  | parameter (number : Nat)
  deriving DecidableEq, Inhabited

abbrev Sql := List Piece

def doubled (c : Char) (text : List Char) : List Char :=
  text.flatMap fun d => if d = c then [c, c] else [d]

def parameterName (number : Nat) : String :=
  "@p" ++ number.repr

def quoteName (identifier : String) : String :=
  String.ofList ('[' :: doubled ']' identifier.toList ++ [']'])

def quoteLiteral (text : String) : String :=
  String.ofList ('\'' :: doubled '\'' text.toList ++ ['\''])

namespace Piece

def render : Piece → String
  | raw text => text
  | name identifier => quoteName identifier
  | literal text => quoteLiteral text
  | parameter number => parameterName number

end Piece

namespace Sql

def render (sql : Sql) : String :=
  sql.foldr (fun piece text => piece.render ++ text) ""

def join (separator : String) : List Sql → Sql
  | [] => []
  | [part] => part
  | part :: others => part ++ Piece.raw separator :: join separator others

def names (identifiers : List String) : Sql :=
  join ", " (identifiers.map fun identifier => [Piece.name identifier])

end Sql

structure Command where
  sql : String
  params : List (String × Value)
  deriving DecidableEq, Inhabited

namespace Command

def ofSql (sql : Sql) : Command :=
  ⟨sql.render, []⟩

def numbered (values : List Value) : List (String × Value) :=
  values.zipIdx.map fun v => (parameterName v.2, v.1)

def ofValues (sql : Sql) (values : List Value) : Command :=
  ⟨sql.render, numbered values⟩

def param? (command : Command) (name : String) : Option Value :=
  command.params.lookup name

end Command

end DocStore
