import DocStore.Document.Basic
import DocStore.Number.FloatText
import DocStore.Number.Hex

/-!
# The text of a document

Compact text: no white space, members in the order of their keys, and in strings only what must be
escaped is escaped.
-/

namespace DocStore.Document

def escapedChar (c : Char) : List Char :=
  if c = '"' then ['\\', '"']
  else if c = '\\' then ['\\', '\\']
  else if c.toNat = 8 then ['\\', 'b']
  else if c.toNat = 9 then ['\\', 't']
  else if c.toNat = 10 then ['\\', 'n']
  else if c.toNat = 12 then ['\\', 'f']
  else if c.toNat = 13 then ['\\', 'r']
  else if c.toNat < 32 then ['\\', 'u', '0', '0', Hex.digit (c.toNat / 16), Hex.digit c.toNat]
  else [c]

def stringText (s : String) : String :=
  String.ofList ('"' :: s.toList.flatMap escapedChar ++ ['"'])

mutual

def text : Document → String
  | null => "null"
  | bool b => if b then "true" else "false"
  | integer n => n.repr
  | float x => documentFloatText x
  | string s => stringText s
  | array items => "[" ++ itemsText items ++ "]"
  | object members => "\x7b" ++ membersText members ++ "\x7d"

def itemsText : List Document → String
  | [] => ""
  | [item] => item.text
  | item :: others => item.text ++ "," ++ itemsText others

def membersText : List (String × Document) → String
  | [] => ""
  | [(key, value)] => stringText key ++ ":" ++ value.text
  | (key, value) :: others => stringText key ++ ":" ++ value.text ++ "," ++ membersText others

end

end DocStore.Document
