import DocStore.Value.Composite

/-!
# Patterns

A pattern of the `like` operator: `%` stands for any text, `_` for any character, and a set in
brackets for one of its characters. Text that must be met literally has its special characters in
sets of their own.
-/

namespace DocStore.Pattern

def escapeChar (c : Char) : List Char :=
  if c = '[' then ['[', '[', ']']
  else if c = '%' then ['[', '%', ']']
  else if c = '_' then ['[', '_', ']']
  else [c]

/-- The pattern that only the text itself meets. -/
def escape (text : String) : String :=
  String.ofList (text.toList.flatMap escapeChar)

def anywhere (pattern : String) : String :=
  "%" ++ pattern ++ "%"

def startsWith (text : String) : String :=
  escape text ++ "%"

def endsWith (text : String) : String :=
  "%" ++ escape text

def contains (text : String) : String :=
  anywhere (escape text)

def hasElement (text : String) : String :=
  anywhere (Composite.element (escape text))

def hasElementStartingWith (text : String) : String :=
  "%<$" ++ escape text ++ "%"

def hasElementEndingWith (text : String) : String :=
  "%" ++ escape text ++ "$>%"

end DocStore.Pattern
