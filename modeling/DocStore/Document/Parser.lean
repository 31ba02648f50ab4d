import DocStore.Document.Basic
import DocStore.Number.Hex
import DocStore.Number.Numeral

/-!
# Documents read from text

A reader of document text. Whole numbers that fit 64 bits, with or without sign, stay whole; every
other number, and the negative zero, becomes the nearest float.
-/

namespace DocStore.Document

abbrev Reading (α : Type) := Option (α × List Char)

def isSpace (c : Char) : Bool :=
  c = ' ' || c = '\t' || c = '\n' || c = '\r'

def skipSpace (text : List Char) : List Char :=
  text.dropWhile isSpace

def codeUnit : List Char → Option (Nat × List Char)
  | a :: b :: c :: d :: rest => do
    let a ← Hex.value? a
    let b ← Hex.value? b
    let c ← Hex.value? c
    let d ← Hex.value? d
    some (((a * 16 + b) * 16 + c) * 16 + d, rest)
  | _ => none

def char? (code : Nat) : Option Char :=
  if code.isValidChar then some (Char.ofNat code) else none

/-- The character of one code unit, or of a pair of surrogates. -/
def unicode (text : List Char) : Option (Char × List Char) := do
  let (unit, rest) ← codeUnit text
  if 0xD800 ≤ unit ∧ unit ≤ 0xDBFF then
    match rest with
    | '\\' :: 'u' :: rest =>
      let (low, rest) ← codeUnit rest
      if 0xDC00 ≤ low ∧ low ≤ 0xDFFF then
        let c ← char? (0x10000 + (unit - 0xD800) * 0x400 + (low - 0xDC00))
        some (c, rest)
      else none
    | _ => none
  else
    let c ← char? unit
    some (c, rest)

def escape : List Char → Option (Char × List Char)
  | 'u' :: rest => unicode rest
  | c :: rest =>
    if c = '"' ∨ c = '\\' ∨ c = '/' then some (c, rest)
    else if c = 'b' then some ('\x08', rest)
    else if c = 'f' then some ('\x0c', rest)
    else if c = 'n' then some ('\n', rest)
    else if c = 'r' then some ('\r', rest)
    else if c = 't' then some ('\t', rest)
    else none
  | [] => none

def stringRest : Nat → List Char → Option (List Char × List Char)
  | 0, _ => none
  | _ + 1, [] => none
  | fuel + 1, c :: rest =>
    if c = '"' then some ([], rest)
    else if c = '\\' then do
      let (c, rest) ← escape rest
      let (chars, rest) ← stringRest fuel rest
      some (c :: chars, rest)
    else if c.toNat < 32 then none
    else do
      let (chars, rest) ← stringRest fuel rest
      some (c :: chars, rest)

def stringBody (text : List Char) : Option (String × List Char) :=
  (stringRest (text.length + 1) text).map fun (chars, rest) => (String.ofList chars, rest)

def isNumberChar (c : Char) : Bool :=
  c.isDigit || c = '-' || c = '+' || c = '.' || c = 'e' || c = 'E'

def ofNumeral? (numeral : List Char) : Option Document :=
  match Numeral.integer? numeral with
  | some n =>
    if n = 0 ∧ numeral.head? = some '-' then some (float (-0.0))
    else if Int64.minValue.toInt ≤ n ∧ n < UInt64.size then some (integer n)
    else (Numeral.float? (String.ofList numeral)).map float
  | none => (Numeral.float? (String.ofList numeral)).map float

def number (text : List Char) : Option (Document × List Char) :=
  (ofNumeral? (text.takeWhile isNumberChar)).map fun d => (d, text.dropWhile isNumberChar)

def word (w : List Char) (text : List Char) : Option (List Char) :=
  if text.take w.length = w then some (text.drop w.length) else none

mutual

def value : Nat → List Char → Option (Document × List Char)
  | 0, _ => none
  | fuel + 1, text =>
    match skipSpace text with
    | [] => none
    | '"' :: rest => (stringBody rest).map fun (s, rest) => (string s, rest)
    | '[' :: rest =>
      match skipSpace rest with
      | ']' :: rest => some (array [], rest)
      | rest => (items fuel rest).map fun (values, rest) => (array values, rest)
    | '\x7b' :: rest =>
      match skipSpace rest with
      | '\x7d' :: rest => some (object [], rest)
      | rest => (members fuel rest).map fun (pairs, rest) => (ofMembers pairs, rest)
    | 'n' :: rest => (word ['u', 'l', 'l'] rest).map fun rest => (null, rest)
    | 't' :: rest => (word ['r', 'u', 'e'] rest).map fun rest => (bool true, rest)
    | 'f' :: rest => (word ['a', 'l', 's', 'e'] rest).map fun rest => (bool false, rest)
    | rest => number rest

def items : Nat → List Char → Option (List Document × List Char)
  | 0, _ => none
  | fuel + 1, text => do
    let (first, rest) ← value fuel text
    match skipSpace rest with
    | ']' :: rest => some ([first], rest)
    | ',' :: rest =>
      let (others, rest) ← items fuel rest
      some (first :: others, rest)
    | _ => none

def members : Nat → List Char → Option (List (String × Document) × List Char)
  | 0, _ => none
  | fuel + 1, text => do
    match skipSpace text with
    | '"' :: rest =>
      let (key, rest) ← stringBody rest
      match skipSpace rest with
      | ':' :: rest =>
        let (first, rest) ← value fuel rest
        match skipSpace rest with
        | '\x7d' :: rest => some ([(key, first)], rest)
        | ',' :: rest =>
          let (others, rest) ← members fuel rest
          some ((key, first) :: others, rest)
        | _ => none
      | _ => none
    | _ => none

end

/-- The document that a text writes. Two steps of the reader take at least one character. -/
def ofText? (text : String) : Option Document :=
  let chars := text.toList
  match value (2 * chars.length + 2) chars with
  | some (d, rest) => if (skipSpace rest).isEmpty then some d else none
  | none => none

end DocStore.Document
