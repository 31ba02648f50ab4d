import DocStore.Calendar.Instant
import DocStore.Number.Numeral
import DocStore.Text.Blank

/-!
# Timestamps read from text

`Instant.ofText?` takes a strict timestamp with an offset from UTC, and else a lax one without
offset, read as UTC. The strict form has fields of fixed width. The lax form allows white space in
front of every number, short fields and years with a sign.
-/

namespace DocStore.Instant

abbrev Reading (α : Type) := Option (α × List Char)

def literal (c : Char) : List Char → Option (List Char)
  | d :: rest => if c = d then some rest else none
  | [] => none

def number (least most : Nat) (text : List Char) : Reading Nat :=
  let digits := (text.take most).takeWhile Char.isDigit
  if digits.length < least then none
  else some (Numeral.ofDigits digits, text.drop digits.length)

/-- The digits behind a point as nanoseconds; digits after the ninth are skipped. -/
def nanoseconds (text : List Char) : Reading Nat :=
  let digits := text.takeWhile Char.isDigit
  if digits.isEmpty then none
  else
    let kept := digits.take 9
    some (Numeral.ofDigits kept * Nat.pow 10 (9 - kept.length), text.drop digits.length)

def optionalFraction : List Char → Reading Nat
  | '.' :: rest => nanoseconds rest
  | text => some (0, text)

/-- The instant of the fields when they are in range; second 60 is the leap second. -/
def ofFields? (date : Date) (hour minute second nanosecond : Nat) (offset : Int) :
    Option Instant :=
  if date.valid && hour ≤ 23 && minute ≤ 59 && second ≤ 60 then
    let leap := if second = 60 then 1 else 0
    let frac := nanosecond + leap * 1000000000
    if h : frac < 2000000000 then
      some (ofLocal date (hour * 3600 + minute * 60 + (second - leap)) ⟨frac, h⟩ offset)
    else none
  else none

def offset : List Char → Option (Int × List Char)
  | [] => none
  | c :: rest =>
    if c = 'Z' ∨ c = 'z' then some (0, rest)
    else if c = '+' ∨ c = '-' ∨ c = '−' then do
      let (hours, rest) ← number 2 2 rest
      let rest ← literal ':' rest
      let (minutes, rest) ← number 2 2 rest
      if 23 < hours ∨ 59 < minutes then none
      let total : Int := hours * 60 + minutes
      some (if c = '+' then total else -total, rest)
    else none

def ofStrict? (text : List Char) : Option Instant := do
  let (year, rest) ← number 4 4 text
  let rest ← literal '-' rest
  let (month, rest) ← number 2 2 rest
  let rest ← literal '-' rest
  let (day, rest) ← number 2 2 rest
  let rest ← match rest with
    | c :: rest => if c = 'T' ∨ c = 't' ∨ c = ' ' then some rest else none
    | [] => none
  let (hour, rest) ← number 2 2 rest
  let rest ← literal ':' rest
  let (minute, rest) ← number 2 2 rest
  let rest ← literal ':' rest
  let (second, rest) ← number 2 2 rest
  let (nanosecond, rest) ← optionalFraction rest
  let (ahead, rest) ← offset rest
  if rest.isEmpty then ofFields? ⟨year, month, day⟩ hour minute second nanosecond ahead else none

def laxNumber (most : Nat) (text : List Char) : Reading Nat :=
  number 1 most (Text.trimStart text)

/-- A year of up to four digits, or of any number of digits behind a sign. -/
def laxYear (text : List Char) : Reading Int :=
  match Text.trimStart text with
  | '-' :: rest => (number 1 rest.length rest).map fun (n, rest) => (-(n : Int), rest)
  | '+' :: rest => (number 1 rest.length rest).map fun (n, rest) => ((n : Int), rest)
  | rest => (number 1 4 rest).map fun (n, rest) => ((n : Int), rest)

def ofLax? (text : List Char) : Option Instant := do
  let (year, rest) ← laxYear text
  let rest ← literal '-' rest
  let (month, rest) ← laxNumber 2 rest
  let rest ← literal '-' rest
  let (day, rest) ← laxNumber 2 rest
  let rest ← literal 'T' rest
  let (hour, rest) ← laxNumber 2 rest
  let rest ← literal ':' rest
  let (minute, rest) ← laxNumber 2 rest
  let rest ← literal ':' rest
  let (second, rest) ← laxNumber 2 rest
  let (nanosecond, rest) ← optionalFraction rest
  if rest.isEmpty then ofFields? ⟨year, month, day⟩ hour minute second nanosecond 0 else none

def ofText? (text : String) : Option Instant :=
  (ofStrict? text.toList).orElse fun _ => ofLax? text.toList

end DocStore.Instant
