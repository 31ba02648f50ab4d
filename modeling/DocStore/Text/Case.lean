import DocStore.Text.CaseTables

/-!
# Letter case

Full case mapping, where one character may become several. A capital sigma becomes a final sigma
when the letters around it say that it ends a word.
-/

namespace DocStore.Text

def inRanges (ranges : List (Nat × Nat)) (c : Char) : Bool :=
  ranges.any fun r => r.1 ≤ c.toNat && c.toNat ≤ r.2

def CaseRun.covers (r : CaseRun) (code : Nat) : Bool :=
  r.first ≤ code && code ≤ r.last && (code - r.first) % r.step == 0

/-- The counterpart of a character: its own row first, else the run that covers it, else itself. -/
def mapCase (special : List (Nat × List Nat)) (runs : List CaseRun) (c : Char) : List Char :=
  match special.find? (fun row => row.1 == c.toNat) with
  | some row => row.2.map Char.ofNat
  | none =>
    match runs.find? (CaseRun.covers · c.toNat) with
    | some run => [Char.ofNat (c.toNat + run.delta).toNat]
    | none => [c]

/-- The first character that is not looked through has case. -/
def casedNext (text : List Char) : Bool :=
  match text.dropWhile (inRanges CaseTables.caseIgnorable) with
  | [] => false
  | c :: _ => inRanges CaseTables.cased c

def upper (text : List Char) : List Char :=
  text.flatMap (mapCase CaseTables.upperSpecial CaseTables.upper)

/-- The lower-case form of `text`, which follows the reversed characters `before`. -/
def lowerFrom (before : List Char) : List Char → List Char
  | [] => []
  | c :: rest =>
    let mapped :=
      if c = 'Σ' then [if casedNext before && !casedNext rest then 'ς' else 'σ']
      else mapCase CaseTables.lowerSpecial CaseTables.lower c
    mapped ++ lowerFrom (c :: before) rest

def lower (text : List Char) : List Char :=
  lowerFrom [] text

end DocStore.Text
