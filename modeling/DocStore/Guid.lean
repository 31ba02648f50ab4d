import DocStore.Number.Hex

/-!
# Globally unique identifiers

A guid is 128 bits, written as 32 hexadecimal digits with hyphens after the 8th, 12th, 16th and
20th. Readers also take the digits without hyphens, the hyphenated form in braces and the form
behind `urn:uuid:`, in any letter case.
-/

namespace DocStore

structure Guid where
  bits : BitVec 128
  deriving DecidableEq, Inhabited

namespace Guid

def nil : Guid := ⟨0⟩

def isNil (g : Guid) : Bool :=
  g.bits == 0

def digits (g : Guid) : List Char :=
  Hex.digits 32 g.bits.toNat

def group (g : Guid) (start count : Nat) : List Char :=
  (g.digits.drop start).take count

def text (g : Guid) : String :=
  String.ofList (g.group 0 8 ++ '-' :: g.group 8 4 ++ '-' :: g.group 12 4 ++ '-' :: g.group 16 4 ++
    '-' :: g.group 20 12)

def ofDigits? (digits : List Char) : Option Guid :=
  if digits.length = 32 then
    (digits.mapM Hex.value?).map fun values =>
      ⟨BitVec.ofNat 128 (values.foldl (fun n d => 16 * n + d) 0)⟩
  else none

def ofHyphenated? (text : List Char) : Option Guid :=
  if text.length = 36 ∧ text[8]? = some '-' ∧ text[13]? = some '-' ∧ text[18]? = some '-' ∧
      text[23]? = some '-' then
    ofDigits? (text.take 8 ++ (text.drop 9).take 4 ++ (text.drop 14).take 4 ++
      (text.drop 19).take 4 ++ text.drop 24)
  else none

def unbraced? : List Char → Option (List Char)
  | '\x7b' :: rest => if rest.getLast? = some '\x7d' then some rest.dropLast else none
  | _ => none

def unlabelled? (text : List Char) : Option (List Char) :=
  let label := ['u', 'r', 'n', ':', 'u', 'u', 'i', 'd', ':']
  if (text.take 9).map Char.toLower = label then some (text.drop 9) else none

/-- The guid that a text writes in one of the four accepted forms. -/
def ofText? (text : String) : Option Guid :=
  let chars := text.toList
  (ofDigits? chars).orElse fun _ =>
    (ofHyphenated? chars).orElse fun _ =>
      ((unbraced? chars).bind ofHyphenated?).orElse fun _ =>
        (unlabelled? chars).bind ofHyphenated?

end Guid

end DocStore
