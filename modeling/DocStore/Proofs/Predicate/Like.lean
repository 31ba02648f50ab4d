import DocStore.Predicate.Pattern
import DocStore.Proofs.Predicate.Condition
import Mathlib.Data.List.Infix

/-!
# What patterns accept

`Like.accepts` is the `like` operator under a binary collation: `%` stands for any text, `_` for any
character and a set in brackets for one of its characters; every other character stands for itself.
A set that begins with `^` stands for the characters that are not in it, and two characters joined
by a dash for all between them. Escaped text is accepted literally: `accepts_startsWith`,
`accepts_endsWith` and `accepts_contains` say so of the patterns that ask for a text at one of the
ends or anywhere.
-/

namespace DocStore

namespace Like

inductive Piece where
  | anyText
  | anyChar
  | oneOf (set : List Char)
  | char (c : Char)

def listed (c : Char) : List Char → Bool
  | first :: '-' :: last :: rest => (first ≤ c && c ≤ last) || listed c rest
  | d :: rest => c == d || listed c rest
  | [] => false

def inSet (c : Char) : List Char → Bool
  | '^' :: set => !listed c set
  | set => listed c set

/-- The pieces of a pattern; `set` holds what has been read of a set that is open. A set that is
never closed accepts nothing. -/
def pieces (set : Option (List Char)) : List Char → List Piece
  | [] => if set.isSome then [.oneOf []] else []
  | c :: rest =>
    match set with
    | some read => if c = ']' then .oneOf read :: pieces none rest else pieces (read ++ [c]) rest
    | none =>
      if c = '%' then .anyText :: pieces none rest
      else if c = '_' then .anyChar :: pieces none rest
      else if c = '[' then pieces (some []) rest
      else .char c :: pieces none rest

def Piece.acceptsChar (c : Char) : Piece → Bool
  | anyText | anyChar => true
  | oneOf set => inSet c set
  | char d => c == d

def acceptsFrom : List Piece → List Char → Bool
  | [], text => text.isEmpty
  | .anyText :: rest, text => text.tails.any (acceptsFrom rest)
  | _ :: _, [] => false
  | piece :: rest, c :: text => piece.acceptsChar c && acceptsFrom rest text

def accepts (pattern text : String) : Bool :=
  acceptsFrom (pieces none pattern.toList) text.toList

example : accepts "a[^b-d]%" "axyz" = true ∧ accepts "a[^b-d]%" "acyz" = false := by
  decide +kernel

def literal (c : Char) : Piece :=
  if c = '[' ∨ c = '%' ∨ c = '_' then .oneOf [c] else .char c

theorem pieces_escapeChar (c : Char) (rest : List Char) :
    pieces none (Pattern.escapeChar c ++ rest) = literal c :: pieces none rest := by
  unfold Pattern.escapeChar
  split
  · next h =>
    subst h
    rfl
  · split
    · next h =>
      subst h
      rfl
    · split
      · next h =>
        subst h
        rfl
      · next hopen hany hone =>
        simp [pieces, literal, hopen, hany, hone]

theorem pieces_escape (text rest : List Char) :
    pieces none (text.flatMap Pattern.escapeChar ++ rest) =
      text.map literal ++ pieces none rest := by
  induction text with
  | nil => rfl
  | cons c text ih =>
    rw [List.flatMap_cons, List.append_assoc, pieces_escapeChar, ih]
    rfl

theorem acceptsFrom_literal (c : Char) (rest : List Piece) (text : List Char) :
    acceptsFrom (literal c :: rest) text = true ↔
      ∃ tail, text = c :: tail ∧ acceptsFrom rest tail = true := by
  cases text with
  | nil =>
    unfold literal
    split <;> simp [acceptsFrom]
  | cons d text =>
    have hstep : acceptsFrom (literal c :: rest) (d :: text) =
        (d == c && acceptsFrom rest text) := by
      unfold literal
      split
      · next h =>
        rcases h with rfl | rfl | rfl <;>
          simp [acceptsFrom, Piece.acceptsChar, inSet, listed]
      · rfl
    rw [hstep, Bool.and_eq_true, beq_iff_eq]
    simp [and_assoc]

theorem acceptsFrom_literals (word : List Char) (rest : List Piece) (text : List Char) :
    acceptsFrom (word.map literal ++ rest) text = true ↔
      ∃ tail, text = word ++ tail ∧ acceptsFrom rest tail = true := by
  induction word generalizing text with
  | nil => simp
  | cons c word ih =>
    rw [List.map_cons, List.cons_append, acceptsFrom_literal]
    simp only [ih]
    constructor
    · rintro ⟨_, rfl, tail, rfl, h⟩
      exact ⟨tail, rfl, h⟩
    · rintro ⟨tail, rfl, h⟩
      exact ⟨_, rfl, tail, rfl, h⟩

theorem acceptsFrom_anyText (rest : List Piece) (text : List Char) :
    acceptsFrom (.anyText :: rest) text = true ↔
      ∃ tail, tail <:+ text ∧ acceptsFrom rest tail = true := by
  simp [acceptsFrom]

theorem acceptsFrom_anyText_nil (text : List Char) : acceptsFrom [.anyText] text = true :=
  (acceptsFrom_anyText [] text).2 ⟨[], List.nil_suffix, rfl⟩

theorem pieces_escape_text (word : String) (rest : List Char) :
    pieces none ((Pattern.escape word).toList ++ rest) =
      word.toList.map literal ++ pieces none rest := by
  rw [Pattern.escape, String.toList_ofList, pieces_escape]

theorem pieces_percent (rest : List Char) :
    pieces none ("%".toList ++ rest) = .anyText :: pieces none rest := rfl

/-- Text that is asked for at the beginning is met where the other text begins with it. -/
theorem accepts_startsWith (word text : String) :
    accepts (Pattern.startsWith word) text = true ↔ word.toList <+: text.toList := by
  rw [accepts, Pattern.startsWith, String.toList_append, pieces_escape_text, acceptsFrom_literals]
  constructor
  · rintro ⟨tail, h, -⟩
    exact ⟨tail, h.symm⟩
  · rintro ⟨tail, h⟩
    exact ⟨tail, h.symm, acceptsFrom_anyText_nil tail⟩

theorem accepts_endsWith (word text : String) :
    accepts (Pattern.endsWith word) text = true ↔ word.toList <:+ text.toList := by
  have hpieces : pieces none (Pattern.endsWith word).toList =
      .anyText :: (word.toList.map literal ++ []) := by
    have h := pieces_escape_text word []
    rw [List.append_nil] at h
    rw [Pattern.endsWith, String.toList_append, pieces_percent, h]
    rfl
  rw [accepts, hpieces, acceptsFrom_anyText]
  constructor
  · rintro ⟨tail, htail, h⟩
    obtain ⟨rest, rfl, hrest⟩ := (acceptsFrom_literals _ _ _).1 h
    rwa [List.isEmpty_iff.1 hrest, List.append_nil] at htail
  · intro h
    exact ⟨word.toList, h, (acceptsFrom_literals _ _ _).2 ⟨[], (List.append_nil _).symm, rfl⟩⟩

/-- Text that is asked for anywhere is met where it occurs, whatever characters it has. -/
theorem accepts_contains (word text : String) :
    accepts (Pattern.contains word) text = true ↔ word.toList <:+: text.toList := by
  have hpieces : pieces none (Pattern.contains word).toList =
      .anyText :: (word.toList.map literal ++ [.anyText]) := by
    rw [Pattern.contains, Pattern.anywhere, String.toList_append, String.toList_append,
      List.append_assoc, pieces_percent, pieces_escape_text]
    rfl
  rw [accepts, hpieces, acceptsFrom_anyText]
  simp only [acceptsFrom_literals, acceptsFrom_anyText_nil, and_true]
  constructor
  · rintro ⟨_, ⟨before, h⟩, after, rfl⟩
    exact ⟨before, after, by rw [List.append_assoc, h]⟩
  · rintro ⟨before, after, h⟩
    exact ⟨word.toList ++ after, ⟨before, by rw [← List.append_assoc, h]⟩, after, rfl⟩

end Like

namespace Pattern

theorem escape_append (a b : String) : escape (a ++ b) = escape a ++ escape b := by
  apply String.toList_inj.1
  simp only [escape, String.toList_append, String.toList_ofList, List.flatMap_append]

theorem escape_opening :
    escape (String.ofList Composite.opening) = String.ofList Composite.opening := by
  simp only [escape, String.toList_ofList]
  rfl

theorem escape_closing :
    escape (String.ofList Composite.closing) = String.ofList Composite.closing := by
  simp only [escape, String.toList_ofList]
  rfl

theorem element_eq (text : String) :
    Composite.element text = String.ofList Composite.opening ++ text ++
      String.ofList Composite.closing := by
  apply String.toList_inj.1
  simp only [Composite.element, String.toList_append, String.toList_ofList]

theorem hasElement_eq (text : String) :
    hasElement text = contains (Composite.element text) := by
  rw [hasElement, contains, element_eq, element_eq, escape_append, escape_append, escape_opening,
    escape_closing]

theorem hasElementStartingWith_eq (text : String) :
    hasElementStartingWith text = contains (String.ofList Composite.opening ++ text) := by
  rw [contains, escape_append, escape_opening, anywhere, ← String.append_assoc]
  rfl

theorem hasElementEndingWith_eq (text : String) :
    hasElementEndingWith text = contains (text ++ String.ofList Composite.closing) := by
  have hend : "$>%" = String.ofList Composite.closing ++ "%" := by decide
  rw [contains, escape_append, escape_closing, anywhere, hasElementEndingWith, hend]
  simp only [String.append_assoc]

end Pattern

namespace Interpretation

/-- A text ends in a blank, which a database may leave out of account. -/
def EndsInBlank (text : String) : Prop :=
  text.toList.getLast? = some ' '

/-- How a database with a binary collation relates strings. -/
structure IsBinary (I : Interpretation) : Prop where
  like : ∀ text pattern, I.like (.string text) (.string pattern) =
    .ofBool (Like.accepts pattern text)
  equal : ∀ a b, ¬ EndsInBlank a → ¬ EndsInBlank b →
    I.equal (.string a) (.string b) = .ofBool (a == b)

/-- A binary collation that leaves out nothing. Other values are equal if they are the same, and
have no order. -/
def binary : Interpretation where
  equal a b := .ofBool (decide (a = b))
  less _ _ := .unknown
  atMost _ _ := .unknown
  like
    | .string text, .string pattern => .ofBool (Like.accepts pattern text)
    | _, _ => .unknown
  within a listed := .ofBool (listed.contains a)
  equal_comm a b := by rw [decide_eq_decide.2 eq_comm]
  equal_boolean a b := by cases a <;> cases b <;> rfl

theorem isBinary_binary : binary.IsBinary where
  like _ _ := rfl
  equal a b _ _ := by
    simp [binary, beq_eq_decide]

end Interpretation

end DocStore
