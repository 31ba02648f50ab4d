import DocStore.Proofs.Sql.Rendering
import DocStore.Schema.Basic
import DocStore.Text.Blank

/-!
# Lexemes of statements

The text of a statement as words, quoted names, columns of a named source, literals and signs.
Inside quotes a closing sign is written twice, so what stands between them can be any text.
-/

namespace DocStore

inductive Lexeme where
  | word (text : String)
  | name (text : String)
  /-- A name behind a word and a dot. -/
  | column (source name : String)
  | literal (text : String)
  | sign (c : Char)
  deriving DecidableEq, Inhabited

namespace Lexeme

/-- What is being read; characters are held in reverse. -/
inductive Mode where
  | between
  | word (text : List Char)
  | dotted (source : String)
  | name (source : Option String) (text : List Char)
  /-- Behind a closing bracket, which may be the first of two. -/
  | named (source : Option String) (text : List Char)
  | literal (text : List Char)
  /-- Behind a quote, which may be the first of two. -/
  | quoted (text : List Char)

def ofWord (text : List Char) : Lexeme :=
  .word (String.ofList text.reverse)

def ofName : Option String → List Char → Lexeme
  | none, text => .name (String.ofList text.reverse)
  | some source, text => .column source (String.ofList text.reverse)

def ofLiteral (text : List Char) : Lexeme :=
  .literal (String.ofList text.reverse)

def first (c : Char) : List Lexeme × Mode :=
  if Text.isBlank c then ([], .between)
  else if c = '[' then ([], .name none [])
  else if c = '\'' then ([], .literal [])
  else if Schema.isNameChar c then ([], .word [c])
  else ([.sign c], .between)

/-- The lexemes that a character ends, and what is read behind it. -/
def next (c : Char) : Mode → List Lexeme × Mode
  | .between => first c
  | .word text =>
    if Schema.isNameChar c then ([], .word (c :: text))
    else if c = '.' then ([], .dotted (String.ofList text.reverse))
    else (ofWord text :: (first c).1, (first c).2)
  | .dotted source =>
    if c = '[' then ([], .name (some source) [])
    else (.word source :: .sign '.' :: (first c).1, (first c).2)
  | .name source text =>
    if c = ']' then ([], .named source text) else ([], .name source (c :: text))
  | .named source text =>
    if c = ']' then ([], .name source (c :: text))
    else (ofName source text :: (first c).1, (first c).2)
  | .literal text => if c = '\'' then ([], .quoted text) else ([], .literal (c :: text))
  | .quoted text =>
    if c = '\'' then ([], .literal (c :: text))
    else (ofLiteral text :: (first c).1, (first c).2)

/-- The lexemes that the end of the text ends; quotes have to be closed. -/
def last? : Mode → Option (List Lexeme)
  | .between => some []
  | .word text => some [ofWord text]
  | .dotted source => some [.word source, .sign '.']
  | .named source text => some [ofName source text]
  | .quoted text => some [ofLiteral text]
  | .name _ _ | .literal _ => none

def read? (mode : Mode) : List Char → Option (List Lexeme)
  | [] => last? mode
  | c :: text => (read? (next c mode).2 text).map fun lexemes => (next c mode).1 ++ lexemes

def ofText? (text : String) : Option (List Lexeme) :=
  read? .between text.toList

variable {text rest : List Char} {c : Char}

theorem read?_cons {mode mode' : Mode} (h : next c mode = ([], mode')) :
    read? mode (c :: text) = read? mode' text := by
  rw [read?, h]
  cases read? mode' text <;> rfl

/-- A character behind a whole lexeme is read as if nothing stood before it. -/
theorem read?_first {mode : Mode} {lexeme : Lexeme} (hlast : last? mode = some [lexeme])
    (hnext : ∀ c, rest.head? = some c → next c mode = (lexeme :: (first c).1, (first c).2)) :
    read? mode rest = (read? .between rest).map (lexeme :: ·) := by
  cases rest with
  | nil => exact hlast
  | cons c rest =>
    rw [read?, read?, hnext c rfl, next]
    cases read? (first c).2 rest <;> rfl

theorem read?_letters (h : ∀ c ∈ text, Schema.isNameChar c = true) (before : List Char) :
    read? (.word before) (text ++ rest) = read? (.word (text.reverse ++ before)) rest := by
  induction text generalizing before with
  | nil => rfl
  | cons c text ih =>
    rw [List.forall_mem_cons] at h
    have hstep : next c (.word before) = ([], .word (c :: before)) := if_pos h.1
    rw [List.cons_append, read?_cons hstep, ih h.2, List.reverse_cons, List.append_assoc]
    rfl

theorem isNameChar_of_mem_repr {n : Nat} (h : c ∈ n.repr.toList) : Schema.isNameChar c = true := by
  simp [Schema.isNameChar, Char.isAlphanum, isDigit_of_mem_repr h]

/-- A numbered word has characters of names only. -/
theorem isNameChar_numbered {word : String} (h : word.toList.all Schema.isNameChar = true)
    (n : Nat) : ∀ c ∈ (word ++ n.repr).toList, Schema.isNameChar c = true := by
  intro c hc
  rw [String.toList_append, List.mem_append] at hc
  rcases hc with hc | hc
  · exact List.all_eq_true.1 h c hc
  · exact isNameChar_of_mem_repr hc

theorem isBlank_of_isNameChar (h : Schema.isNameChar c = true) : Text.isBlank c = false := by
  have hval : c.toNat = 95 ∨ 48 ≤ c.toNat ∧ c.toNat ≤ 57 ∨ 65 ≤ c.toNat ∧ c.toNat ≤ 90 ∨
      97 ≤ c.toNat ∧ c.toNat ≤ 122 := by
    unfold Schema.isNameChar Char.isAlphanum Char.isAlpha Char.isUpper Char.isLower
      Char.isDigit at h
    simp only [Bool.or_eq_true, Bool.and_eq_true, decide_eq_true_eq, ge_iff_le,
      UInt32.le_iff_toNat_le] at h
    rcases h with ((h | h) | h) | rfl
    · exact .inr (.inr (.inl h))
    · exact .inr (.inr (.inr h))
    · exact .inr (.inl h)
    · exact .inl rfl
  simp only [Text.isBlank, Text.blankRanges, List.any_cons, List.any_nil, Bool.or_false,
    Bool.or_eq_false_iff, Bool.and_eq_false_iff, decide_eq_false_iff_not]
  omega

theorem first_of_isNameChar (h : Schema.isNameChar c = true) : first c = ([], .word [c]) := by
  have hopen : c ≠ '[' := by
    rintro rfl
    exact absurd h (by decide)
  have hquote : c ≠ '\'' := by
    rintro rfl
    exact absurd h (by decide)
  rw [first, isBlank_of_isNameChar h, if_neg Bool.false_ne_true, if_neg hopen, if_neg hquote,
    if_pos h]

theorem doubled_cons (c d : Char) (text : List Char) :
    doubled c (d :: text) = (if d = c then [c, c] else [d]) ++ doubled c text :=
  rfl

theorem read?_closing (source : Option String) (text before : List Char)
    (hrest : rest.head? ≠ some ']') :
    read? (.name source before) (doubled ']' text ++ ']' :: rest) =
      (read? .between rest).map (ofName source (text.reverse ++ before) :: ·) := by
  induction text generalizing before with
  | nil =>
    have hend : read? (.named source before) rest =
        (read? .between rest).map (ofName source before :: ·) := by
      refine read?_first rfl fun c hc => ?_
      have hne : c ≠ ']' := fun h => hrest (h ▸ hc)
      rw [next, if_neg hne]
    have hclose : next ']' (.name source before) = ([], .named source before) := rfl
    exact (read?_cons hclose).trans hend
  | cons d text ih =>
    have hstep := ih (d :: before)
    rw [doubled_cons, List.reverse_cons, List.append_assoc, List.append_assoc,
      List.singleton_append, ← hstep]
    by_cases hd : d = ']'
    · subst hd
      have hone : next ']' (.name source before) = ([], .named source before) := rfl
      have htwo : next ']' (.named source before) = ([], .name source (']' :: before)) := rfl
      rw [if_pos rfl]
      exact (read?_cons hone).trans (read?_cons htwo)
    · have hinside : next d (.name source before) = ([], .name source (d :: before)) := if_neg hd
      rw [if_neg hd]
      exact read?_cons hinside

theorem read?_quote (text before : List Char) (hrest : rest.head? ≠ some '\'') :
    read? (.literal before) (doubled '\'' text ++ '\'' :: rest) =
      (read? .between rest).map (ofLiteral (text.reverse ++ before) :: ·) := by
  induction text generalizing before with
  | nil =>
    have hend : read? (.quoted before) rest =
        (read? .between rest).map (ofLiteral before :: ·) := by
      refine read?_first rfl fun c hc => ?_
      have hne : c ≠ '\'' := fun h => hrest (h ▸ hc)
      rw [next, if_neg hne]
    have hclose : next '\'' (.literal before) = ([], .quoted before) := rfl
    exact (read?_cons hclose).trans hend
  | cons d text ih =>
    have hstep := ih (d :: before)
    rw [doubled_cons, List.reverse_cons, List.append_assoc, List.append_assoc,
      List.singleton_append, ← hstep]
    by_cases hd : d = '\''
    · subst hd
      have hone : next '\'' (.literal before) = ([], .quoted before) := rfl
      have htwo : next '\'' (.quoted before) = ([], .literal ('\'' :: before)) := rfl
      rw [if_pos rfl]
      exact (read?_cons hone).trans (read?_cons htwo)
    · have hinside : next d (.literal before) = ([], .literal (d :: before)) := if_neg hd
      rw [if_neg hd]
      exact read?_cons hinside

theorem read?_name (name : String) (hrest : rest.head? ≠ some ']') :
    read? .between ((Piece.name name).chars ++ rest) =
      (read? .between rest).map (.name name :: ·) := by
  have hopen : next '[' .between = ([], .name none []) := rfl
  have hchars : (Piece.name name).chars ++ rest =
      '[' :: (doubled ']' name.toList ++ ']' :: rest) := by
    simp [Piece.chars]
  rw [hchars, read?_cons hopen, read?_closing none _ _ hrest, ofName, List.append_nil,
    List.reverse_reverse, String.ofList_toList]

theorem read?_literal (text : String) (hrest : rest.head? ≠ some '\'') :
    read? .between ((Piece.literal text).chars ++ rest) =
      (read? .between rest).map (.literal text :: ·) := by
  have hopen : next '\'' .between = ([], .literal []) := rfl
  have hchars : (Piece.literal text).chars ++ rest =
      '\'' :: (doubled '\'' text.toList ++ '\'' :: rest) := by
    simp [Piece.chars]
  rw [hchars, read?_cons hopen, read?_quote _ _ hrest, ofLiteral, List.append_nil,
    List.reverse_reverse, String.ofList_toList]

theorem read?_start {word : String} (hne : word ≠ "")
    (h : ∀ c ∈ word.toList, Schema.isNameChar c = true) :
    read? .between (word.toList ++ rest) = read? (.word word.toList.reverse) rest := by
  cases hw : word.toList with
  | nil => exact absurd (String.toList_inj.1 hw) hne
  | cons c text =>
    rw [hw, List.forall_mem_cons] at h
    have hfirst : next c .between = ([], .word [c]) := first_of_isNameChar h.1
    rw [List.cons_append, read?_cons hfirst, read?_letters h.2, List.reverse_cons]

theorem read?_word {word : String} (hne : word ≠ "")
    (h : ∀ c ∈ word.toList, Schema.isNameChar c = true)
    (hrest : ∀ c, rest.head? = some c → Schema.isNameChar c = false ∧ c ≠ '.') :
    read? .between (word.toList ++ rest) = (read? .between rest).map (.word word :: ·) := by
  have hword : ofWord word.toList.reverse = .word word := by
    rw [ofWord, List.reverse_reverse, String.ofList_toList]
  rw [read?_start hne h, ← hword]
  refine read?_first rfl fun c hc => ?_
  obtain ⟨hname, hdot⟩ := hrest c hc
  rw [next, if_neg (by simp [hname]), if_neg hdot]

theorem read?_column {source : String} (hne : source ≠ "")
    (h : ∀ c ∈ source.toList, Schema.isNameChar c = true) (name : String)
    (hrest : rest.head? ≠ some ']') :
    read? .between (source.toList ++ '.' :: ((Piece.name name).chars ++ rest)) =
      (read? .between rest).map (.column source name :: ·) := by
  have hdot : next '.' (.word source.toList.reverse) = ([], .dotted source) := by
    rw [next, if_neg (by decide), if_pos rfl, List.reverse_reverse, String.ofList_toList]
  have hopen : next '[' (.dotted source) = ([], .name (some source) []) := rfl
  have hchars : (Piece.name name).chars ++ rest =
      '[' :: (doubled ']' name.toList ++ ']' :: rest) := by
    simp [Piece.chars]
  rw [read?_start hne h, read?_cons hdot, hchars, read?_cons hopen, read?_closing _ _ _ hrest,
    ofName, List.append_nil, List.reverse_reverse, String.ofList_toList]

def scan (mode : Mode) : List Char → List Lexeme × Mode
  | [] => ([], mode)
  | c :: text => ((next c mode).1 ++ (scan (next c mode).2 text).1, (scan (next c mode).2 text).2)

theorem read?_append (mode : Mode) (text rest : List Char) :
    read? mode (text ++ rest) = (read? (scan mode text).2 rest).map ((scan mode text).1 ++ ·) := by
  induction text generalizing mode with
  | nil => simp [scan]
  | cons c text ih =>
    rw [List.cons_append, read?, ih, Option.map_map, scan]
    refine congrArg (Option.map · _) (funext fun lexemes => ?_)
    exact (List.append_assoc _ _ _).symm

/-- Fixed text with whole lexemes. -/
theorem read?_fixed {lexemes : List Lexeme} (h : scan .between text = (lexemes, .between)) :
    read? .between (text ++ rest) = (read? .between rest).map (lexemes ++ ·) := by
  rw [read?_append, h]

end Lexeme

end DocStore
