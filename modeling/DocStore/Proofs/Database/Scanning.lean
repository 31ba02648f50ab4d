import DocStore.Database.Statement
import DocStore.Proofs.Sql.Rendering
import Mathlib.Data.List.Forall2

/-!
# Scanning rendered text

What the scanners of the database find in text that was rendered: names between brackets, lists of
them, and definitions of columns separated by commas.
-/

namespace DocStore

/-- A name that brackets hold as it is. -/
def Quotable (name : String) : Prop :=
  name ≠ "" ∧ ']' ∉ name.toList

instance (name : String) : Decidable (Quotable name) :=
  inferInstanceAs (Decidable (_ ∧ _))

def Statement.depthAfter (depth : Nat) (c : Char) : Nat :=
  if c = '(' then depth + 1 else if c = ')' then depth - 1 else depth

/-- The number of open parentheses after a text without commas outside parentheses. -/
def Statement.nesting? (depth : Nat) : List Char → Option Nat
  | [] => some depth
  | c :: rest => if c = ',' ∧ depth = 0 then none else nesting? (depthAfter depth c) rest

/-- A name that also stands in a list of definitions as it is: it leaves no parenthesis open and
has no comma outside parentheses. -/
structure Definable (name : String) : Prop where
  quotable : Quotable name
  nesting : Statement.nesting? 0 name.toList = some 0

/-- A name that also stands among the columns of an insertion as it is. -/
structure Insertable (name : String) : Prop where
  quotable : Quotable name
  values : Statement.around? ") values (".toList name.toList = none

instance (name : String) : Decidable (Insertable name) :=
  decidable_of_iff (Quotable name ∧ Statement.around? ") values (".toList name.toList = none)
    ⟨fun h => ⟨h.1, h.2⟩, fun h => ⟨h.quotable, h.values⟩⟩

/-- A name without a character that ends anything in a definition or an insertion. -/
structure Plain (name : String) : Prop where
  quotable : Quotable name
  comma : ',' ∉ name.toList
  opening : '(' ∉ name.toList
  closing : ')' ∉ name.toList

namespace Text

theorem trimStart_cons {c : Char} {text : List Char} (h : isBlank c = false) :
    trimStart (c :: text) = c :: text :=
  List.dropWhile_cons_of_neg (by simp [h])

theorem trimEnd_concat {c : Char} {text : List Char} (h : isBlank c = false) :
    trimEnd (text ++ [c]) = text ++ [c] := by
  rw [trimEnd, List.reverse_append, List.reverse_singleton, List.singleton_append,
    List.dropWhile_cons_of_neg (by simp [h])]
  simp

theorem trimStart_append {blanks text : List Char} (h : ∀ c ∈ blanks, isBlank c = true) :
    trimStart (blanks ++ text) = trimStart text := by
  induction blanks with
  | nil => rfl
  | cons c blanks ih =>
    rw [List.forall_mem_cons] at h
    rw [List.cons_append, trimStart, List.dropWhile_cons_of_pos h.1]
    exact ih h.2

def IsTrimmed (text : List Char) : Prop :=
  (∃ c rest, text = c :: rest ∧ isBlank c = false) ∧
    ∃ rest c, text = rest ++ [c] ∧ isBlank c = false

theorem trim_append {blanks text : List Char} (hb : ∀ c ∈ blanks, isBlank c = true)
    (ht : IsTrimmed text) : trim (blanks ++ text) = text := by
  obtain ⟨⟨c, rest, rfl, hc⟩, front, d, hfront, hd⟩ := ht
  rw [trim, trimStart_append hb, trimStart_cons hc, hfront, trimEnd_concat hd]

theorem isBlank_of_isDigit {c : Char} (h : c.isDigit = true) : isBlank c = false := by
  have hlow : 48 ≤ c.toNat := (Char.isDigit_iff_toNat.1 h).1
  have hhigh : c.toNat ≤ 57 := (Char.isDigit_iff_toNat.1 h).2
  rw [Bool.eq_false_iff]
  intro hb
  obtain ⟨r, hr, hin⟩ := List.any_eq_true.1 hb
  simp only [Bool.and_eq_true, decide_eq_true_eq] at hin
  simp only [blankRanges, List.mem_cons, List.not_mem_nil, or_false] at hr
  rcases hr with rfl | rfl | rfl | rfl | rfl | rfl | rfl | rfl | rfl | rfl <;>
    dsimp only at hin <;> omega

theorem pieces_of_notMem {separator : Char} {text : List Char} (h : separator ∉ text) :
    pieces separator text = [text] := by
  induction text with
  | nil => rfl
  | cons c text ih =>
    rw [List.mem_cons, not_or] at h
    rw [pieces, if_neg (Ne.symm h.1), ih h.2]

theorem pieces_append {separator : Char} {front rest : List Char} (h : separator ∉ front) :
    pieces separator (front ++ separator :: rest) = front :: pieces separator rest := by
  induction front with
  | nil => rw [List.nil_append, pieces, if_pos rfl]
  | cons c front ih =>
    rw [List.mem_cons, not_or] at h
    rw [List.cons_append, pieces, if_neg (Ne.symm h.1), ih h.2]

end Text

namespace Statement

theorem sameLetter_self {c : Char} (h : c = c.toLower) : sameLetter c c = true := by
  simp [sameLetter, ← h]

theorem words?_append {words rest : List Char} (h : ∀ c ∈ words, c = c.toLower) :
    words? words (words ++ rest) = some rest := by
  induction words with
  | nil => rfl
  | cons c words ih =>
    rw [List.forall_mem_cons] at h
    rw [List.cons_append, words?, sameLetter_self h.1, if_pos rfl, ih h.2]

theorem words?_append_mark {mark : Char} {words text : List Char} (rest : List Char)
    (hm : ∀ w ∈ words, sameLetter w mark = false) (h : words? words text = none) :
    words? words (text ++ mark :: rest) = none := by
  induction words generalizing text with
  | nil => cases h
  | cons w words ih =>
    rw [List.forall_mem_cons] at hm
    cases text with
    | nil => rw [List.nil_append, words?, hm.1, if_neg Bool.false_ne_true]
    | cons c text =>
      rw [words?] at h
      rw [List.cons_append, words?]
      split at h
      · next hc => rw [if_pos hc, ih hm.2 h]
      · next hc => rw [if_neg hc]

/-- The words do not begin in the text, whatever stands behind it. -/
def Skips (words front : List Char) : Prop :=
  ∀ rest, around? words (front ++ rest) =
    (around? words rest).map fun (before, behind) => (front ++ before, behind)

theorem Skips.append {words front back : List Char} (hf : Skips words front)
    (hb : Skips words back) : Skips words (front ++ back) := by
  intro rest
  rw [List.append_assoc, hf, hb, Option.map_map]
  simp only [Function.comp_def, List.append_assoc]

theorem skips_singleton {w c : Char} (h : sameLetter w c = false) (words : List Char) :
    Skips (w :: words) [c] := by
  intro rest
  rw [List.singleton_append, around?, words?, h]
  rfl

/-- Words without the mark begin in a text with a mark behind it only if they stand in the text. -/
theorem skips_concat {w mark : Char} {words text : List Char}
    (hm : ∀ d ∈ w :: words, sameLetter d mark = false) (h : around? (w :: words) text = none) :
    Skips (w :: words) (text ++ [mark]) := by
  induction text with
  | nil => exact skips_singleton (hm w List.mem_cons_self) words
  | cons c text ih =>
    intro rest
    rw [around?] at h
    split at h
    · cases h
    · next hwords =>
      have hno := words?_append_mark rest hm hwords
      have hrest := ih (Option.map_eq_none_iff.1 h) rest
      rw [List.append_assoc, List.singleton_append] at hrest ⊢
      rw [List.cons_append] at hno ⊢
      rw [around?, hno]
      dsimp only
      rw [hrest, Option.map_map]
      simp only [Function.comp_def, List.append_assoc, List.cons_append, List.nil_append]

theorem around?_of_skips {w : Char} {words front : List Char}
    (hw : ∀ d ∈ w :: words, d = d.toLower) (h : Skips (w :: words) front) (rest : List Char) :
    around? (w :: words) (front ++ (w :: words ++ rest)) = some (front, rest) := by
  have hfirst : around? (w :: words) (w :: words ++ rest) = some ([], rest) := by
    rw [List.cons_append, around?, ← List.cons_append, words?_append hw]
  rw [h, hfirst, Option.map_some]
  dsimp only
  rw [List.append_nil]

theorem around?_eq_none {w : Char} {words text : List Char}
    (h : ∀ c ∈ text, sameLetter w c = false) : around? (w :: words) text = none := by
  induction text with
  | nil => rfl
  | cons c text ih =>
    rw [List.forall_mem_cons] at h
    rw [around?, words?, h.1, if_neg Bool.false_ne_true]
    dsimp only
    rw [ih h.2, Option.map_none]

theorem chars_of_quotable {name : String} (h : Quotable name) :
    (Piece.name name).chars = '[' :: name.toList ++ [']'] := by
  rw [Piece.chars, doubled_of_notMem h.2]

theorem toList_ne_nil {name : String} (h : name ≠ "") : name.toList ≠ [] := by
  intro hn
  exact h (String.toList_inj.1 hn)

theorem skips_name {name : String} (h : Insertable name) :
    Skips ") values (".toList (Piece.name name).chars := by
  have hall : (')' :: " values (".toList).all (fun c => !sameLetter c ']') = true := by
    decide
  have hmark : ∀ c ∈ ')' :: " values (".toList, sameLetter c ']' = false := by
    simpa only [List.all_eq_true, Bool.not_eq_true'] using hall
  rw [chars_of_quotable h.quotable]
  exact (skips_singleton (by decide) " values (".toList).append (skips_concat hmark h.values)

theorem skips_names {names : List String} (h : ∀ n ∈ names, Insertable n) :
    Skips ") values (".toList (Sql.names names).chars := by
  induction names with
  | nil =>
    intro rest
    exact Option.map_id'.symm
  | cons n names ih =>
    rw [List.forall_mem_cons] at h
    cases names with
    | nil => simpa [Sql.names, Sql.join] using skips_name h.1
    | cons m names =>
      have hcons : (Sql.names (n :: m :: names)).chars =
          (Piece.name n).chars ++ ([','] ++ ([' '] ++ (Sql.names (m :: names)).chars)) := by
        simp [Sql.names, Sql.join, Piece.chars]
      rw [hcons]
      exact (skips_name h.1).append ((skips_singleton (by decide) _).append
        ((skips_singleton (by decide) _).append (ih h.2)))

theorem bracketed?_name {name : String} (h : Quotable name) (rest : List Char) :
    bracketed? ((Piece.name name).chars ++ rest) = some (name, rest) := by
  rw [chars_of_quotable h]
  have hp : ∀ c ∈ name.toList, decide (c ≠ ']') = true := by
    intro c hc
    simpa using fun hd : c = ']' => h.2 (hd ▸ hc)
  have htake : (name.toList ++ ']' :: rest).takeWhile (fun c => c ≠ ']') = name.toList := by
    rw [List.takeWhile_append_of_pos hp, List.takeWhile_cons_of_neg (by simp), List.append_nil]
  have hdrop : (name.toList ++ ']' :: rest).dropWhile (fun c => c ≠ ']') = ']' :: rest := by
    rw [List.dropWhile_append_of_pos hp, List.dropWhile_cons_of_neg (by simp)]
  rw [List.cons_append, List.cons_append, List.append_assoc, List.singleton_append, bracketed?,
    htake, hdrop]
  cases hn : name.toList with
  | nil => exact absurd hn (toList_ne_nil h.1)
  | cons c chars =>
    have hname : String.ofList (c :: chars) = name := by rw [← hn, String.ofList_toList]
    simp only [hname]

theorem bracketedNames_inside {name front rest : List Char} (h : ']' ∉ name)
    (hne : front.reverse ++ name ≠ []) :
    bracketedNames (some front) (name ++ ']' :: rest) =
      String.ofList (front.reverse ++ name) :: bracketedNames none rest := by
  induction name generalizing front with
  | nil =>
    have hf : front.isEmpty = false := by
      cases front with
      | nil => exact absurd rfl hne
      | cons => rfl
    rw [List.nil_append, bracketedNames, if_pos rfl, hf, List.append_nil]
    simp only [Bool.false_eq_true, if_false]
  | cons c name ih =>
    rw [List.mem_cons, not_or] at h
    rw [List.cons_append, bracketedNames]
    simp only [Ne.symm h.1, if_false]
    rw [ih h.2 (by simp), List.reverse_cons, List.append_assoc, List.singleton_append]

theorem bracketedNames_name {name : String} (h : Quotable name) (rest : List Char) :
    bracketedNames none ((Piece.name name).chars ++ rest) = name :: bracketedNames none rest := by
  rw [chars_of_quotable h, List.cons_append, List.cons_append, List.append_assoc,
    List.singleton_append, bracketedNames, if_pos rfl,
    bracketedNames_inside h.2 (by simpa using toList_ne_nil h.1), List.reverse_nil,
    List.nil_append, String.ofList_toList]

theorem bracketedNames_names {names : List String} (h : ∀ n ∈ names, Quotable n) :
    bracketedNames none (Sql.names names).chars = names := by
  induction names with
  | nil => rfl
  | cons n names ih =>
    rw [List.forall_mem_cons] at h
    cases names with
    | nil =>
      have hn := bracketedNames_name h.1 []
      rw [List.append_nil] at hn
      simpa [Sql.names, Sql.join, bracketedNames] using hn
    | cons m names =>
      have hcons : (Sql.names (n :: m :: names)).chars =
          (Piece.name n).chars ++ ',' :: ' ' :: (Sql.names (m :: names)).chars := by
        simp [Sql.names, Sql.join, Piece.chars]
      rw [hcons, bracketedNames_name h.1]
      exact congrArg (n :: ·) (ih h.2)

theorem nesting?_append {depth inner : Nat} {front rest : List Char}
    (h : nesting? depth front = some inner) :
    nesting? depth (front ++ rest) = nesting? inner rest := by
  induction front generalizing depth with
  | nil =>
    obtain rfl := Option.some.inj h
    rfl
  | cons c front ih =>
    rw [nesting?] at h
    rw [List.cons_append, nesting?]
    split at h
    · cases h
    · next hc => rw [if_neg hc, ih h]

theorem nesting?_of_notMem {depth : Nat} {text : List Char} (hc : ',' ∉ text) (ho : '(' ∉ text)
    (he : ')' ∉ text) : nesting? depth text = some depth := by
  induction text with
  | nil => rfl
  | cons c text ih =>
    rw [List.mem_cons, not_or] at hc ho he
    rw [nesting?, if_neg fun h => hc.1 h.1.symm, depthAfter, if_neg (Ne.symm ho.1),
      if_neg (Ne.symm he.1), ih hc.2 ho.2 he.2]

theorem nesting?_name {name : String} (h : Definable name) :
    nesting? 0 (Piece.name name).chars = some 0 := by
  rw [chars_of_quotable h.quotable]
  change nesting? 0 (name.toList ++ [']']) = some 0
  rw [nesting?_append h.nesting]
  rfl

theorem topLevelParts_append {depth inner : Nat} {part front rest : List Char}
    (h : nesting? depth front = some inner) :
    topLevelParts depth part (front ++ rest) =
      topLevelParts inner (front.reverse ++ part) rest := by
  induction front generalizing depth part with
  | nil =>
    obtain rfl := Option.some.inj h
    rfl
  | cons c front ih =>
    rw [nesting?] at h
    rw [List.cons_append, topLevelParts]
    split at h
    · cases h
    · next hc =>
      rw [if_neg hc]
      change topLevelParts (depthAfter depth c) (c :: part) (front ++ rest) = _
      rw [ih h, List.reverse_cons, List.append_assoc, List.singleton_append]

/-- A part of a list of definitions, and the column that it defines, if any. -/
structure IsDefinition (sql : Sql) (column : Option String) : Prop where
  nesting : nesting? 0 sql.chars = some 0
  trimmed : Text.IsTrimmed sql.chars
  column : leadingName? sql.chars = column

theorem topLevelParts_join {sql : Sql} {parts : List Sql} {part : List Char}
    {columns : List (Option String)} (hp : ∀ c ∈ part, Text.isBlank c = true)
    (h : List.Forall₂ IsDefinition (sql :: parts) columns) :
    topLevelParts 0 part (Sql.join ", " (sql :: parts)).chars = (sql :: parts).map Sql.chars := by
  induction parts generalizing sql part columns with
  | nil =>
    obtain ⟨c, columns, hsql, _, rfl⟩ := List.forall₂_cons_left_iff.1 h
    have hparts : topLevelParts 0 part (sql.chars ++ []) =
        topLevelParts 0 (sql.chars.reverse ++ part) [] := topLevelParts_append hsql.nesting
    rw [List.append_nil] at hparts
    rw [Sql.join, hparts, topLevelParts, List.reverse_append, List.reverse_reverse,
      Text.trim_append (fun c hc => hp c (List.mem_reverse.1 hc)) hsql.trimmed]
    rfl
  | cons other parts ih =>
    obtain ⟨c, columns, hsql, hothers, rfl⟩ := List.forall₂_cons_left_iff.1 h
    have hchars : (Sql.join ", " (sql :: other :: parts)).chars =
        sql.chars ++ ',' :: ' ' :: (Sql.join ", " (other :: parts)).chars := by
      rw [Sql.join_cons_cons, Sql.chars_append, Sql.chars_cons]
      rfl
    have hblank : ∀ c ∈ [' '], Text.isBlank c = true := List.all_eq_true.1 (by decide)
    have hspace : topLevelParts 0 [] (' ' :: (Sql.join ", " (other :: parts)).chars) =
        topLevelParts 0 [' '] (Sql.join ", " (other :: parts)).chars := rfl
    rw [hchars, topLevelParts_append hsql.nesting, topLevelParts, if_pos ⟨rfl, rfl⟩,
      List.reverse_append, List.reverse_reverse,
      Text.trim_append (fun c hc => hp c (List.mem_reverse.1 hc)) hsql.trimmed, hspace,
      ih hblank hothers]
    rfl

theorem filterMap_leadingName? {parts : List Sql} {columns : List (Option String)}
    (h : List.Forall₂ IsDefinition parts columns) :
    (parts.map Sql.chars).filterMap leadingName? = columns.filterMap id := by
  induction h with
  | nil => rfl
  | cons hsql _ ih =>
    rw [List.map_cons, List.filterMap_cons, List.filterMap_cons, hsql.column, ih]
    rfl

theorem definedColumns_join {parts : List Sql} {columns : List (Option String)}
    (h : List.Forall₂ IsDefinition parts columns) :
    definedColumns (Sql.join ", " parts).chars = columns.filterMap id := by
  rw [definedColumns, ← filterMap_leadingName? h]
  cases parts with
  | nil => rfl
  | cons sql parts =>
    have hnil : ∀ c ∈ ([] : List Char), Text.isBlank c = true := by simp
    rw [topLevelParts_join hnil h]

theorem isTrimmed_parameter (k : Nat) : Text.IsTrimmed (Piece.parameter k).chars := by
  refine ⟨⟨'@', _, rfl, by decide⟩, ?_⟩
  have hne : Nat.toDigits 10 k ≠ [] := List.ne_nil_of_length_pos Nat.length_toDigits_pos
  refine ⟨'@' :: 'p' :: (Nat.toDigits 10 k).dropLast, (Nat.toDigits 10 k).getLast hne, ?_, ?_⟩
  · rw [List.cons_append, List.cons_append, List.dropLast_append_getLast]
    rfl
  · exact Text.isBlank_of_isDigit
      (Nat.isDigit_of_mem_toDigits (by decide) (by decide) (List.getLast_mem hne))

theorem comma_notMem_parameter (k : Nat) : ',' ∉ (Piece.parameter k).chars := by
  intro h
  obtain h | h | h : ',' = '@' ∨ ',' = 'p' ∨ ',' ∈ Nat.toDigits 10 k := by
    simpa [Piece.chars] using h
  · exact absurd h (by decide)
  · exact absurd h (by decide)
  · exact absurd (Nat.isDigit_of_mem_toDigits (by decide) (by decide) h) (by decide)

theorem ofList_parameter (k : Nat) : String.ofList (Piece.parameter k).chars = parameterName k := by
  rw [← Piece.toList_render, String.ofList_toList]
  rfl

theorem ofList_trim_parameter {blanks : List Char} (hb : ∀ c ∈ blanks, Text.isBlank c = true)
    (k : Nat) :
    String.ofList (Text.trim (blanks ++ (Piece.parameter k).chars)) = parameterName k := by
  rw [Text.trim_append hb (isTrimmed_parameter k), ofList_parameter]

theorem pieces_parameters {k : Nat} {numbers : List Nat} {blanks : List Char}
    (hb : ∀ c ∈ blanks, Text.isBlank c = true) (hc : ',' ∉ blanks) :
    (Text.pieces ',' (blanks ++ (Sql.join ", "
        ((k :: numbers).map fun number => [Piece.parameter number])).chars)).map
      (fun value => String.ofList (Text.trim value)) = (k :: numbers).map parameterName := by
  induction numbers generalizing k blanks with
  | nil =>
    have hchars : (Sql.join ", " ([k].map fun number => [Piece.parameter number])).chars =
        (Piece.parameter k).chars := by simp [Sql.join]
    have hnot : ',' ∉ blanks ++ (Piece.parameter k).chars := by
      simp [hc, comma_notMem_parameter k]
    rw [hchars, Text.pieces_of_notMem hnot, List.map_singleton, ofList_trim_parameter hb]
    rfl
  | cons j numbers ih =>
    have hchars : (Sql.join ", "
        ((k :: j :: numbers).map fun number => [Piece.parameter number])).chars =
          (Piece.parameter k).chars ++ ',' :: ([' '] ++ (Sql.join ", "
            ((j :: numbers).map fun number => [Piece.parameter number])).chars) := by
      simp [Sql.join, Piece.chars]
    have hnot : ',' ∉ blanks ++ (Piece.parameter k).chars := by
      simp [hc, comma_notMem_parameter k]
    have hblank : ∀ c ∈ [' '], Text.isBlank c = true := List.all_eq_true.1 (by decide)
    rw [hchars, ← List.append_assoc, Text.pieces_append hnot, List.map_cons,
      ofList_trim_parameter hb, ih hblank (by decide)]
    rfl

theorem sameLetter_closing {c : Char} (h : c ≠ ')') : sameLetter ')' c = false := by
  have hlower : ')' ≠ c.toLower := by
    intro heq
    unfold Char.toLower at heq
    split at heq
    · next hc =>
      have hv := congrArg (fun c => c.val.toNat) heq
      have hlow := UInt32.le_iff_toNat_le.1 hc.1
      have hhigh := UInt32.le_iff_toNat_le.1 hc.2
      simp at hv hlow hhigh
      omega
    · exact h heq.symm
  simp [sameLetter, hlower]

end Statement

namespace Plain

variable {name : String}

theorem definable (h : Plain name) : Definable name :=
  ⟨h.quotable, Statement.nesting?_of_notMem h.comma h.opening h.closing⟩

theorem insertable (h : Plain name) : Insertable name :=
  ⟨h.quotable, Statement.around?_eq_none fun _ hc =>
    Statement.sameLetter_closing fun he => h.closing (he ▸ hc)⟩

end Plain

end DocStore
