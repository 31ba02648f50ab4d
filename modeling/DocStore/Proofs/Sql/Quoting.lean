import DocStore.Proofs.Sql.Rendering

/-!
# Quotes in statements

The text of a statement as names in brackets, literals in quotes and single characters outside of
both. Whatever stands in a name or a literal, the pieces of a statement are told apart again, if its
fixed text has no quotes of its own and no literal follows another directly.
-/

namespace DocStore

inductive Quote where
  | name
  | literal
  deriving DecidableEq, Repr

namespace Quote

def opening : Quote → Char
  | name => '['
  | literal => '\''

def closing : Quote → Char
  | name => ']'
  | literal => '\''

end Quote

inductive Segment where
  | outside (c : Char)
  | quoted (q : Quote) (text : String)
  deriving DecidableEq

namespace Segment

/-- Reads on outside of quotes or behind an opening one; the characters since then are held in
reverse. Two closing signs stand for one inside. -/
def read? : Option (Quote × List Char) → List Char → Option (List Segment)
  | none, [] => some []
  | none, c :: rest =>
    if c = Quote.name.opening then read? (some (.name, [])) rest
    else if c = Quote.literal.opening then read? (some (.literal, [])) rest
    else (read? none rest).map (outside c :: ·)
  | some _, [] => none
  | some (q, text), [c] =>
    if c = q.closing then some [quoted q (String.ofList text.reverse)] else none
  | some (q, text), c :: d :: rest =>
    if c = q.closing then
      if d = q.closing then read? (some (q, c :: text)) rest
      else (read? none (d :: rest)).map (quoted q (String.ofList text.reverse) :: ·)
    else read? (some (q, c :: text)) (d :: rest)

def ofText? (text : String) : Option (List Segment) :=
  read? none text.toList

variable {q : Quote} {rest : List Char}

theorem read?_outside {text : List Char}
    (h : ∀ c ∈ text, c ≠ Quote.name.opening ∧ c ≠ Quote.literal.opening) :
    read? none (text ++ rest) = (read? none rest).map (text.map outside ++ ·) := by
  induction text with
  | nil => cases hr : read? none rest <;> simp [hr]
  | cons c text ih =>
    rw [List.forall_mem_cons] at h
    rw [List.cons_append, read?, if_neg h.1.1, if_neg h.1.2, ih h.2, Option.map_map]
    rfl

theorem read?_inside (before : List Char) {c : Char} (hc : c ≠ q.closing)
    (hrest : rest ≠ []) :
    read? (some (q, before)) (c :: rest) = read? (some (q, c :: before)) rest := by
  cases rest with
  | nil => exact absurd rfl hrest
  | cons d rest => rw [read?, if_neg hc]

theorem read?_end (before : List Char) (hrest : rest.head? ≠ some q.closing) :
    read? (some (q, before)) (q.closing :: rest) =
      (read? none rest).map (quoted q (String.ofList before.reverse) :: ·) := by
  cases rest with
  | nil => exact if_pos rfl
  | cons d rest =>
    have hd : d ≠ q.closing := fun h => hrest (congrArg some h)
    exact (if_pos rfl).trans (if_neg hd)

theorem read?_closing (text before : List Char) (hrest : rest.head? ≠ some q.closing) :
    read? (some (q, before)) (doubled q.closing text ++ q.closing :: rest) =
      (read? none rest).map (quoted q (String.ofList (before.reverse ++ text)) :: ·) := by
  induction text generalizing before with
  | nil =>
    rw [List.append_nil]
    exact read?_end before hrest
  | cons c text ih =>
    have hstep := ih (c :: before)
    have hcons : doubled q.closing (c :: text) =
      (if c = q.closing then [q.closing, q.closing] else [c]) ++ doubled q.closing text := rfl
    rw [List.reverse_cons, List.append_assoc, List.singleton_append] at hstep
    rw [hcons, ← hstep]
    by_cases hc : c = q.closing
    · rw [if_pos hc, hc]
      simp only [List.cons_append, List.nil_append]
      rw [read?, if_pos rfl, if_pos rfl]
    · rw [if_neg hc]
      exact read?_inside before hc (by simp)

/-- Quotes are left where the text in them ends, whatever it is. -/
theorem read?_quoted (text : String) (hrest : rest.head? ≠ some q.closing) :
    read? none (q.opening :: (doubled q.closing text.toList ++ q.closing :: rest)) =
      (read? none rest).map (quoted q text :: ·) := by
  have hopen : ∀ others, read? none (q.opening :: others) = read? (some (q, [])) others := by
    intro others
    cases q
    · exact if_pos rfl
    · exact (if_neg (by decide)).trans (if_pos rfl)
  rw [hopen, read?_closing _ _ hrest, List.reverse_nil, List.nil_append, String.ofList_toList]

end Segment

def Unquoted (text : String) : Prop :=
  ∀ c ∈ text.toList, c ≠ '[' ∧ c ≠ ']' ∧ c ≠ '\''

instance (text : String) : Decidable (Unquoted text) :=
  List.decidableBAll (fun c => c ≠ '[' ∧ c ≠ ']' ∧ c ≠ '\'') text.toList

theorem Unquoted.append {s t : String} (hs : Unquoted s) (ht : Unquoted t) : Unquoted (s ++ t) := by
  intro c hc
  rw [String.toList_append, List.mem_append] at hc
  exact hc.elim (hs c) (ht c)

theorem unquoted_repr (n : Nat) : Unquoted n.repr := by
  intro c hc
  have hdigit := isDigit_of_mem_repr hc
  refine ⟨?_, ?_, ?_⟩ <;>
  · rintro rfl
    exact absurd hdigit (by decide)

theorem unquoted_parameterName (n : Nat) : Unquoted (parameterName n) :=
  Unquoted.append (by decide) (unquoted_repr n)

def Piece.segments : Piece → List Segment
  | raw text => text.toList.map .outside
  | name identifier => [.quoted .name identifier]
  | literal text => [.quoted .literal text]
  | parameter number => (parameterName number).toList.map .outside

namespace Sql

def segments (sql : Sql) : List Segment :=
  sql.flatMap Piece.segments

/-- Statements in which quotes end only where their pieces do. -/
inductive Sealed : Sql → Prop
  | nil : Sealed []
  | raw {text : String} {sql : Sql} (h : Unquoted text) (hs : Sealed sql) :
    Sealed (.raw text :: sql)
  | parameter {number : Nat} {sql : Sql} (hs : Sealed sql) : Sealed (.parameter number :: sql)
  | name {identifier : String} {sql : Sql} (hs : Sealed sql) : Sealed (.name identifier :: sql)
  | literal {text content : String} {sql : Sql} (h : Unquoted text) (hne : text ≠ "")
    (hs : Sealed sql) : Sealed (.raw text :: .literal content :: sql)

variable {sql : Sql}

/-- What follows a piece does not prolong its quotes. -/
theorem Sealed.head?_ne (h : Sealed sql) (q : Quote) : sql.chars.head? ≠ some q.closing := by
  have hunquoted : ∀ {text : String} {rest : List Char}, Unquoted text →
      rest.head? ≠ some q.closing → (text.toList ++ rest).head? ≠ some q.closing := by
    intro text rest htext hrest
    cases hc : text.toList with
    | nil => exact hrest
    | cons c others =>
      obtain ⟨-, hbracket, hquote⟩ := htext c (hc ▸ List.mem_cons_self)
      rintro ⟨⟩
      cases q
      · exact hbracket rfl
      · exact hquote rfl
  induction h with
  | nil => exact nofun
  | raw htext _ ih => exact hunquoted htext ih
  | parameter | name => cases q <;> simp [Piece.chars, Quote.closing]
  | @literal text content sql htext hne _ _ =>
    cases hc : text.toList with
    | nil => exact absurd (String.toList_inj.1 hc) hne
    | cons c others =>
      have hhead : (text.toList ++ ([] : List Char)).head? ≠ some q.closing :=
        hunquoted htext nofun
      rw [chars_cons, Piece.chars, hc]
      rwa [hc] at hhead

theorem Sealed.read? (h : Sealed sql) : Segment.read? none sql.chars = some sql.segments := by
  have hraw : ∀ {text : String} {rest : List Char}, Unquoted text →
      Segment.read? none (text.toList ++ rest) =
        (Segment.read? none rest).map (text.toList.map Segment.outside ++ ·) := by
    intro text rest htext
    exact Segment.read?_outside fun c hc => ⟨(htext c hc).1, (htext c hc).2.2⟩
  induction h with
  | nil => rfl
  | raw htext _ ih => rw [chars_cons, Piece.chars, hraw htext, ih]; rfl
  | @parameter number _ _ ih =>
    have hchars : (Piece.parameter number).chars = (parameterName number).toList := by
      rw [← Piece.toList_render, Piece.render]
    rw [chars_cons, hchars, hraw (unquoted_parameterName number), ih]
    rfl
  | @name identifier _ hs ih =>
    have hread := Segment.read?_quoted identifier (hs.head?_ne .name)
    rw [ih] at hread
    rw [chars_cons, Piece.chars, List.append_assoc]
    exact hread
  | @literal _ content _ htext _ hs ih =>
    have hread := Segment.read?_quoted content (hs.head?_ne .literal)
    rw [ih] at hread
    rw [chars_cons, Piece.chars, hraw htext, chars_cons, Piece.chars, List.append_assoc]
    exact congrArg (Option.map _) hread

/-- The pieces of a sealed statement are read back from its text. -/
theorem Sealed.ofText? (h : Sealed sql) : Segment.ofText? sql.render = some sql.segments := by
  rw [Segment.ofText?, toList_render, h.read?]

end Sql

end DocStore
