import DocStore.Proofs.Sql.Source

/-!
# The row columns that a text names

Predicates, sort keys and the joins of includes name columns of the rows of a query, whose source is
`rs`. The columns are read from the text; those of other sources and whatever stands in quotes are
passed over.
-/

namespace DocStore

namespace Lexeme

def rowColumn? : Lexeme → Option String
  | .column source c => if source = "rs" then some c else none
  | _ => none

/-- What neither continues a word nor doubles a closing sign. -/
def Apart (rest : List Char) : Prop :=
  ∀ c, rest.head? = some c → Schema.isNameChar c = false ∧ c ≠ '.' ∧ c ≠ ']'

namespace Apart

variable {rest : List Char}

theorem nil : Apart [] :=
  nofun

theorem cons {c : Char} (h : Schema.isNameChar c = false ∧ c ≠ '.' ∧ c ≠ ']')
    (rest : List Char) : Apart (c :: rest) := by
  intro d hd
  obtain rfl := Option.some.inj hd
  exact h

theorem head?_ne (h : Apart rest) : rest.head? ≠ some ']' :=
  fun hc => (h _ hc).2.2 rfl

theorem word (h : Apart rest) :
    ∀ c, rest.head? = some c → Schema.isNameChar c = false ∧ c ≠ '.' :=
  fun c hc => ⟨(h c hc).1, (h c hc).2.1⟩

end Apart

end Lexeme

open Lexeme (Apart read? read?_fixed read?_name read?_column read?_word scan)

def rowColumns? (text : String) : Option (List String) :=
  (Lexeme.ofText? text).map fun lexemes => lexemes.filterMap Lexeme.rowColumn?

namespace Sql

variable {s t : Sql} {columns others : List String} {rest : List Char}

/-- The statement names these columns of the rows, whatever is set apart behind it. -/
def Mentions (s : Sql) (columns : List String) : Prop :=
  ∃ lexemes, lexemes.filterMap Lexeme.rowColumn? = columns ∧ ∀ rest, Apart rest →
    read? .between (s.chars ++ rest) = (read? .between rest).map (lexemes ++ ·)

namespace Mentions

theorem rowColumns?_render (h : Mentions s columns) : rowColumns? s.render = some columns := by
  obtain ⟨lexemes, rfl, hread⟩ := h
  have hend : read? .between [] = some [] := rfl
  have hall := hread [] Apart.nil
  rw [List.append_nil, hend, Option.map_some, List.append_nil] at hall
  rw [rowColumns?, Lexeme.ofText?, toList_render, hall, Option.map_some]

theorem append (hs : Mentions s columns) (hapart : ∀ rest, Apart rest → Apart (t.chars ++ rest))
    (ht : Mentions t others) : Mentions (s ++ t) (columns ++ others) := by
  obtain ⟨front, rfl, hfront⟩ := hs
  obtain ⟨back, rfl, hback⟩ := ht
  refine ⟨front ++ back, List.filterMap_append, fun rest hrest => ?_⟩
  rw [chars_append, List.append_assoc, hfront _ (hapart rest hrest), hback rest hrest,
    Option.map_map]
  refine congrArg (Option.map · _) (funext fun lexemes => ?_)
  exact (List.append_assoc _ _ _).symm

/-- Fixed text that ends in a word or behind whole lexemes. -/
theorem raw {text : String} {lexemes : List Lexeme} {mode : Lexeme.Mode}
    (h : scan .between text.toList = (lexemes, mode))
    (hmode : mode = .between ∨ ∃ word, mode = .word word)
    (hnone : lexemes.filterMap Lexeme.rowColumn? = []) : Mentions [.raw text] [] := by
  have hchars : chars [.raw text] = text.toList := List.append_nil _
  rcases hmode with rfl | ⟨word, rfl⟩
  · refine ⟨lexemes, hnone, fun rest _ => ?_⟩
    rw [hchars, read?_fixed h]
  · refine ⟨lexemes ++ [Lexeme.ofWord word], ?_, fun rest hrest => ?_⟩
    · rw [List.filterMap_append, hnone]
      rfl
    · have hword : read? (.word word) rest =
          (read? .between rest).map (Lexeme.ofWord word :: ·) := by
        apply Lexeme.read?_first rfl
        intro c hc
        rw [Lexeme.next, if_neg (by simp [(hrest c hc).1]), if_neg (hrest c hc).2.1]
      rw [hchars, Lexeme.read?_append, h]
      dsimp only
      rw [hword, Option.map_map]
      refine congrArg (Option.map · _) (funext fun others => ?_)
      exact (List.append_assoc lexemes [Lexeme.ofWord word] others).symm

end Mentions

end Sql

def ColumnRef.column : ColumnRef → String
  | identity => Column.structureId
  | aliased name => name

theorem ColumnRef.mentions_sql (c : ColumnRef) : c.sql.Mentions [c.column] := by
  have hletters : ∀ d ∈ "rs".toList, Schema.isNameChar d = true :=
    List.all_eq_true.1 (by decide)
  refine ⟨[.column "rs" c.column], rfl, fun rest hrest => ?_⟩
  have hchars : c.sql.chars ++ rest =
      "rs".toList ++ '.' :: ((Piece.name c.column).chars ++ rest) := by
    cases c <;> simp [sql, column, Piece.chars]
  rw [hchars, read?_column (by decide) hletters _ hrest.head?_ne]
  rfl

namespace Token

def rowColumn? : Token → Option String
  | column c => some c.column
  | _ => none

theorem mentions_operator (op : Operator) : (operator op).sql.Mentions [] := by
  cases op <;> first
    | exact .raw rfl (.inl rfl) rfl
    | exact .raw rfl (.inr ⟨_, rfl⟩) rfl

theorem mentions_parameter (number : Nat) : Sql.Mentions [.parameter number] [] := by
  have hne : "p" ++ number.repr ≠ "" := by
    intro h
    have hl := congrArg String.toList h
    simp at hl
  have hletters : ∀ c ∈ ("p" ++ number.repr).toList, Schema.isNameChar c = true :=
    Lexeme.isNameChar_numbered (by decide) number
  have hsign : scan .between "@".toList = ([.sign '@'], .between) := rfl
  refine ⟨[.sign '@', .word ("p" ++ number.repr)], rfl, fun rest hrest => ?_⟩
  have hchars : Sql.chars [.parameter number] ++ rest =
      "@".toList ++ (("p" ++ number.repr).toList ++ rest) := by
    simp [Piece.chars]
  rw [hchars, read?_fixed hsign, read?_word hne hletters hrest.word]
  cases read? .between rest <;> rfl

theorem chars_parameters (number : Nat) (numbers : List Nat) : ∃ text,
    Sql.chars (Sql.join ", " ((number :: numbers).map fun n => [Piece.parameter n])) =
      '@' :: text := by
  cases numbers with
  | nil => exact ⟨_, rfl⟩
  | cons next numbers => exact ⟨_, rfl⟩

theorem mentions_parameters (number : Nat) (numbers : List Nat) :
    Sql.Mentions (Sql.join ", " ((number :: numbers).map fun n => [Piece.parameter n])) [] := by
  induction numbers generalizing number with
  | nil => exact mentions_parameter number
  | cons next numbers ih =>
    have hcomma : Sql.Mentions [.raw ", "] [] := .raw rfl (.inl rfl) rfl
    have hnext : ∀ rest, Apart rest → Apart (Sql.chars (Sql.join ", "
        ((next :: numbers).map fun n => [Piece.parameter n])) ++ rest) := by
      intro rest _
      obtain ⟨text, htext⟩ := chars_parameters next numbers
      rw [htext]
      exact Apart.cons (by decide) _
    exact (mentions_parameter number).append (fun _ _ => Apart.cons (by decide) _)
      (hcomma.append hnext (ih next))

theorem mentions_list (numbers : List Nat) : (list numbers).sql.Mentions [] := by
  cases numbers with
  | nil => exact .raw rfl (.inl rfl) rfl
  | cons number numbers =>
    have hopening : Sql.Mentions [.raw "("] [] := .raw rfl (.inl rfl) rfl
    have hclosing : Sql.Mentions [.raw ")"] [] := .raw rfl (.inl rfl) rfl
    have hfirst : ∀ rest, Apart rest → Apart (Sql.chars (Sql.join ", "
        ((number :: numbers).map fun n => [Piece.parameter n]) ++ [.raw ")"]) ++ rest) := by
      intro rest _
      obtain ⟨text, htext⟩ := chars_parameters number numbers
      rw [Sql.chars_append, htext]
      exact Apart.cons (by decide) _
    exact hopening.append hfirst ((mentions_parameters number numbers).append
      (fun _ _ => Apart.cons (by decide) _) hclosing)

/-- A token other than an opening parenthesis ends where something is set apart from it. -/
theorem mentions_sql {t : Token} (h : t ≠ opening) : t.sql.Mentions t.rowColumn?.toList := by
  cases t with
  | column c => exact c.mentions_sql
  | operator op => exact mentions_operator op
  | parameter number => exact mentions_parameter number
  | list numbers => exact mentions_list numbers
  | null => exact .raw rfl (.inr ⟨_, rfl⟩) rfl
  | opening => exact absurd rfl h
  | closing => exact .raw rfl (.inl rfl) rfl

/-- What stands behind a token other than an opening parenthesis is set apart from it. -/
theorem apart_sqlAfter {t : Token} (h : t ≠ opening) (tokens : List Token) :
    Apart (sqlAfter t tokens).chars := by
  cases tokens with
  | nil => exact Apart.nil
  | cons u tokens =>
    rw [sqlAfter, space]
    by_cases hu : u = closing
    · subst hu
      rw [if_pos (.inr rfl)]
      exact Apart.cons (by decide) _
    · rw [if_neg (not_or.2 ⟨h, hu⟩)]
      exact Apart.cons (by decide) _

/-- A token with what stands behind it. -/
theorem exists_read?_cons (t : Token) {tokens : List Token} {lexemes : List Lexeme}
    (h : read? .between (sqlAfter t tokens).chars = some lexemes) : ∃ front,
      read? .between (t.sql ++ sqlAfter t tokens).chars = some (front ++ lexemes) ∧
        front.filterMap Lexeme.rowColumn? = t.rowColumn?.toList := by
  by_cases ht : t = opening
  · subst ht
    have hopening : scan .between "(".toList = ([.sign '('], .between) := rfl
    refine ⟨[.sign '('], ?_, rfl⟩
    rw [Sql.chars_append]
    exact (read?_fixed hopening).trans (by rw [h]; rfl)
  · obtain ⟨front, hfront, hread⟩ := mentions_sql ht
    refine ⟨front, ?_, hfront⟩
    rw [Sql.chars_append, hread _ (apart_sqlAfter ht tokens), h]
    rfl

theorem exists_read?_sqlAfter (t : Token) (tokens : List Token) : ∃ lexemes,
    read? .between (sqlAfter t tokens).chars = some lexemes ∧
      lexemes.filterMap Lexeme.rowColumn? = tokens.filterMap rowColumn? := by
  induction tokens generalizing t with
  | nil => exact ⟨[], rfl, rfl⟩
  | cons u tokens ih =>
    obtain ⟨lexemes, hlexemes, hcolumns⟩ := ih u
    obtain ⟨front, hread, hfront⟩ := exists_read?_cons u hlexemes
    refine ⟨front ++ lexemes, ?_, ?_⟩
    · have hblank : scan .between " ".toList = ([], .between) := rfl
      rw [sqlAfter, List.append_assoc, Sql.chars_append, space]
      split
      · exact hread
      · exact (read?_fixed hblank).trans (by rw [hread]; rfl)
    · rw [List.filterMap_append, hfront, hcolumns]
      cases hu : u.rowColumn? with
      | none => rw [List.filterMap_cons_none hu]; rfl
      | some c => rw [List.filterMap_cons_some hu]; rfl

/-- The text of a predicate names the columns of its tokens one after another. -/
theorem rowColumns?_listSql (tokens : List Token) :
    rowColumns? (listSql tokens).render = some (tokens.filterMap rowColumn?) := by
  rw [DocStore.rowColumns?, Lexeme.ofText?, Sql.toList_render]
  cases tokens with
  | nil => rfl
  | cons t tokens =>
    obtain ⟨lexemes, hlexemes, hcolumns⟩ := exists_read?_sqlAfter t tokens
    obtain ⟨front, hread, hfront⟩ := exists_read?_cons t hlexemes
    rw [listSql, hread, Option.map_some, List.filterMap_append, hfront, hcolumns]
    cases ht : t.rowColumn? with
    | none => rw [List.filterMap_cons_none ht]; rfl
    | some c => rw [List.filterMap_cons_some ht]; rfl

end Token

namespace CompiledQuery

theorem mentions_orderTerm (term : ColumnRef × SortDirection) :
    (orderTerm term).Mentions [term.1.column] := by
  have hdirection : Sql.Mentions [.raw (" " ++ term.2.sql)] [] := by
    cases term.2 <;> exact .raw rfl (.inr ⟨_, rfl⟩) rfl
  have hapart : ∀ rest, Apart rest → Apart (Sql.chars [.raw (" " ++ term.2.sql)] ++ rest) := by
    intro rest _
    cases term.2 <;> exact Apart.cons (by decide) _
  exact term.1.mentions_sql.append hapart hdirection

end CompiledQuery

namespace IncludeJoin

theorem table_ne_empty (i : IncludeJoin) : i.table ≠ "" := by
  intro h
  have hl := congrArg String.toList h
  simp [table] at hl

theorem isNameChar_table (i : IncludeJoin) : ∀ c ∈ i.table.toList, Schema.isNameChar c = true :=
  Lexeme.isNameChar_numbered (by decide) i.number

theorem table_ne_rows (i : IncludeJoin) : i.table ≠ "rs" := by
  intro h
  have hl := congrArg (fun s => s.toList.head?) h
  simp [table] at hl

/-- The join names the column that it joins by; its own table is another source. -/
theorem mentions_joinSql (i : IncludeJoin) : i.joinSql.Mentions [i.column.column] := by
  obtain ⟨lexemes, hcolumns, hread⟩ := i.column.mentions_sql
  have hjoin : scan .between "left join ".toList =
      ([.word "left", .word "join"], .between) := rfl
  have hblank : scan .between " ".toList = ([], .between) := rfl
  have hon : scan .between " on ".toList = ([.word "on"], .between) := rfl
  have hequal : scan .between " = ".toList = ([.sign '='], .between) := rfl
  have hafter : ∀ text c, (" on ".toList ++ text).head? = some c →
      Schema.isNameChar c = false ∧ c ≠ '.' := by
    intro text c hc
    obtain rfl := Option.some.inj hc
    decide
  refine ⟨[.word "left", .word "join", .name (TableName.body i.target), .word i.table, .word "on",
    .column i.table Column.structureId, .sign '='] ++ lexemes, ?_, fun rest hrest => ?_⟩
  · rw [List.filterMap_append, hcolumns]
    simp [Lexeme.rowColumn?, i.table_ne_rows]
  · have hchars : i.joinSql.chars ++ rest = "left join ".toList ++
        ((Piece.name (TableName.body i.target)).chars ++ (" ".toList ++ (i.table.toList ++
          (" on ".toList ++ (i.table.toList ++ '.' :: ((Piece.name Column.structureId).chars ++
            (" = ".toList ++ (i.column.sql.chars ++ rest)))))))) := by
      simp [joinSql, Piece.chars]
    rw [hchars, read?_fixed hjoin, read?_name _ (by simp), read?_fixed hblank,
      read?_word i.table_ne_empty i.isNameChar_table (hafter _), read?_fixed hon,
      read?_column i.table_ne_empty i.isNameChar_table _ (by simp), read?_fixed hequal,
      hread rest hrest]
    cases read? .between rest <;> rfl

example : rowColumns? "left join [PartStructure] inc0 on inc0.[StructureId] = rs.[Part]]s]" =
    some ["Part]s"] := by
  decide +kernel

end IncludeJoin

end DocStore
