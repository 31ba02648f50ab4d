import DocStore.Proofs.Query.Faults
import DocStore.Proofs.Sql.Lexeme
import DocStore.Proofs.Sql.Template

/-!
# Placeholders of statements

A placeholder is a word behind an `@` outside of quotes. Read from left to right, those of a query's
statement name its parameters one by one: first the values of the predicate, which are the same in
every shape, then those of the page. What the shapes do not share stands around one from clause and
one predicate.
-/

namespace DocStore

namespace Segment

def word : List Segment → List Char
  | .outside c :: rest => if Schema.isNameChar c then c :: word rest else []
  | _ => []

/-- The words behind an `@`, each with it. -/
def placeholders : List Segment → List String
  | [] => []
  | s :: rest =>
    if s = .outside '@' then String.ofList ('@' :: word rest) :: placeholders rest
    else placeholders rest

variable {segments others : List Segment}

theorem word_append_nil (h : word segments = []) (ho : word others = []) :
    word (segments ++ others) = [] := by
  cases segments with
  | nil => exact ho
  | cons s segments =>
    cases s with
    | quoted => rfl
    | outside c =>
      rw [word] at h
      rw [List.cons_append, word]
      split at h
      · cases h
      · next hc => rw [if_neg hc]

theorem word_outside {text : List Char} (h : ∀ c ∈ text, Schema.isNameChar c = true)
    (ho : word others = []) : word (text.map .outside ++ others) = text := by
  induction text with
  | nil => exact ho
  | cons c text ih =>
    rw [List.forall_mem_cons] at h
    rw [List.map_cons, List.cons_append, word, if_pos h.1, ih h.2]

theorem placeholders_outside {text : List Char} (h : '@' ∉ text) :
    placeholders (text.map .outside ++ others) = placeholders others := by
  induction text with
  | nil => rfl
  | cons c text ih =>
    rw [List.mem_cons, not_or] at h
    have hc : outside c ≠ .outside '@' := fun hc => h.1 (outside.inj hc).symm
    rw [List.map_cons, List.cons_append, placeholders, if_neg hc, ih h.2]

end Segment

def placeholders? (text : String) : Option (List String) :=
  (Segment.ofText? text).map Segment.placeholders

def Unmarked (text : String) : Prop :=
  '@' ∉ text.toList

instance (text : String) : Decidable (Unmarked text) :=
  inferInstanceAs (Decidable ('@' ∉ text.toList))

theorem Unmarked.append {s t : String} (hs : Unmarked s) (ht : Unmarked t) : Unmarked (s ++ t) := by
  rw [Unmarked, String.toList_append, List.mem_append, not_or]
  exact ⟨hs, ht⟩

theorem unmarked_repr (n : Nat) : Unmarked n.repr := by
  intro h
  exact absurd (isDigit_of_mem_repr h) (by decide)

namespace Sql

variable {s t : Sql} {numbers others : List Nat}

def Ends (s : Sql) : Prop :=
  Segment.word s.segments = []

theorem Ends.append (hs : Ends s) (ht : Ends t) : Ends (s ++ t) := by
  rw [Ends, segments, List.flatMap_append]
  exact Segment.word_append_nil hs ht

/-- The parameters of a statement are its placeholders, with these numbers from left to right. -/
inductive Places : Sql → List Nat → Prop
  | nil : Places [] []
  | raw {text : String} {s : Sql} {numbers : List Nat} (h : Unmarked text)
    (hs : Places s numbers) : Places (.raw text :: s) numbers
  | name {identifier : String} {s : Sql} {numbers : List Nat} (hs : Places s numbers) :
    Places (.name identifier :: s) numbers
  | literal {text : String} {s : Sql} {numbers : List Nat} (hs : Places s numbers) :
    Places (.literal text :: s) numbers
  | parameter {number : Nat} {s : Sql} {numbers : List Nat} (h : Ends s)
    (hs : Places s numbers) : Places (.parameter number :: s) (number :: numbers)

namespace Places

theorem placeholders_eq (h : Places s numbers) :
    Segment.placeholders s.segments = numbers.map parameterName := by
  induction h with
  | nil => rfl
  | raw h _ ih => exact (Segment.placeholders_outside h).trans ih
  | name _ ih | literal _ ih => exact ih
  | @parameter number s _ h _ ih =>
    have hname : (parameterName number).toList = '@' :: 'p' :: Nat.toDigits 10 number := by
      rw [parameterName, String.toList_append, Nat.toList_repr]
      rfl
    have hletters : ∀ c ∈ 'p' :: Nat.toDigits 10 number, Schema.isNameChar c = true := by
      refine List.forall_mem_cons.2 ⟨by decide, fun c hc => ?_⟩
      exact Lexeme.isNameChar_of_mem_repr (Nat.toList_repr ▸ hc)
    have hsign : '@' ∉ 'p' :: Nat.toDigits 10 number :=
      fun hc => absurd (hletters _ hc) (by decide)
    have hsegments : segments (.parameter number :: s) =
        .outside '@' :: (('p' :: Nat.toDigits 10 number).map .outside ++ segments s) := by
      rw [segments, List.flatMap_cons, Piece.segments, hname]
      rfl
    rw [hsegments, Segment.placeholders, if_pos rfl, Segment.word_outside hletters h,
      Segment.placeholders_outside hsign, ih, ← hname, String.ofList_toList, List.map_cons]

/-- Text behind a part without placeholders. -/
theorem silent_append (h : Places s []) (ht : Places t others) : Places (s ++ t) others := by
  generalize hn : ([] : List Nat) = numbers at h
  induction h with
  | nil => exact ht
  | raw h _ ih => exact .raw h (ih hn)
  | name _ ih => exact .name (ih hn)
  | literal _ ih => exact .literal (ih hn)
  | parameter => cases hn

theorem append (h : Places s numbers) (he : Ends t) (ht : Places t others) :
    Places (s ++ t) (numbers ++ others) := by
  induction h with
  | nil => exact ht
  | raw h _ ih => exact .raw h ih
  | name _ ih => exact .name ih
  | literal _ ih => exact .literal ih
  | parameter h _ ih => exact .parameter (h.append he) ih

theorem append_silent (h : Places s numbers) (he : Ends t) (ht : Places t []) :
    Places (s ++ t) numbers := by
  rw [← List.append_nil numbers]
  exact h.append he ht

theorem flatMap {α : Type} {items : List α} {f : α → Sql} (h : ∀ a ∈ items, Places (f a) []) :
    Places (items.flatMap f) [] := by
  induction items with
  | nil => exact .nil
  | cons a items ih =>
    rw [List.forall_mem_cons] at h
    exact h.1.silent_append (ih h.2)

theorem join {separator : String} (hu : Unmarked separator) {parts : List Sql}
    (h : ∀ part ∈ parts, Places part []) : Places (Sql.join separator parts) [] := by
  induction parts with
  | nil => exact .nil
  | cons part parts ih =>
    rw [List.forall_mem_cons] at h
    cases parts with
    | nil => exact h.1
    | cons next parts => exact h.1.silent_append (.raw hu (ih h.2))

end Places

theorem placeholders?_render (h : s.Sealed) (hp : Places s numbers) :
    placeholders? s.render = some (numbers.map parameterName) := by
  rw [placeholders?, h.ofText?, Option.map_some, hp.placeholders_eq]

theorem infix_between (before pieces source filter after : Sql) :
    source ++ filter <:+: before ++ (pieces ++ source) ++ filter ++ after :=
  ⟨before ++ pieces, after, by simp only [List.append_assoc]⟩

theorem render_append (s t : Sql) : (s ++ t).render = s.render ++ t.render := by
  rw [← String.toList_inj, String.toList_append, toList_render, toList_render, toList_render,
    chars_append]

theorem render_part (h : s <:+: t) : ∃ front back, t.render = front ++ s.render ++ back := by
  obtain ⟨before, after, rfl⟩ := h
  exact ⟨render before, render after, by rw [render_append, render_append]⟩

end Sql

open Sql (Places Ends)

theorem ColumnRef.places (c : ColumnRef) : Places c.sql [] := by
  cases c with
  | identity => exact .raw (by decide) (.name .nil)
  | aliased name => exact .raw (by decide) (.name .nil)

namespace Token

theorem list_places (numbers : List Nat) : Places (list numbers).sql numbers := by
  have hparts : ∀ number numbers,
      Places (Sql.join ", " ((number :: numbers).map fun n => [Piece.parameter n]))
        (number :: numbers) := by
    intro number numbers
    induction numbers generalizing number with
    | nil => exact .parameter rfl .nil
    | cons next numbers ih => exact .parameter rfl (.raw (by decide) (ih next))
  cases numbers with
  | nil => exact .raw (by decide) .nil
  | cons number numbers =>
    have hclosing : Places [.raw ")"] [] := .raw (by decide) .nil
    have hends : Ends [.raw ")"] := rfl
    exact .raw (by decide) ((hparts number numbers).append_silent hends hclosing)

theorem sql_places (t : Token) : Places t.sql t.numbers := by
  cases t with
  | column c => exact c.places
  | operator op => cases op <;> exact .raw (by decide) .nil
  | parameter number => exact .parameter rfl .nil
  | list numbers => exact list_places numbers
  | null | opening | closing => exact .raw (by decide) .nil

theorem space_places (t u : Token) : Places (space t u) [] := by
  rw [space]
  split
  · exact .nil
  · exact .raw (by decide) .nil

/-- What follows a token other than an opening parenthesis is set apart from it. -/
theorem sqlAfter_ends {t : Token} (h : t ≠ opening) (tokens : List Token) :
    Ends (sqlAfter t tokens) := by
  cases tokens with
  | nil => rfl
  | cons u tokens =>
    rw [sqlAfter, space]
    by_cases hu : u = closing
    · subst hu
      rw [if_pos (.inr rfl)]
      rfl
    · rw [if_neg (not_or.2 ⟨h, hu⟩)]
      rfl

theorem sql_append_places (t : Token) {tokens : List Token} {numbers : List Nat}
    (h : Places (sqlAfter t tokens) numbers) :
    Places (t.sql ++ sqlAfter t tokens) (t.numbers ++ numbers) := by
  by_cases ht : t = opening
  · subst ht
    exact .raw (by decide) h
  · exact (sql_places t).append (sqlAfter_ends ht tokens) h

theorem sqlAfter_places (t : Token) (tokens : List Token) :
    Places (sqlAfter t tokens) (tokens.flatMap numbers) := by
  induction tokens generalizing t with
  | nil => exact .nil
  | cons u tokens ih =>
    rw [sqlAfter, List.append_assoc, List.flatMap_cons]
    exact (space_places t u).silent_append (sql_append_places u (ih u))

theorem listSql_places (tokens : List Token) :
    Places (listSql tokens) (tokens.flatMap numbers) := by
  cases tokens with
  | nil => exact .nil
  | cons t tokens => exact sql_append_places t (sqlAfter_places t tokens)

end Token

namespace CompiledQuery

theorem unmarked_table (i : Nat) : Unmarked ("mem" ++ i.repr) :=
  .append (by decide) (unmarked_repr i)

theorem memberSql_places (m : MemberColumn) (i : Nat) : Places (memberSql m i) [] := by
  have htable : Unmarked (", mem" ++ i.repr ++ ".") :=
    .append (.append (by decide) (unmarked_repr i)) (by decide)
  exact .raw htable (.name (.raw (by decide) (.name .nil)))

theorem memberJoin_places (structureName : String) (m : MemberColumn) (i : Nat) :
    Places (memberJoin structureName m i) [] := by
  have htable := unmarked_table i
  have hon : Unmarked (" " ++ ("mem" ++ i.repr) ++ " on " ++ ("mem" ++ i.repr) ++ ".") :=
    .append (.append (.append (.append (by decide) htable) (by decide)) htable) (by decide)
  have hand : Unmarked (" and " ++ ("mem" ++ i.repr) ++ ".") :=
    .append (.append (by decide) htable) (by decide)
  exact .raw (by decide) (.name (.raw hon (.name (.raw (by decide) (.name (.raw hand
    (.name (.raw (by decide) (.literal .nil)))))))))

theorem rows_places (compiled : CompiledQuery) (structureName : String) :
    Places (compiled.source structureName false) [] := by
  rw [source]
  cases compiled.members.isEmpty with
  | true => exact .raw (by decide) (.name (.raw (by decide) .nil))
  | false =>
    have hcolumns : Places (compiled.members.zipIdx.flatMap fun m => memberSql m.1 m.2) [] :=
      .flatMap fun m _ => memberSql_places m.1 m.2
    have hjoins : Places (compiled.members.zipIdx.flatMap fun m =>
        memberJoin structureName m.1 m.2) [] :=
      .flatMap fun m _ => memberJoin_places structureName m.1 m.2
    have hstart : Unmarked "from (select s." := by decide
    have hfrom : Unmarked " from " := by decide
    have hbase : Unmarked " s" := by decide
    have hend : Unmarked ") rs" := by decide
    exact (Places.silent_append (.raw hstart (.name (.raw (by decide) (.name hcolumns))))
      (.raw hfrom (.name (.raw hbase hjoins)))).silent_append (.raw hend .nil)

theorem unmarked_include (i : IncludeJoin) : Unmarked i.table :=
  .append (by decide) (unmarked_repr _)

theorem joinSql_places (i : IncludeJoin) : Places i.joinSql [] := by
  have htable := unmarked_include i
  have hon : Unmarked (" " ++ i.table ++ " on " ++ i.table ++ ".") :=
    .append (.append (.append (.append (by decide) htable) (by decide)) htable) (by decide)
  exact .raw (by decide) (.name (.raw hon (.name (.raw (by decide) i.column.places))))

theorem columnSql_places (i : IncludeJoin) : Places i.columnSql [] :=
  .raw (.append (unmarked_include i) (by decide)) (.name (.raw (by decide) (.name .nil)))

theorem source_places (compiled : CompiledQuery) (structureName : String) (withIncludes : Bool) :
    Places (compiled.source structureName withIncludes) [] := by
  cases withIncludes with
  | false => exact rows_places compiled structureName
  | true =>
    have hblank : Unmarked " " := by decide
    exact (rows_places compiled structureName).silent_append
      (.flatMap fun i _ => .raw hblank (joinSql_places i))

theorem orderTerm_places (term : ColumnRef × SortDirection) : Places (orderTerm term) [] := by
  have hdirection : Unmarked (" " ++ term.2.sql) := by
    cases term.2 <;> decide
  exact term.1.places.silent_append (.raw hdirection .nil)

end CompiledQuery

namespace Generator

variable (compiled : CompiledQuery)

theorem filterSql_places :
    Places (filterSql compiled) (compiled.predicate.flatMap Token.numbers) := by
  rw [filterSql]
  cases hpredicate : compiled.predicate with
  | nil => exact .nil
  | cons t tokens => exact .raw (by decide) (Token.listSql_places _)

theorem columnsSql_places (full : Bool) : Places (columnsSql compiled full) [] := by
  have hcomma : Unmarked ", " := by decide
  cases full with
  | false => exact .raw (by decide) (.name .nil)
  | true =>
    exact .raw (by decide) (.name (.raw (by decide) (.name
      (.flatMap fun i _ => .raw hcomma (CompiledQuery.columnSql_places i)))))

theorem orderSql_places : Places (orderSql compiled) [] := by
  refine .join (by decide) fun part hpart => ?_
  obtain ⟨term, -, rfl⟩ := List.mem_map.1 hpart
  exact CompiledQuery.orderTerm_places term

theorem pageOrderSql_places : Places (pageOrderSql compiled) [] := by
  rw [pageOrderSql]
  split
  · exact .raw (by decide) (.name (.raw (by decide) .nil))
  · exact orderSql_places compiled

end Generator

/-- The parts of a page, of which only the filter has placeholders. -/
structure SelectParts.Places (parts : SelectParts) (numbers : List Nat) : Prop where
  columns : Sql.Places parts.columns []
  source : Sql.Places parts.source []
  filter : Sql.Places parts.filter numbers
  orderBy : Sql.Places parts.orderBy []

theorem Dialect.length_pagingValues (dialect : Dialect) (paging : Paging) :
    (dialect.pagingValues paging).length = 2 := by
  cases dialect <;> rfl

theorem Dialect.paged_places (dialect : Dialect) {parts : SelectParts} {numbers : List Nat}
    (h : parts.Places numbers) (next : Nat) :
    Places (dialect.paged parts next) (numbers ++ [next, next + 1]) := by
  have hselect : Unmarked "select " := by decide
  have hblank : Unmarked " " := by decide
  cases dialect with
  | rowNumber =>
    have hfrom : Unmarked " from (select " := by decide
    have hover : Unmarked ", row_number() over (order by " := by decide
    have houtputs : Places (Sql.join ", "
        (parts.outputs.map fun output => [.raw "pg.", .name output])) [] := by
      refine .join (by decide) fun part hpart => ?_
      obtain ⟨output, -, rfl⟩ := List.mem_map.1 hpart
      exact .raw (by decide) (.name .nil)
    have hrows : Places (.raw ") as " :: .name "RowNum" :: .raw " " :: parts.source) [] :=
      .raw (by decide) (.name (.raw hblank h.source))
    have hbefore := (((Places.raw hselect houtputs).silent_append
      (.raw hfrom h.columns)).silent_append (.raw hover h.orderBy)).silent_append hrows
    have htail : Places [.raw ") pg where pg.", .name "RowNum", .raw " between ", .parameter next,
        .raw " and ", .parameter (next + 1), .raw " order by pg.", .name "RowNum"]
        [next, next + 1] :=
      .raw (by decide) (.name (.raw (by decide) (.parameter rfl (.raw (by decide)
        (.parameter rfl (.raw (by decide) (.name .nil)))))))
    exact (hbefore.silent_append h.filter).append rfl htail
  | offsetFetch =>
    have horder : Unmarked " order by " := by decide
    have hbefore := (Places.raw hselect h.columns).silent_append (.raw hblank h.source)
    have htail : Places [.raw " offset ", .parameter next, .raw " rows fetch next ",
        .parameter (next + 1), .raw " rows only"] [next, next + 1] :=
      .raw (by decide) (.parameter rfl (.raw (by decide) (.parameter rfl (.raw (by decide) .nil))))
    rw [paged, List.append_assoc]
    exact (hbefore.silent_append h.filter).append rfl
      (Places.silent_append (.raw horder h.orderBy) htail)

theorem SelectParts.Places.unpaged {parts : SelectParts} {numbers : List Nat}
    (h : parts.Places numbers) {limit order : Sql} (hlimit : Sql.Places limit [])
    (hends : Ends order) (horder : Sql.Places order []) :
    Sql.Places (.raw "select " :: limit ++ parts.columns ++ .raw " " :: parts.source ++
      parts.filter ++ order) numbers := by
  have hselect : Unmarked "select " := by decide
  have hblank : Unmarked " " := by decide
  have hbefore := ((Places.raw hselect hlimit).silent_append h.columns).silent_append
    (.raw hblank h.source)
  exact (hbefore.silent_append h.filter).append_silent hends horder

/-- The source and the filter stand next to each other. -/
theorem Dialect.paged_rows (dialect : Dialect) (parts : SelectParts) (next : Nat) :
    parts.source ++ parts.filter <:+: dialect.paged parts next := by
  cases dialect with
  | rowNumber => exact Sql.infix_between _ [.raw ") as ", .name "RowNum", .raw " "] _ _ _
  | offsetFetch =>
    exact (Sql.infix_between _ [.raw " "] _ _ _).trans (List.prefix_append _ _).isInfix

namespace Generator

variable (g : Generator) {query : Query} {compiled : CompiledQuery}

/-- The parts of a page of the compiled query. -/
theorem parts_places (hn : query.Numbers compiled) (full : Bool) :
    SelectParts.Places ⟨columnsSql compiled full, outputs compiled full,
      compiled.source query.structureName full, filterSql compiled, pageOrderSql compiled⟩
      (List.range compiled.values.length) where
  columns := columnsSql_places compiled full
  source := CompiledQuery.source_places compiled query.structureName full
  filter := hn.numbers ▸ filterSql_places compiled
  orderBy := pageOrderSql_places compiled

theorem select_places (hn : query.Numbers compiled) (full : Bool) :
    Places (g.select query compiled full).1
      (List.range (compiled.values.length + (g.select query compiled full).2.length)) := by
  have hparts := parts_places hn full
  rw [select]
  cases query.paging with
  | some paging =>
    have hpaged := g.dialect.paged_places hparts compiled.values.length
    dsimp only
    rw [Dialect.length_pagingValues, List.range_succ, List.range_succ, List.append_assoc]
    exact hpaged
  | none =>
    have horder : Places (if compiled.orderBy.isEmpty then []
        else .raw " order by " :: orderSql compiled) [] := by
      split
      · exact .nil
      · exact .raw (by decide) (orderSql_places compiled)
    have hends : Ends (if compiled.orderBy.isEmpty then []
        else .raw " order by " :: orderSql compiled) := by
      split <;> rfl
    cases query.take with
    | none => exact hparts.unpaged .nil hends horder
    | some count =>
      have hlimit : Unmarked ("top(" ++ count.repr ++ ") ") :=
        .append (.append (by decide) (unmarked_repr count)) (by decide)
      exact hparts.unpaged (.raw hlimit .nil) hends horder

theorem statement_places (hn : query.Numbers compiled) (shape : Shape) :
    Places (g.statement query compiled shape).1
      (List.range (compiled.values.length + (g.statement query compiled shape).2.length)) := by
  have hparts := parts_places hn false
  have hrows := hparts.source.silent_append hparts.filter
  cases shape with
  | full => exact select_places g hn true
  | ids => exact select_places g hn false
  | count => exact .raw (by decide) hrows
  | «exists» =>
    have hinner : Unmarked "select 1 " := by decide
    have hcase : Unmarked "select case when exists (" := by decide
    have hends : Ends [.raw ") then 1 else 0 end"] := rfl
    have htail : Places [.raw ") then 1 else 0 end"] [] := .raw (by decide) .nil
    exact (Places.raw hcase (.raw hinner hrows)).append_silent hends htail

/-- The values of the page in a statement; identities and structures are paged, numbers are not. -/
def pageValues (query : Query) : Shape → List Value
  | .full | .ids => (query.paging.map g.dialect.pagingValues).getD []
  | .count | .exists => []

theorem select_values (full : Bool) : (g.select query compiled full).2 =
    (query.paging.map g.dialect.pagingValues).getD [] := by
  rw [select]
  cases query.paging <;> rfl

theorem statement_values (shape : Shape) :
    (g.statement query compiled shape).2 = g.pageValues query shape := by
  cases shape with
  | full | ids => exact select_values g _
  | count | «exists» => rfl

theorem length_pageValues (query : Query) (shape : Shape) : (g.pageValues query shape).length =
    if query.paging.isSome ∧ (shape = .full ∨ shape = .ids) then 2 else 0 := by
  cases hp : query.paging with
  | none => cases shape <;> simp [pageValues, hp]
  | some paging => cases shape <;> simp [pageValues, hp, Dialect.length_pagingValues]

/-- The from clause and the predicate stand next to each other in every statement. -/
theorem statement_rows (shape : Shape) :
    compiled.source query.structureName (shape = .full) ++ filterSql compiled <:+:
      (g.statement query compiled shape).1 := by
  have hselect : ∀ full, compiled.source query.structureName full ++ filterSql compiled <:+:
      (g.select query compiled full).1 := by
    intro full
    rw [select]
    cases query.paging with
    | none => exact Sql.infix_between _ [.raw " "] _ _ _
    | some paging =>
      exact g.dialect.paged_rows ⟨columnsSql compiled full, outputs compiled full,
        compiled.source query.structureName full, filterSql compiled, pageOrderSql compiled⟩ _
  cases shape with
  | full => exact hselect true
  | ids => exact hselect false
  | count => exact (List.suffix_cons _ _).isInfix
  | «exists» => exact List.infix_append [_, _] _ _

variable {schema : Schema}

/-- A compiled query has the template of its statements, also if nothing is renamed. -/
theorem exists_renamed (h : query.compile g.naming schema = .ok compiled) :
    ∃ ρ compiled', compiled.Renamed ρ query compiled' := by
  obtain ⟨_, _, herror, -⟩ | ⟨_, compiled', hok, -, hrenamed⟩ :=
    (Query.compile_rename ⟨id, id, Function.injective_id⟩ g.naming schema query).exists_eq
  · rw [herror] at h
    cases h
  · obtain rfl := Except.ok.inj (h.symm.trans hok)
    exact ⟨_, compiled', hrenamed⟩

theorem filterSql_placeholders (hn : query.Numbers compiled) (hs : (filterSql compiled).Sealed) :
    placeholders? (filterSql compiled).render =
      some ((Command.numbered compiled.values).map Prod.fst) := by
  rw [Sql.placeholders?_render hs (filterSql_places compiled), hn.numbers, names_numbered]

theorem statement_placeholders (hn : query.Numbers compiled) (shape : Shape)
    (hs : (g.statement query compiled shape).1.Sealed) :
    placeholders? (g.statement query compiled shape).1.render =
      some ((Command.numbered (compiled.values ++ g.pageValues query shape)).map Prod.fst) := by
  rw [Sql.placeholders?_render hs (statement_places g hn shape), names_numbered,
    List.length_append, statement_values]

theorem numbered_append (values others : List Value) :
    Command.numbered values <+: Command.numbered (values ++ others) := by
  rw [Command.numbered, Command.numbered, List.zipIdx_append, List.map_append]
  exact List.prefix_append _ _

/-- The statements of a compiled query, its parameters being those that the text names from left to
right. Those of the predicate come first, then those of a page; one from clause and one predicate
are part of every statement. -/
theorem generate_placeholders (g : Generator) (schema : Schema) (query : Query)
    (compiled : CompiledQuery) (h : query.compile g.naming schema = .ok compiled) :
    (∀ shape, ∃ command, g.generate schema query shape = .ok command ∧
      placeholders? command.sql = some (command.params.map Prod.fst) ∧
      command.params.map Prod.fst =
        (List.range command.params.length).map (fun number => "@p" ++ number.repr) ∧
      command.params.map Prod.snd = compiled.values ++ g.pageValues query shape ∧
      Command.numbered compiled.values <+: command.params ∧
      (g.pageValues query shape).length =
        (if query.paging.isSome ∧ (shape = .full ∨ shape = .ids) then 2 else 0) ∧
      ∃ front back, command.sql = front ++
        ((compiled.source query.structureName (shape = .full)).render ++
          (filterSql compiled).render) ++ back) ∧
    placeholders? (filterSql compiled).render =
      some ((Command.numbered compiled.values).map Prod.fst) ∧
    compiled.values = query.predicate.flatMap Node.bound := by
  have hsettles := Query.compile_settles g.naming schema query
  rw [h] at hsettles
  obtain ⟨-, hn⟩ := hsettles
  obtain ⟨ρ, compiled', hrenamed⟩ := exists_renamed g h
  refine ⟨fun shape => ?_, filterSql_placeholders hn (filterSql_templated hrenamed).isSealed,
    hn.values⟩
  have hsealed := (statement_templated g hrenamed shape).1.isSealed
  have hgenerate : g.generate schema query shape = .ok (Command.ofValues
      (g.statement query compiled shape).1 (compiled.values ++ g.pageValues query shape)) := by
    rw [generate, h, ← statement_values g shape]
    rfl
  have hlength (values : List Value) : (Command.numbered values).length = values.length := by
    rw [Command.numbered, List.length_map, List.length_zipIdx]
  obtain ⟨front, back, htext⟩ := Sql.render_part (statement_rows g shape)
  rw [Sql.render_append] at htext
  refine ⟨_, hgenerate, statement_placeholders g hn shape hsealed, ?_,
    Query.values_numbered _, numbered_append _ _, length_pageValues g query shape,
    front, back, htext⟩
  rw [Command.ofValues, hlength]
  exact names_numbered _

/-- A page of `o => o.Number.In([1, 2]) && o.Name == "@p9"`. -/
theorem generate_placeholders_of_orders :
    let schema : Schema := ⟨"Order@p7", ⟨"Id", .identity⟩,
      [⟨"Number", .integer, none, false, false⟩, ⟨"Name@p8", .string, none, false, false⟩]⟩
    let query : Query := {
      structureName := "Order@p7"
      predicate := [.member ⟨"Number", none, some .integer, false, false⟩, .operator .inList,
        .value (.list [.integer 1, .integer 2]), .operator .and,
        .member ⟨"Name@p8", none, some .string, false, false⟩, .operator .equal,
        .value (.string "@p9")]
      paging := some ⟨3, 25, by decide, by decide⟩ }
    let g : Generator := ⟨.rowNumber, ColumnName.ofPath 128⟩
    ∃ compiled, query.compile g.naming schema = .ok compiled ∧
      ∃ command, g.generate schema query .full = .ok command ∧
        placeholders? command.sql = some (command.params.map Prod.fst) ∧
        command.params.map Prod.snd =
          [.integer 1, .integer 2, .string "@p9", .integer 76, .integer 100] := by
  intro schema query g
  have hok : (query.compile g.naming schema).toOption.isSome = true := by decide +kernel
  cases hcompile : query.compile g.naming schema with
  | error e =>
    rw [hcompile] at hok
    cases hok
  | ok compiled =>
    obtain ⟨hshapes, -, hvalues⟩ := generate_placeholders g schema query compiled hcompile
    obtain ⟨command, hcommand, hplaceholders, -, hparams, -⟩ := hshapes .full
    refine ⟨compiled, rfl, command, hcommand, hplaceholders, ?_⟩
    rw [hparams, hvalues]
    rfl

end Generator

end DocStore
