import DocStore.Proofs.Sql.FirstUses
import DocStore.Proofs.Sql.Quoting
import DocStore.Proofs.Sql.Renaming
import DocStore.Sql.Generator

/-!
# Templates of statements

A statement fills a template: a list of slots, of which some are single characters and fixed names
and the others take the names of a query, each in quotes of its own. What the names are has no
influence on the template, so no name leaves its quotes: under a renaming a query fills the same
template with other names.
-/

namespace DocStore

/-- The names that a query brings into its statements. -/
structure Names where
  structureName : String
  targets : List String
  members : List MemberColumn

def Query.names (query : Query) (compiled : CompiledQuery) : Names :=
  ⟨query.structureName, query.includes.map Inclusion.target, compiled.members⟩

/-- One place in the text of a statement. -/
inductive Slot where
  | outside (c : Char)
  /-- A column of the tables, or the number of a row. -/
  | fixed (name : String)
  /-- The column of an included body. -/
  | output (number : Nat)
  | body
  | index (t : IndexTable)
  | target (number : Nat)
  | aliasName (position : Nat)
  | path (position : Nat)
  deriving DecidableEq

namespace Slot

def fixedNames : List String :=
  [Column.structureId, Column.json, Column.value, Column.stringValue, Column.memberPath,
    Column.rowNumber]

def fill? (names : Names) : Slot → Option Segment
  | outside c => some (.outside c)
  | fixed name => if name ∈ fixedNames then some (.quoted .name name) else none
  | output i =>
    if i < names.targets.length then some (.quoted .name ("IncludeJson" ++ i.repr)) else none
  | body => some (.quoted .name (TableName.body names.structureName))
  | index t => some (.quoted .name (TableName.index names.structureName t))
  | target i => names.targets[i]?.map fun target => .quoted .name (TableName.body target)
  | aliasName i => names.members[i]?.map fun m => .quoted .name m.aliasName
  | path i => names.members[i]?.map fun m => .quoted .literal m.path

/-- The text is read as the slots with these names in them. -/
def Fill (slots : List Slot) (names : Names) (text : String) : Prop :=
  ∃ segments, Segment.ofText? text = some segments ∧
    List.Forall₂ (fun slot segment => fill? names slot = some segment) slots segments

end Slot

namespace Sql

variable {names names' : Names} {s s' t t' : Sql} {number i : Nat} {m m' : MemberColumn}

/-- Two statements with one template. -/
inductive Follows (names names' : Names) : Sql → Sql → Prop
  | nil : Follows names names' [] []
  | raw {text : String} {s s' : Sql} (h : Unquoted text) (hs : Follows names names' s s') :
    Follows names names' (.raw text :: s) (.raw text :: s')
  | parameter {number : Nat} {s s' : Sql} (hs : Follows names names' s s') :
    Follows names names' (.parameter number :: s) (.parameter number :: s')
  | name {slot : Slot} {name name' : String} {s s' : Sql}
    (h : slot.fill? names = some (.quoted .name name))
    (h' : slot.fill? names' = some (.quoted .name name')) (hs : Follows names names' s s') :
    Follows names names' (.name name :: s) (.name name' :: s')
  | literal {slot : Slot} {text content content' : String} {s s' : Sql} (h : Unquoted text)
    (hne : text ≠ "") (hc : slot.fill? names = some (.quoted .literal content))
    (hc' : slot.fill? names' = some (.quoted .literal content'))
    (hs : Follows names names' s s') :
    Follows names names' (.raw text :: .literal content :: s) (.raw text :: .literal content' :: s')

namespace Follows

theorem symm (h : Follows names names' s s') : Follows names' names s' s := by
  induction h with
  | nil => exact .nil
  | raw h _ ih => exact .raw h ih
  | parameter _ ih => exact .parameter ih
  | name h h' _ ih => exact .name h' h ih
  | literal h hne hc hc' _ ih => exact .literal h hne hc' hc ih

theorem isSealed (h : Follows names names' s s') : s.Sealed := by
  induction h with
  | nil => exact .nil
  | raw h _ ih => exact .raw h ih
  | parameter _ ih => exact .parameter ih
  | name _ _ _ ih => exact .name ih
  | literal h hne _ _ _ ih => exact .literal h hne ih

/-- Slots and what stands in them under both names. -/
def Slots (names names' : Names) (slots : List Slot) (segments segments' : List Segment) : Prop :=
  List.Forall₂ (fun slot segment => Slot.fill? names slot = some segment) slots segments ∧
    List.Forall₂ (fun slot segment => Slot.fill? names' slot = some segment) slots segments'

theorem Slots.cons {slot : Slot} {slots : List Slot} {segment segment' : Segment}
    {segments segments' : List Segment} (h : slot.fill? names = some segment)
    (h' : slot.fill? names' = some segment') (hs : Slots names names' slots segments segments') :
    Slots names names' (slot :: slots) (segment :: segments) (segment' :: segments') :=
  ⟨.cons h hs.1, .cons h' hs.2⟩

theorem Slots.outside {slots : List Slot} {segments segments' : List Segment} (text : List Char)
    (hs : Slots names names' slots segments segments') :
    Slots names names' (text.map .outside ++ slots) (text.map .outside ++ segments)
      (text.map .outside ++ segments') := by
  induction text with
  | nil => exact hs
  | cons c text ih => exact ih.cons rfl rfl

theorem exists_slots (h : Follows names names' s s') :
    ∃ slots, Slots names names' slots s.segments s'.segments := by
  induction h with
  | nil => exact ⟨[], .nil, .nil⟩
  | @raw text _ _ _ _ ih =>
    obtain ⟨slots, hs⟩ := ih
    exact ⟨_, hs.outside text.toList⟩
  | @parameter number _ _ _ ih =>
    obtain ⟨slots, hs⟩ := ih
    exact ⟨_, hs.outside (parameterName number).toList⟩
  | name h h' _ ih =>
    obtain ⟨slots, hs⟩ := ih
    exact ⟨_, hs.cons h h'⟩
  | @literal _ text _ _ _ _ _ _ hc hc' _ ih =>
    obtain ⟨slots, hs⟩ := ih
    exact ⟨_, (hs.cons hc hc').outside text.toList⟩

theorem exists_fill (h : Follows names names' s s') :
    ∃ slots, Slot.Fill slots names s.render ∧ Slot.Fill slots names' s'.render := by
  obtain ⟨slots, hs, hs'⟩ := h.exists_slots
  exact ⟨slots, ⟨_, h.isSealed.ofText?, hs⟩, ⟨_, h.symm.isSealed.ofText?, hs'⟩⟩

theorem append (h : Follows names names' s s') (ht : Follows names names' t t') :
    Follows names names' (s ++ t) (s' ++ t') := by
  induction h with
  | nil => exact ht
  | raw h _ ih => exact .raw h ih
  | parameter _ ih => exact .parameter ih
  | name h h' _ ih => exact .name h h' ih
  | literal h hne hc hc' _ ih => exact .literal h hne hc hc' ih

theorem flatMap {α β : Type} {r : α → β → Prop} {items : List α} {items' : List β} {f : α → Sql}
    {g : β → Sql} (h : List.Forall₂ r items items')
    (hf : ∀ a b, r a b → Follows names names' (f a) (g b)) :
    Follows names names' (items.flatMap f) (items'.flatMap g) := by
  induction h with
  | nil => exact .nil
  | cons h _ ih => exact (hf _ _ h).append ih

theorem join {separator : String} (hu : Unquoted separator) {parts parts' : List Sql}
    (h : List.Forall₂ (Follows names names') parts parts') :
    Follows names names' (Sql.join separator parts) (Sql.join separator parts') := by
  induction h with
  | nil => exact .nil
  | cons h hs ih =>
    cases hs with
    | nil => exact h
    | cons _ _ => exact h.append (.raw hu ih)

theorem fixed {name : String} (h : name ∈ Slot.fixedNames) (hs : Follows names names' s s') :
    Follows names names' (.name name :: s) (.name name :: s') := by
  have hfill : ∀ names, (Slot.fixed name).fill? names = some (.quoted .name name) :=
    fun _ => if_pos h
  exact .name (hfill names) (hfill names') hs

theorem aliasName (h : names.members[i]? = some m) (h' : names'.members[i]? = some m')
    (hs : Follows names names' s s') :
    Follows names names' (.name m.aliasName :: s) (.name m'.aliasName :: s') := by
  have hfill : (Slot.aliasName i).fill? names = some (.quoted .name m.aliasName) := by
    rw [Slot.fill?, h]
    rfl
  have hfill' : (Slot.aliasName i).fill? names' = some (.quoted .name m'.aliasName) := by
    rw [Slot.fill?, h']
    rfl
  exact .name hfill hfill' hs

theorem path {text : String} (hu : Unquoted text) (hne : text ≠ "")
    (h : names.members[i]? = some m) (h' : names'.members[i]? = some m')
    (hs : Follows names names' s s') :
    Follows names names' (.raw text :: .literal m.path :: s)
      (.raw text :: .literal m'.path :: s') := by
  have hfill : (Slot.path i).fill? names = some (.quoted .literal m.path) := by
    rw [Slot.fill?, h]
    rfl
  have hfill' : (Slot.path i).fill? names' = some (.quoted .literal m'.path) := by
    rw [Slot.fill?, h']
    rfl
  exact .literal hu hne hfill hfill' hs

theorem body (hs : Follows names names' s s') :
    Follows names names' (.name (TableName.body names.structureName) :: s)
      (.name (TableName.body names'.structureName) :: s') := by
  have hfill : ∀ names : Names, Slot.body.fill? names =
      some (.quoted .name (TableName.body names.structureName)) := fun _ => rfl
  exact .name (hfill names) (hfill names') hs

theorem index (t : IndexTable) (hs : Follows names names' s s') :
    Follows names names' (.name (TableName.index names.structureName t) :: s)
      (.name (TableName.index names'.structureName t) :: s') := by
  have hfill : ∀ names : Names, (Slot.index t).fill? names =
      some (.quoted .name (TableName.index names.structureName t)) := fun _ => rfl
  exact .name (hfill names) (hfill names') hs

end Follows

end Sql

open Sql (Follows)

variable {names names' : Names}

theorem ColumnRef.sql_follows {c c' : ColumnRef}
    (h : ColumnRef.Renamed names.members names'.members c c') :
    Follows names names' c.sql c'.sql := by
  cases h with
  | identity => exact .raw (by decide) (.fixed (by decide) .nil)
  | aliased h h' => exact .raw (by decide) (.aliasName h h' .nil)

namespace Token

theorem list_follows (numbers : List Nat) :
    Follows names names' (list numbers).sql (list numbers).sql := by
  cases numbers with
  | nil => exact .raw (by decide) .nil
  | cons number numbers =>
    have hparts : List.Forall₂ (Follows names names')
        ((number :: numbers).map fun n => [Piece.parameter n])
        ((number :: numbers).map fun n => [Piece.parameter n]) :=
      List.forall₂_map_left_iff.2 (List.forall₂_map_right_iff.2
        (List.forall₂_same.2 fun _ _ => .parameter .nil))
    have hcomma : Unquoted ", " := by decide
    exact .raw (by decide) ((Sql.Follows.join hcomma hparts).append (.raw (by decide) .nil))

theorem sql_follows {t t' : Token} (h : Renamed names.members names'.members t t') :
    Follows names names' t.sql t'.sql := by
  cases h with
  | column h => exact ColumnRef.sql_follows h
  | same h =>
    cases t with
    | column c => exact absurd rfl (h c)
    | operator op => cases op <;> exact .raw (by decide) .nil
    | parameter number => exact .parameter .nil
    | list numbers => exact list_follows numbers
    | null | opening | closing => exact .raw (by decide) .nil

theorem space_eq {members members' : List MemberColumn} {t t' u u' : Token}
    (ht : Renamed members members' t t') (hu : Renamed members members' u u') :
    space t' u' = space t u := by
  cases ht <;> cases hu <;> simp [space]

theorem space_follows (t u : Token) : Follows names names' (space t u) (space t u) := by
  rw [space]
  split
  · exact .nil
  · exact .raw (by decide) .nil

theorem sqlAfter_follows {t t' : Token} {tokens tokens' : List Token}
    (ht : Renamed names.members names'.members t t')
    (h : List.Forall₂ (Renamed names.members names'.members) tokens tokens') :
    Follows names names' (sqlAfter t tokens) (sqlAfter t' tokens') := by
  induction h generalizing t t' with
  | nil => exact .nil
  | cons hu _ ih =>
    rw [sqlAfter, sqlAfter, space_eq ht hu]
    exact ((space_follows _ _).append (sql_follows hu)).append (ih hu)

theorem listSql_follows {tokens tokens' : List Token}
    (h : List.Forall₂ (Renamed names.members names'.members) tokens tokens') :
    Follows names names' (listSql tokens) (listSql tokens') := by
  cases h with
  | nil => exact .nil
  | cons ht h => exact (sql_follows ht).append (sqlAfter_follows ht h)

end Token

theorem unquoted_table (i : Nat) : Unquoted ("mem" ++ i.repr) :=
  .append (by decide) (unquoted_repr i)

namespace CompiledQuery

def ColumnRenamed (names names' : Names) (m m' : MemberColumn × Nat) : Prop :=
  m'.2 = m.2 ∧ names.members[m.2]? = some m.1 ∧ names'.members[m.2]? = some m'.1 ∧
    m'.1.table = m.1.table

theorem zipIdx_renamed {ρ : Renaming} (h : MemberColumn.Renamed ρ names.members names'.members) :
    List.Forall₂ (ColumnRenamed names names') names.members.zipIdx names'.members.zipIdx := by
  have h := List.forall₂_iff_get.1 h
  refine List.forall₂_iff_get.2 ⟨by simp [h.1], ?_⟩
  intro i hi hi'
  rw [List.length_zipIdx] at hi hi'
  have htables := (h.2 i hi hi').2
  simp only [List.get_eq_getElem, List.getElem_zipIdx, Nat.zero_add] at htables ⊢
  exact ⟨rfl, List.getElem?_eq_getElem hi, List.getElem?_eq_getElem hi', htables⟩

theorem memberSql_follows {m m' : MemberColumn × Nat} (h : ColumnRenamed names names' m m') :
    Follows names names' (memberSql m.1 m.2) (memberSql m'.1 m'.2) := by
  obtain ⟨hi, hm, hm', ht⟩ := h
  have hcolumn : m'.1.valueColumn = m.1.valueColumn := by
    rw [MemberColumn.valueColumn, MemberColumn.valueColumn, ht]
  have hfixed : m.1.valueColumn ∈ Slot.fixedNames := by
    rw [MemberColumn.valueColumn]
    split <;> decide
  have htable : Unquoted (", mem" ++ m.2.repr ++ ".") :=
    .append (.append (by decide) (unquoted_repr _)) (by decide)
  rw [memberSql, memberSql, hi, hcolumn]
  exact .raw htable (.fixed hfixed (.raw (by decide) (.aliasName hm hm' .nil)))

theorem memberJoin_follows {m m' : MemberColumn × Nat} (h : ColumnRenamed names names' m m') :
    Follows names names' (memberJoin names.structureName m.1 m.2)
      (memberJoin names'.structureName m'.1 m'.2) := by
  obtain ⟨hi, hm, hm', ht⟩ := h
  have htable := unquoted_table m.2
  have hon : Unquoted (" " ++ ("mem" ++ m.2.repr) ++ " on " ++ ("mem" ++ m.2.repr) ++ ".") :=
    .append (.append (.append (.append (by decide) htable) (by decide)) htable) (by decide)
  have hand : Unquoted (" and " ++ ("mem" ++ m.2.repr) ++ ".") :=
    .append (.append (by decide) htable) (by decide)
  rw [memberJoin, memberJoin, hi, ht]
  exact .raw (by decide) (.index _ (.raw hon (.fixed (by decide) (.raw (by decide)
    (.fixed (by decide) (.raw hand (.fixed (by decide)
      (.path (by decide) (by decide) hm hm' .nil))))))))

end CompiledQuery

namespace IncludeJoin

variable {join join' : IncludeJoin}

abbrev Follows (names names' : Names) : IncludeJoin → IncludeJoin → Prop :=
  IncludeJoin.Renamed names.targets names'.targets names.members names'.members

theorem unquoted_table (join : IncludeJoin) : Unquoted join.table :=
  .append (by decide) (unquoted_repr _)

theorem joinSql_follows (h : join.Follows names names' join') :
    Sql.Follows names names' join.joinSql join'.joinSql := by
  have htable : join'.table = join.table := by rw [table, table, h.number]
  have hon : Unquoted (" " ++ join.table ++ " on " ++ join.table ++ ".") :=
    .append (.append (.append (.append (by decide) join.unquoted_table) (by decide))
      join.unquoted_table) (by decide)
  have htarget : (Slot.target join.number).fill? names =
      some (.quoted .name (TableName.body join.target)) := by
    rw [Slot.fill?, h.target]
    rfl
  have htarget' : (Slot.target join.number).fill? names' =
      some (.quoted .name (TableName.body join'.target)) := by
    rw [Slot.fill?, h.target']
    rfl
  rw [joinSql, joinSql, htable]
  exact .raw (by decide) (.name htarget htarget' (.raw hon (.fixed (by decide)
    (.raw (by decide) (ColumnRef.sql_follows h.column)))))

theorem output_follows (h : join.Follows names names' join') {s s' : Sql}
    (hs : Sql.Follows names names' s s') :
    Sql.Follows names names' (.name join.output :: s) (.name join'.output :: s') := by
  have houtput : join'.output = "IncludeJson" ++ join.number.repr := by rw [output, h.number]
  have hfill : (Slot.output join.number).fill? names = some (.quoted .name join.output) :=
    if_pos (List.getElem?_eq_some_iff.1 h.target).1
  have hfill' : (Slot.output join.number).fill? names' = some (.quoted .name join'.output) := by
    rw [houtput]
    exact if_pos (List.getElem?_eq_some_iff.1 h.target').1
  exact .name hfill hfill' hs

theorem columnSql_follows (h : join.Follows names names' join') :
    Sql.Follows names names' join.columnSql join'.columnSql := by
  have htable : join'.table = join.table := by rw [table, table, h.number]
  rw [columnSql, columnSql, htable]
  exact .raw (.append join.unquoted_table (by decide)) (.fixed (by decide)
    (.raw (by decide) (output_follows h .nil)))

end IncludeJoin

section

variable {ρ : Renaming} {query : Query} {compiled compiled' : CompiledQuery}

namespace CompiledQuery

/-- Parts of a query's statements before and after a renaming, with one template. -/
abbrev Templated (ρ : Renaming) (query : Query) (compiled compiled' : CompiledQuery) :
    Sql → Sql → Prop :=
  Follows (query.names compiled) ((query.rename ρ).names compiled')

theorem isEmpty_renamed {α β : Type} {r : α → β → Prop} {items : List α} {items' : List β}
    (h : List.Forall₂ r items items') : items'.isEmpty = items.isEmpty := by
  cases h <;> rfl

theorem Renamed.includes_follow (h : compiled.Renamed ρ query compiled') :
    List.Forall₂ (IncludeJoin.Follows (query.names compiled) ((query.rename ρ).names compiled'))
      compiled.includes compiled'.includes :=
  h.includes

theorem rows_templated (h : compiled.Renamed ρ query compiled') :
    Templated ρ query compiled compiled' (compiled.source query.structureName false)
      (compiled'.source (query.rename ρ).structureName false) := by
  rw [source, source, isEmpty_renamed h.members]
  cases compiled.members.isEmpty with
  | true => exact .raw (by decide) (.body (.raw (by decide) .nil))
  | false =>
    have hmembers : List.Forall₂ (ColumnRenamed (query.names compiled)
        ((query.rename ρ).names compiled')) compiled.members.zipIdx compiled'.members.zipIdx :=
      zipIdx_renamed h.members
    have hcolumns := Follows.flatMap hmembers fun _ _ hm => memberSql_follows hm
    have hjoins := Follows.flatMap hmembers fun _ _ hm => memberJoin_follows hm
    have hstart : Unquoted "from (select s." := by decide
    have hfrom : Unquoted " from " := by decide
    have hbase : Unquoted " s" := by decide
    have hend : Unquoted ") rs" := by decide
    exact (Follows.append (.raw hstart (.fixed (by decide) (.raw (by decide)
      (.fixed (by decide) hcolumns)))) (.raw hfrom (.body (.raw hbase hjoins)))).append
        (.raw hend .nil)

theorem source_templated (h : compiled.Renamed ρ query compiled') (withIncludes : Bool) :
    Templated ρ query compiled compiled' (compiled.source query.structureName withIncludes)
      (compiled'.source (query.rename ρ).structureName withIncludes) := by
  cases withIncludes with
  | false => exact rows_templated h
  | true =>
    have hblank : Unquoted " " := by decide
    exact (rows_templated h).append (.flatMap h.includes_follow fun _ _ hj =>
      .raw hblank (IncludeJoin.joinSql_follows hj))

theorem orderTerm_templated {term term' : ColumnRef × SortDirection}
    (h : TermRenamed compiled.members compiled'.members term term') :
    Templated ρ query compiled compiled' (orderTerm term) (orderTerm term') := by
  have hdirection : Unquoted (" " ++ term.2.sql) := by
    cases term.2 <;> decide
  rw [orderTerm, orderTerm, h.2]
  exact (ColumnRef.sql_follows h.1).append (.raw hdirection .nil)

end CompiledQuery

namespace Generator

open CompiledQuery (Templated)

theorem filterSql_templated (h : compiled.Renamed ρ query compiled') :
    Templated ρ query compiled compiled' (filterSql compiled) (filterSql compiled') := by
  rw [filterSql, filterSql, CompiledQuery.isEmpty_renamed h.predicate]
  split
  · exact .nil
  · exact .raw (by decide) (Token.listSql_follows h.predicate)

theorem columnsSql_templated (h : compiled.Renamed ρ query compiled') (full : Bool) :
    Templated ρ query compiled compiled' (columnsSql compiled full)
      (columnsSql compiled' full) := by
  have hcomma : Unquoted ", " := by decide
  cases full with
  | false => exact .raw (by decide) (.fixed (by decide) .nil)
  | true =>
    exact .raw (by decide) (.fixed (by decide) (.raw (by decide) (.fixed (by decide)
      (.flatMap h.includes_follow fun _ _ hj =>
        .raw hcomma (IncludeJoin.columnSql_follows hj)))))

theorem outputs_templated (h : compiled.Renamed ρ query compiled') (full : Bool) :
    List.Forall₂ (fun output output' => Templated ρ query compiled compiled'
      [.raw "pg.", .name output] [.raw "pg.", .name output'])
      (outputs compiled full) (outputs compiled' full) := by
  cases full with
  | false => exact .cons (.raw (by decide) (.fixed (by decide) .nil)) .nil
  | true =>
    refine .cons (.raw (by decide) (.fixed (by decide) .nil))
      (.cons (.raw (by decide) (.fixed (by decide) .nil)) ?_)
    rw [List.forall₂_map_left_iff, List.forall₂_map_right_iff]
    exact h.includes_follow.imp fun _ _ hj => .raw (by decide) (IncludeJoin.output_follows hj .nil)

theorem orderSql_templated (h : compiled.Renamed ρ query compiled') :
    Templated ρ query compiled compiled' (orderSql compiled) (orderSql compiled') := by
  refine Follows.join (by decide) ?_
  rw [List.forall₂_map_left_iff, List.forall₂_map_right_iff]
  exact h.orderBy.imp fun _ _ ht => CompiledQuery.orderTerm_templated ht

theorem pageOrderSql_templated (h : compiled.Renamed ρ query compiled') :
    Templated ρ query compiled compiled' (pageOrderSql compiled) (pageOrderSql compiled') := by
  rw [pageOrderSql, pageOrderSql, CompiledQuery.isEmpty_renamed h.orderBy]
  split
  · exact .raw (by decide) (.fixed (by decide) (.raw (by decide) .nil))
  · exact orderSql_templated h

end Generator

structure SelectParts.Follows (names names' : Names) (parts parts' : SelectParts) : Prop where
  columns : Sql.Follows names names' parts.columns parts'.columns
  outputs : List.Forall₂ (fun output output' => Sql.Follows names names'
    [.raw "pg.", .name output] [.raw "pg.", .name output']) parts.outputs parts'.outputs
  source : Sql.Follows names names' parts.source parts'.source
  filter : Sql.Follows names names' parts.filter parts'.filter
  orderBy : Sql.Follows names names' parts.orderBy parts'.orderBy

theorem Dialect.paged_follows (dialect : Dialect) {parts parts' : SelectParts}
    (h : parts.Follows names names' parts') (next : Nat) :
    Follows names names' (dialect.paged parts next) (dialect.paged parts' next) := by
  cases dialect with
  | rowNumber =>
    have hcomma : Unquoted ", " := by decide
    have houtputs := Follows.join hcomma
      (List.forall₂_map_left_iff.2 (List.forall₂_map_right_iff.2 h.outputs))
    have hselect : Unquoted "select " := by decide
    have hfrom : Unquoted " from (select " := by decide
    have hover : Unquoted ", row_number() over (order by " := by decide
    have has : Unquoted ") as " := by decide
    refine (((((Follows.raw hselect houtputs).append (.raw hfrom h.columns)).append
      (.raw hover h.orderBy)).append (.raw has (.fixed (by decide)
        (.raw (by decide) h.source)))).append h.filter).append ?_
    exact .raw (by decide) (.fixed (by decide) (.raw (by decide) (.parameter (.raw (by decide)
      (.parameter (.raw (by decide) (.fixed (by decide) .nil)))))))
  | offsetFetch =>
    have hselect : Unquoted "select " := by decide
    have hblank : Unquoted " " := by decide
    have horder : Unquoted " order by " := by decide
    refine ((((Follows.raw hselect h.columns).append (.raw hblank h.source)).append h.filter).append
      (.raw horder h.orderBy)).append ?_
    exact .raw (by decide) (.parameter (.raw (by decide) (.parameter (.raw (by decide) .nil))))

namespace Generator

open CompiledQuery (Templated)

theorem select_templated (g : Generator) (h : compiled.Renamed ρ query compiled') (full : Bool) :
    Templated ρ query compiled compiled' (g.select query compiled full).1
        (g.select (query.rename ρ) compiled' full).1 ∧
      (g.select (query.rename ρ) compiled' full).2 = (g.select query compiled full).2 := by
  have hpaging : (query.rename ρ).paging = query.paging := rfl
  have htake : (query.rename ρ).take = query.take := rfl
  have hsource := CompiledQuery.source_templated h full
  rw [select, select, hpaging, htake, h.values, CompiledQuery.isEmpty_renamed h.orderBy]
  cases query.paging with
  | some paging =>
    refine ⟨Dialect.paged_follows _ ?_ _, rfl⟩
    exact {
      columns := columnsSql_templated h full
      outputs := outputs_templated h full
      source := hsource
      filter := filterSql_templated h
      orderBy := pageOrderSql_templated h }
  | none =>
    have horder : Templated ρ query compiled compiled'
        (if compiled.orderBy.isEmpty then [] else .raw " order by " :: orderSql compiled)
        (if compiled.orderBy.isEmpty then [] else .raw " order by " :: orderSql compiled') := by
      split
      · exact .nil
      · exact .raw (by decide) (orderSql_templated h)
    have hselect : Unquoted "select " := by decide
    have hblank : Unquoted " " := by decide
    have hselected (limit : Sql) (hlimit : Templated ρ query compiled compiled' limit limit) :=
      ((((Follows.raw hselect hlimit).append (columnsSql_templated h full)).append
        (.raw hblank hsource)).append (filterSql_templated h)).append horder
    cases query.take with
    | none => exact ⟨hselected [] .nil, rfl⟩
    | some count =>
      have htop : Unquoted ("top(" ++ count.repr ++ ") ") :=
        .append (.append (by decide) (unquoted_repr count)) (by decide)
      exact ⟨hselected (g.dialect.limit count) (.raw htop .nil), rfl⟩

theorem statement_templated (g : Generator) (h : compiled.Renamed ρ query compiled')
    (shape : Shape) :
    Templated ρ query compiled compiled' (g.statement query compiled shape).1
        (g.statement (query.rename ρ) compiled' shape).1 ∧
      (g.statement (query.rename ρ) compiled' shape).2 = (g.statement query compiled shape).2 := by
  have hrows := (CompiledQuery.source_templated h false).append (filterSql_templated h)
  cases shape with
  | full => exact select_templated g h true
  | ids => exact select_templated g h false
  | count => exact ⟨.raw (by decide) hrows, rfl⟩
  | «exists» =>
    have hinner : Unquoted "select 1 " := by decide
    have hcase : Unquoted "select case when exists (" := by decide
    refine ⟨?_, rfl⟩
    exact (Follows.raw hcase (.raw hinner hrows)).append (.raw (by decide) .nil)

/-- Where a statement is generated, one is generated under every renaming, with the same parameters.
Both are read as one template with the names of each query in its slots, every name and literal in
quotes of its own: names of types, aliases and paths of members that the query refers to. -/
theorem generate_rename (g : Generator) (ρ : Renaming) (schema : Schema) (query : Query)
    (shape : Shape) (command : Command) (h : g.generate schema query shape = .ok command) :
    ∃ compiled compiled' command' slots,
      query.compile g.naming schema = .ok compiled ∧
      (query.rename ρ).compile g.naming (schema.rename ρ) = .ok compiled' ∧
      g.generate (schema.rename ρ) (query.rename ρ) shape = .ok command' ∧
      Slot.Fill slots (query.names compiled) command.sql ∧
      Slot.Fill slots ((query.rename ρ).names compiled') command'.sql ∧
      (compiled.members.map MemberColumn.path).Nodup ∧
      Compiler.Referenced query.references compiled.members ∧
      compiled'.members.map MemberColumn.path =
        compiled.members.map (fun m => ρ.path m.path) ∧
      command'.params = command.params := by
  obtain ⟨compiled, hcompiled, hcommand⟩ := bind_eq_ok.1 h
  obtain ⟨_, _, herror, -⟩ | ⟨_, compiled', hok, hcompiled', hrenamed⟩ :=
    (Query.compile_rename ρ g.naming schema query).exists_eq
  · rw [herror] at hcompiled
    cases hcompiled
  obtain rfl := Except.ok.inj (hcompiled.symm.trans hok)
  obtain ⟨hsql, hvalues⟩ := statement_templated g hrenamed shape
  obtain ⟨slots, hfill, hfill'⟩ := hsql.exists_fill
  obtain rfl := Except.ok.inj hcommand
  have hcommand' : g.generate (schema.rename ρ) (query.rename ρ) shape = .ok (Command.ofValues
      (g.statement (query.rename ρ) compiled' shape).1
      (compiled'.values ++ (g.statement (query.rename ρ) compiled' shape).2)) := by
    rw [generate, hcompiled']
    rfl
  refine ⟨compiled, compiled', _, slots, hcompiled, hcompiled', hcommand', hfill, hfill',
    (Query.compile_refers hcompiled).1.nodup_paths, Query.compile_referenced hcompiled,
    MemberColumn.paths_renamed hrenamed.members, ?_⟩
  rw [hrenamed.values, hvalues]
  rfl

/-- Names with quotes of both kinds, and a renaming that adds more of them. -/
theorem generate_rename_of_quotes :
    let schema : Schema := ⟨"Or]d'er", ⟨"Id", .identity⟩,
      [⟨"Na]me's", .string, none, false, false⟩, ⟨"Customer[Id", .guid, none, false, false⟩]⟩
    let query : Query := {
      structureName := "Or]d'er"
      predicate := [.member ⟨"Na]me's", none, some .string, false, false⟩, .operator .equal,
        .value (.string "a")]
      includes := [⟨⟨"Customer[Id", none, some .guid, false, false⟩, "Cust]omer"⟩] }
    let g : Generator := ⟨.rowNumber, ColumnName.ofPath 128⟩
    let ρ : Renaming := ⟨fun type => type ++ "]", fun path => path ++ "' or [",
      fun _ _ h => (String.append_left_inj _).1 h⟩
    ∃ command, g.generate schema query .full = .ok command ∧
      ∃ compiled compiled' command' slots,
        query.compile g.naming schema = .ok compiled ∧
        (query.rename ρ).compile g.naming (schema.rename ρ) = .ok compiled' ∧
        g.generate (schema.rename ρ) (query.rename ρ) .full = .ok command' ∧
        Slot.Fill slots (query.names compiled) command.sql ∧
        Slot.Fill slots ((query.rename ρ).names compiled') command'.sql ∧
        (compiled.members.map MemberColumn.path).Nodup ∧
        Compiler.Referenced query.references compiled.members ∧
        compiled'.members.map MemberColumn.path =
          compiled.members.map (fun m => ρ.path m.path) ∧
        command'.params = command.params := by
  intro schema query g ρ
  have hok : (g.generate schema query .full).toOption.isSome = true := by decide +kernel
  obtain ⟨command, h⟩ : ∃ command, g.generate schema query .full = .ok command := by
    cases hg : g.generate schema query .full with
    | ok command => exact ⟨command, rfl⟩
    | error e =>
      rw [hg] at hok
      cases hok
  exact ⟨command, h, generate_rename g ρ schema query .full command h⟩

end Generator

end

end DocStore
