import DocStore.Proofs.Sql.Candidates
import DocStore.Proofs.Sql.FirstUses
import DocStore.Proofs.Sql.RowColumns
import Mathlib.Data.List.Forall2

/-!
# Unambiguous columns

Every column of the rows that the text of a compiled query names is that of the member referred to
there, and the source of the rows has exactly one column of that name: the aliases are apart from
each other and from the columns that the derived table uses itself.
-/

namespace DocStore

namespace ColumnName

theorem length_ofPath_le (maxLength : Nat) (path : String) :
    (ofPath maxLength path).toList.length ≤ limit maxLength := by
  rcases Nat.lt_or_ge (limit maxLength) (flat path).length with hlong | hshort
  · have hten : 10 ≤ limit maxLength := Nat.le_max_right _ _
    have hhex : (Checksum.hex (Checksum.ofText path)).length = 8 := rfl
    rw [ofPath_of_lt hlong, String.toList_ofList, List.length_append, List.length_take,
      List.length_cons, hhex]
    omega
  · rw [ofPath_of_le hshort, String.toList_ofList]
    exact hshort

end ColumnName

def FromClause.columnNames (base : List String) : FromClause → List String
  | table _ _ => base
  | derived columns _ _ _ _ => columns.map Prod.snd

def FromClause.source : FromClause → String
  | table _ source => source
  | derived _ _ _ _ source => source

namespace Compiler

variable {naming : ColumnNaming} {schema : Schema} {members : List MemberColumn} {r : MemberRef}
  {c : ColumnRef} {name : String}

/-- The name is that of the identity's column or of the column of the member. -/
def NamesColumn (members : List MemberColumn) (r : MemberRef) (name : String) : Prop :=
  r.isId = true ∧ name = Column.structureId ∨
    r.isId = false ∧ ∃ m ∈ members, m.path = r.path ∧ name = m.aliasName

theorem Refers.namesColumn (h : Refers members r c) : NamesColumn members r c.column := by
  cases c with
  | identity => exact .inl ⟨h, rfl⟩
  | aliased name =>
    obtain ⟨hid, m, hm, hpath, hname⟩ := h
    exact .inr ⟨hid, m, hm, hpath, hname.symm⟩

theorem NamesColumn.mem (h : NamesColumn members r name) :
    name ∈ Column.structureId :: members.map MemberColumn.aliasName := by
  rcases h with ⟨-, rfl⟩ | ⟨-, m, hm, -, rfl⟩
  · exact List.mem_cons_self
  · exact List.mem_cons_of_mem _ (List.mem_map_of_mem hm)

/-- Among columns whose names are apart, one has the name. -/
theorem NamesColumn.count_eq_one (h : NamesColumn members r name)
    (hn : (reserved ++ members.map MemberColumn.aliasName).Nodup) :
    ([Column.structureId, Column.json] ++ members.map MemberColumn.aliasName).count name = 1 := by
  have hsub : List.Sublist ([Column.structureId, Column.json] ++ members.map MemberColumn.aliasName)
      (reserved ++ members.map MemberColumn.aliasName) :=
    .cons_cons _ (.cons_cons _ (.cons _ (.refl _)))
  refine List.count_eq_one_of_mem (hn.sublist hsub) ?_
  rcases List.mem_cons.1 h.mem with hid | hmem
  · exact hid ▸ List.mem_cons_self
  · exact List.mem_append_right _ hmem

theorem exists_newAlias_eq (naming : ColumnNaming) (members : List MemberColumn) (path : String) :
    ∃ p, newAlias naming members path = naming p := by
  unfold newAlias
  cases h : freeAlias? naming path (reserved ++ members.map MemberColumn.aliasName) attempts 0 with
  | none => exact ⟨path, rfl⟩
  | some name =>
    obtain ⟨-, number, rfl⟩ := candidate_of_freeAlias? h
    unfold candidate
    split
    · exact ⟨path, rfl⟩
    · exact ⟨_, rfl⟩

/-- Every alias is the column name of some path. -/
theorem Collected.exists_aliasName_eq (h : Collected naming schema members) :
    ∀ m ∈ members, ∃ p, m.aliasName = naming p := by
  induction h with
  | nil => exact nofun
  | @concat members a _ _ _ ih =>
    intro m hm
    rcases List.mem_append.1 hm with hm | hm
    · exact ih m hm
    · obtain rfl := List.mem_singleton.1 hm
      exact exists_newAlias_eq naming members a.path

/-- The token of a node names a column where the node is a member, the column of which it is. -/
theorem compileNode_names {previous : Option Operator} {state state' : State} {n : Node}
    {token : Token} (h : compileNode naming schema previous state n = .ok (token, state'))
    (hrefers : NodeRefers members n token) :
    Option.Rel (NamesColumn members) n.member? token.rowColumn? := by
  cases hn : n.member? with
  | some r =>
    obtain ⟨c, rfl, hc⟩ := hrefers r (Node.member?_eq_some.1 hn)
    exact .some hc.namesColumn
  | none =>
    have hnone : token.rowColumn? = none := by
      rw [compileNode.eq_def] at h
      split at h
      · cases hn
      all_goals first
        | (cases h <;> rfl)
        | (split at h <;> cases h; rfl)
    rw [hnone]
    exact .none

/-- Every token is what its node is compiled to. -/
theorem compileWhere_tokens {previous : Option Operator} {state state' : State}
    {nodes : List Node} {tokens : List Token}
    (h : compileWhere naming schema previous state nodes = .ok (tokens, state')) :
    List.Forall₂ (fun n token => ∃ previous before after,
      compileNode naming schema previous before n = .ok (token, after)) nodes tokens := by
  induction nodes generalizing previous state tokens with
  | nil =>
    obtain ⟨rfl, -⟩ := Prod.mk.inj (Except.ok.inj h)
    exact .nil
  | cons n nodes ih =>
    obtain ⟨⟨token, state₁⟩, hnode, h⟩ := bind_eq_ok.1 h
    obtain ⟨⟨others, state₂⟩, hrest, h⟩ := bind_eq_ok.1 h
    obtain ⟨rfl, rfl⟩ := Prod.mk.inj (Except.ok.inj h)
    exact .cons ⟨previous, state, state₁, hnode⟩ (ih hrest)

end Compiler

namespace CompiledQuery

/-- The rows have the columns of a body and one for every member. -/
theorem columnNames_fromClause (compiled : CompiledQuery) (structureName : String) :
    (compiled.fromClause structureName).columnNames [Column.structureId, Column.json] =
      [Column.structureId, Column.json] ++ compiled.members.map MemberColumn.aliasName := by
  unfold fromClause
  cases hm : compiled.members with
  | nil => rfl
  | cons m members =>
    have haliases : (Prod.snd ∘ memberColumn) = MemberColumn.aliasName ∘ Prod.fst := rfl
    rw [if_neg (by simp), FromClause.columnNames, List.map_cons, List.map_cons, List.map_map,
      haliases, ← List.map_map, List.zipIdx_map_fst]
    rfl

theorem source_fromClause (compiled : CompiledQuery) (structureName : String) :
    (compiled.fromClause structureName).source = "rs" := by
  unfold fromClause
  split <;> rfl

/-- Every reference in the text of a compiled query is to one column of its rows, that of the member
referred to. -/
structure Unambiguous (maxLength : Nat) (schema : Schema) (query : Query)
    (compiled : CompiledQuery) : Prop where
  /-- A column for every member other than the identity, by first use. -/
  paths : compiled.members.map MemberColumn.path = (usedPaths query.references).eraseDups
  aliases : (Compiler.reserved ++ compiled.members.map MemberColumn.aliasName).Nodup
  length : ∀ m ∈ compiled.members, m.aliasName.toList.length ≤ ColumnName.limit maxLength
  tables : ∀ m ∈ compiled.members, ∃ a, schema.accessor? m.path = some a ∧
    m.table = a.storageFamily.indexTable
  predicate : ∃ columns, rowColumns? (Token.listSql compiled.predicate).render = some columns ∧
    List.Forall₂ (Compiler.NamesColumn compiled.members)
      (query.predicate.filterMap Node.member?) columns
  orderBy : List.Forall₂ (fun s term => ∃ name,
    rowColumns? (orderTerm term).render = some [name] ∧
      Compiler.NamesColumn compiled.members s.member name) query.sortings compiled.orderBy
  includes : List.Forall₂ (fun i join => ∃ name,
    rowColumns? join.joinSql.render = some [name] ∧
      Compiler.NamesColumn compiled.members i.member name) query.includes compiled.includes
  source : ∀ structureName, ∃ clause,
    FromClause.ofText? (compiled.source structureName false).render = some clause ∧
      clause.source = "rs" ∧ ∀ r ∈ query.references, ∀ name,
        Compiler.NamesColumn compiled.members r name →
          (clause.columnNames [Column.structureId, Column.json]).count name = 1

end CompiledQuery

namespace Query

variable {naming : ColumnNaming} {schema : Schema} {query : Query} {compiled : CompiledQuery}

/-- The predicate names one column for each of its members in turn. -/
theorem compile_names_predicate (h : query.compile naming schema = .ok compiled) :
    List.Forall₂ (Compiler.NamesColumn compiled.members) (query.predicate.filterMap Node.member?)
      (compiled.predicate.filterMap Token.rowColumn?) := by
  have hrefers := (compile_refers h).2.predicate
  obtain ⟨⟨predicate, state⟩, hwhere, h⟩ := bind_eq_ok.1 h
  obtain ⟨⟨orderBy, members₁⟩, hsortings, h⟩ := bind_eq_ok.1 h
  obtain ⟨⟨includes, members₂⟩, hincludes, h⟩ := bind_eq_ok.1 h
  obtain rfl := Except.ok.inj h
  refine List.rel_filterMap (fun _ _ hrel => hrel) (List.Forall₂.mp ?_ hrefers
    (Compiler.compileWhere_tokens hwhere))
  rintro n token hnode ⟨_, _, _, hcompiled⟩
  exact Compiler.compileNode_names hcompiled hnode

/-- A compiled query is unambiguous where its searches for aliases end, as they all do with fewer
than 8000 members. -/
theorem compile_unambiguous {maxLength : Nat}
    (h : query.compile (ColumnName.ofPath maxLength) schema = .ok compiled)
    (hends : 8000 ≤ compiled.members.length →
      Compiler.FindsAliases (ColumnName.ofPath maxLength) compiled.members) :
    compiled.Unambiguous maxLength schema query := by
  obtain ⟨hcollected, hrefers⟩ := compile_refers h
  have hfinds : Compiler.FindsAliases (ColumnName.ofPath maxLength) compiled.members := by
    rcases Nat.lt_or_ge compiled.members.length 8000 with hfew | hmany
    · exact Compiler.findsAliases_of_length hfew
    · exact hends hmany
  have hnodup := hcollected.nodup_aliases hfinds
  refine {
    paths := compile_paths h
    aliases := hnodup
    length := ?_
    tables := compile_tabled h
    predicate := ⟨_, Token.rowColumns?_listSql compiled.predicate, compile_names_predicate h⟩
    orderBy := hrefers.orderBy.imp fun s term hs => ⟨_,
      (CompiledQuery.mentions_orderTerm term).rowColumns?_render, hs.namesColumn⟩
    includes := hrefers.includes.imp fun i join hi => ⟨_,
      join.mentions_joinSql.rowColumns?_render, hi.namesColumn⟩
    source := ?_ }
  · intro m hm
    obtain ⟨p, hp⟩ := hcollected.exists_aliasName_eq m hm
    rw [hp]
    exact ColumnName.length_ofPath_le maxLength p
  · intro structureName
    refine ⟨_, compiled.ofText?_source structureName, compiled.source_fromClause structureName, ?_⟩
    intro r _ name hname
    rw [compiled.columnNames_fromClause structureName]
    exact hname.count_eq_one hnodup

/-- A member is named like a column of the derived table, another one like the second candidate for
the alias of a third, and names are cut to twelve characters. -/
theorem compile_unambiguous_of_orders :
    let schema : Schema := ⟨"Order", ⟨"Id", .identity⟩, [⟨"Json", .string, none, false, false⟩,
      ⟨"Item.Code", .integer, none, false, false⟩, ⟨"Item_Code", .string, none, true, false⟩,
      ⟨"Item_Code_1", .guid, none, false, false⟩,
      ⟨"Customer.Address.Street", .text, none, false, false⟩]⟩
    let ref : String → Family → MemberRef := fun path family =>
      ⟨path, none, some family, false, false⟩
    let query : Query := {
      structureName := "Order"
      predicate := [.member (ref "Item.Code" .integer), .operator .greaterThan,
        .value (.integer 3), .operator .and, .startGroup, .member (ref "Item_Code" .string),
        .operator .like, .value (.string "%a%"), .operator .or, .member (ref "Json" .string),
        .operator .isNot, .null, .endGroup]
      sortings := [⟨ref "Customer.Address.Street" .text, .desc⟩, ⟨ref "Item.Code" .integer, .asc⟩,
        ⟨⟨"Id", none, some .integer, true, false⟩, .asc⟩]
      includes := [⟨ref "Item_Code_1" .guid, "Code"⟩] }
    ∃ compiled, query.compile (ColumnName.ofPath 12) schema = .ok compiled ∧
      compiled.members = [⟨"Item.Code", "Item_Code", .integers⟩,
        ⟨"Item_Code", "Item_Code_1", .strings⟩, ⟨"Json", "Json_1", .strings⟩,
        ⟨"Customer.Address.Street", "Cus_6f4fc900", .texts⟩,
        ⟨"Item_Code_1", "Ite_7830c1d6", .guids⟩] ∧
      compiled.Unambiguous 12 schema query := by
  intro schema ref query
  let compiled : CompiledQuery := {
    members := [⟨"Item.Code", "Item_Code", .integers⟩, ⟨"Item_Code", "Item_Code_1", .strings⟩,
      ⟨"Json", "Json_1", .strings⟩, ⟨"Customer.Address.Street", "Cus_6f4fc900", .texts⟩,
      ⟨"Item_Code_1", "Ite_7830c1d6", .guids⟩]
    predicate := [.column (.aliased "Item_Code"), .operator .greaterThan, .parameter 0,
      .operator .and, .opening, .column (.aliased "Item_Code_1"), .operator .like, .parameter 1,
      .operator .or, .column (.aliased "Json_1"), .operator .isNot, .null, .closing]
    orderBy := [(.aliased "Cus_6f4fc900", .desc), (.aliased "Item_Code", .asc), (.identity, .asc)]
    includes := [⟨0, "Code", .aliased "Ite_7830c1d6"⟩]
    values := [.integer 3, .string "%a%"] }
  have hcompiled : query.compile (ColumnName.ofPath 12) schema = .ok compiled := by
    decide +kernel
  have hfew : 8000 ≤ compiled.members.length →
      Compiler.FindsAliases (ColumnName.ofPath 12) compiled.members :=
    fun hmany => absurd hmany (by decide)
  exact ⟨compiled, hcompiled, rfl, compile_unambiguous hcompiled hfew⟩

end Query

end DocStore
