import DocStore.Proofs.Predicate.Filters
import DocStore.Proofs.Predicate.Ungrammatical
import DocStore.Proofs.Sql.References

/-!
# Compiled filters

A query of accepted filters compiles to a predicate in the grammar exactly if every filter is
grammatical, unless it reports a member that the schema does not index. An ungrammatical filter
compiles to tokens outside the grammar, or to an internal error at a list without an `in`.
-/

namespace DocStore

open Grammar

namespace Predicate

variable {schema : Schema} {bindings : Bindings} {mode : HasValueMode} {l : Lambda}
  {s t : List Node} {p p' : Prop}

/-- Nodes that are in the grammar exactly if `p` holds, and that are read in any case. -/
structure GrammaticalIff (s : List Node) (p : Prop) : Prop where
  ne_nil : s ≠ []
  requires : Requires (terminals s) p
  derivable : p → Derivable (terminals s)

theorem grammaticalIff_of_ofLambda (h : ofLambda schema bindings mode l = .ok s) :
    GrammaticalIff s (Grammatical schema bindings l.param l.body) := by
  obtain ⟨nodes, hnodes, h⟩ := bind_eq_ok.1 h
  split at h
  · next hmember =>
    cases h
    refine ⟨complete_ne_nil ?_, (analysed_of_visit hnodes mode).requires, fun hg => ?_⟩
    · rintro rfl
      cases hmember
    · exact (hg.wellformed hnodes).derivable
  · cases h

namespace GrammaticalIff

theorem derivable_iff (h : GrammaticalIff s p) : Derivable (terminals s) ↔ p :=
  ⟨h.requires.of_derivable, h.derivable⟩

theorem congr (h : GrammaticalIff s p) (hp : p ↔ p') : GrammaticalIff s p' :=
  ⟨h.ne_nil, h.requires.mono hp.1, fun hp' => h.derivable (hp.2 hp')⟩

theorem conjoin (hs : GrammaticalIff s p) (ht : GrammaticalIff t p') :
    GrammaticalIff (Query.conjoin s t) (p ∧ p') := by
  have hempty : s.isEmpty = false := List.isEmpty_eq_false_iff.2 hs.ne_nil
  have heq : Query.conjoin s t = (.startGroup :: s ++ [.endGroup]) ++
      .operator .and :: (.startGroup :: t ++ [.endGroup]) := by
    simp [Query.conjoin, hempty]
  have hterminals : terminals (Query.conjoin s t) = (.opening :: terminals s ++ [.closing]) ++
      .operator .and :: (.opening :: terminals t ++ [.closing]) := by
    rw [heq, terminals_joined, terminals_group, terminals_group]
  refine ⟨?_, ?_, ?_⟩
  · rw [heq]
    exact List.cons_ne_nil _ _
  · rw [hterminals]
    exact hs.requires.group.joined (.inl rfl) ht.requires.group
  · rintro ⟨hp, hp'⟩
    rw [hterminals]
    exact .and (.group (hs.derivable hp)) (.group (ht.derivable hp'))

end GrammaticalIff

end Predicate

namespace Query.Builder

open Predicate

variable {b b' : Builder} {l : Lambda} {ls : List Lambda} {p : Prop}

/-- Only the predicate of the query is changed by a filter. -/
theorem exists_of_filter (h : b.filter l = .ok b') :
    ∃ nodes, ofLambda b.schema b.bindings b.mode l = .ok nodes ∧
      b' = { b with query := { b.query with predicate := conjoin b.query.predicate nodes } } := by
  obtain ⟨nodes, hnodes, h⟩ := bind_eq_ok.1 h
  exact ⟨nodes, hnodes, (Except.ok.inj h).symm⟩

theorem exists_of_foldlM_filter (hb : GrammaticalIff b.query.predicate p)
    (h : ls.foldlM filter b = .ok b') :
    ∃ s, b' = { b with query := { b.query with predicate := s } } ∧
      GrammaticalIff s (p ∧ ∀ k ∈ ls, Grammatical b.schema b.bindings k.param k.body) := by
  induction ls generalizing b p with
  | nil =>
    obtain rfl := Except.ok.inj h
    exact ⟨_, rfl, hb.congr (by simp)⟩
  | cons l ls ih =>
    rw [List.foldlM_cons] at h
    obtain ⟨b₁, hl, h⟩ := bind_eq_ok.1 h
    obtain ⟨nodes, hnodes, rfl⟩ := exists_of_filter hl
    obtain ⟨s, rfl, hs⟩ := ih (hb.conjoin (grammaticalIff_of_ofLambda hnodes)) h
    refine ⟨s, rfl, hs.congr ?_⟩
    rw [List.forall_mem_cons, and_assoc]

/-- The predicate of accepted filters, when there was none before. -/
theorem grammaticalIff_of_filters (hb : b.query.predicate = [])
    (h : (l :: ls).foldlM filter b = .ok b') :
    ∃ s, b' = { b with query := { b.query with predicate := s } } ∧
      GrammaticalIff s (∀ k ∈ l :: ls, Grammatical b.schema b.bindings k.param k.body) := by
  rw [List.foldlM_cons] at h
  obtain ⟨b₁, hl, h⟩ := bind_eq_ok.1 h
  obtain ⟨nodes, hnodes, rfl⟩ := exists_of_filter hl
  have hfirst : conjoin b.query.predicate nodes = nodes := by
    rw [hb]
    rfl
  rw [hfirst] at h
  obtain ⟨s, rfl, hs⟩ := exists_of_foldlM_filter (grammaticalIff_of_ofLambda hnodes) h
  refine ⟨s, rfl, hs.congr ?_⟩
  rw [List.forall_mem_cons]

end Query.Builder

namespace Compiler

variable {naming : ColumnNaming} {schema : Schema} {previous : Option Operator}
  {state state' : State} {n : Node} {nodes : List Node} {token : Token} {tokens : List Token}
  {e : Error}

theorem compileNode_terminal
    (h : compileNode naming schema previous state n = .ok (token, state')) :
    token.terminal = n.terminal := by
  cases n with
  | member r =>
    obtain ⟨⟨c, members⟩, -, h⟩ := bind_eq_ok.1 h
    cases h
    rfl
  | value v =>
    cases v with
    | list values =>
      rw [compileNode] at h
      split at h <;> cases h
      rfl
    | _ =>
      cases h
      rfl
  | _ =>
    cases h
    try rfl

theorem compileWhere_terminals
    (h : compileWhere naming schema previous state nodes = .ok (tokens, state')) :
    tokens.map Token.terminal = terminals nodes := by
  induction nodes generalizing previous state tokens with
  | nil =>
    cases h
    rfl
  | cons n nodes ih =>
    obtain ⟨⟨token, state₁⟩, hnode, h⟩ := bind_eq_ok.1 h
    obtain ⟨⟨others, state₂⟩, hrest, h⟩ := bind_eq_ok.1 h
    cases h
    rw [List.map_cons, compileNode_terminal hnode, ih hrest]
    rfl

/-- Why nodes are not compiled: a member that the schema does not index, or a node that has no place
where it stands. -/
inductive Rejected (schema : Schema) (previous : Option Operator) (nodes : List Node) :
    Error → Prop
  | unindexed {r : MemberRef} (hr : .member r ∈ nodes) (hid : r.isId = false)
    (ha : schema.accessor? r.path = none) :
    Rejected schema previous nodes (Error.schemaMismatch schema.name r.path)
  | misplaced {e : Error} (hk : e.kind = .internal) (hp : ¬ WellPlaced previous (terminals nodes)) :
    Rejected schema previous nodes e

theorem rejected_of_compileNode (h : compileNode naming schema previous state n = .error e) :
    Rejected schema previous (n :: nodes) e := by
  cases n with
  | member r =>
    cases href : columnRef naming schema state.members r with
    | error e' =>
      simp only [compileNode, href, bind, Except.bind] at h
      cases h
      obtain ⟨hid, ha, rfl⟩ := unindexed_of_columnRef href
      exact .unindexed List.mem_cons_self hid ha
    | ok found =>
      simp only [compileNode, href, bind, Except.bind] at h
      cases h
  | value v =>
    cases v with
    | list values =>
      rw [compileNode] at h
      split at h
      · cases h
      · next hplace =>
        cases h
        exact .misplaced rfl fun hp => hplace hp.1
    | _ => cases h
  | sorting s =>
    cases h
    exact .misplaced rfl id
  | inclusion i =>
    cases h
    exact .misplaced rfl id
  | _ => cases h

theorem Rejected.cons (h : Rejected schema n.operator? nodes e) :
    Rejected schema previous (n :: nodes) e := by
  cases h with
  | unindexed hr hid ha => exact .unindexed (List.mem_cons_of_mem n hr) hid ha
  | misplaced hk hp =>
    refine .misplaced hk fun hplaced => hp ?_
    cases n with
    | value v =>
      cases v with
      | list values => exact hplaced.2
      | _ => exact hplaced
    | sorting s => exact hplaced.elim
    | inclusion i => exact hplaced.elim
    | _ => exact hplaced

theorem rejected_of_compileWhere
    (h : compileWhere naming schema previous state nodes = .error e) :
    Rejected schema previous nodes e := by
  induction nodes generalizing previous state with
  | nil => cases h
  | cons n nodes ih =>
    rw [compileWhere] at h
    cases hnode : compileNode naming schema previous state n with
    | error e' =>
      rw [hnode] at h
      cases h
      exact rejected_of_compileNode hnode
    | ok found =>
      obtain ⟨token, state₁⟩ := found
      cases hrest : compileWhere naming schema n.operator? state₁ nodes with
      | error e' =>
        simp only [hnode, hrest, bind, Except.bind] at h
        cases h
        exact (ih hrest).cons
      | ok found =>
        simp only [hnode, hrest, bind, Except.bind] at h
        cases h

end Compiler

namespace Query

def HoldsPredicate (outcome : Except Error CompiledQuery) : Prop :=
  ∃ compiled, outcome = .ok compiled ∧ Derivable (compiled.predicate.map Token.terminal)

def ReportsUnindexed (schema : Schema) (query : Query) (outcome : Except Error CompiledQuery) :
    Prop :=
  ∃ r, .member r ∈ query.predicate ∧ r.isId = false ∧ schema.accessor? r.path = none ∧
    outcome = .error (Error.schemaMismatch schema.name r.path)

variable {naming : ColumnNaming} {schema : Schema} {query : Query}

/-- A query of a predicate alone compiles to a predicate in the grammar exactly if its nodes are in
the grammar, or reports an unindexed member. -/
theorem compile_predicate (hs : query.sortings = []) (hi : query.includes = []) :
    ReportsUnindexed schema query (query.compile naming schema) ∨
      (HoldsPredicate (query.compile naming schema) ↔ Derivable (terminals query.predicate)) := by
  cases hwhere : Compiler.compileWhere naming schema none ⟨[], []⟩ query.predicate with
  | ok found =>
    obtain ⟨tokens, state⟩ := found
    have hcompile : query.compile naming schema =
        .ok ⟨state.members, tokens, [], [], state.values⟩ := by
      simp only [Query.compile, hwhere, hs, hi, bind, Except.bind]
      rfl
    right
    rw [← Compiler.compileWhere_terminals hwhere, hcompile]
    exact ⟨fun ⟨_, h, hd⟩ => by cases h; exact hd, fun hd => ⟨_, rfl, hd⟩⟩
  | error e =>
    have hcompile : query.compile naming schema = .error e := by
      simp only [Query.compile, hwhere, bind, Except.bind]
    rw [hcompile]
    cases Compiler.rejected_of_compileWhere hwhere with
    | unindexed hr hid ha => exact .inl ⟨_, hr, hid, ha, rfl⟩
    | misplaced _ hp =>
      exact .inr ⟨fun ⟨_, h, _⟩ => (nomatch h), fun hd => absurd (hd.wellPlaced none) hp⟩

end Query

namespace Query.Builder

open Predicate

/-- Accepted filters compile to a predicate in the grammar exactly if each of them is grammatical,
or report a member that the schema does not index. -/
theorem filters_compile (schema : Schema) (bindings : Bindings) (mode : HasValueMode)
    (naming : ColumnNaming) (l : Lambda) (ls : List Lambda) (b : Builder)
    (h : (l :: ls).foldlM filter { ofSchema schema mode with bindings } = .ok b) :
    ReportsUnindexed schema b.query (b.query.compile naming schema) ∨
      (HoldsPredicate (b.query.compile naming schema) ↔
        ∀ k ∈ l :: ls, Grammatical schema bindings k.param k.body) := by
  obtain ⟨s, rfl, hs⟩ := grammaticalIff_of_filters rfl h
  exact (compile_predicate rfl rfl).imp_right fun hiff => hiff.trans hs.derivable_iff

/-- The filter `i => i.Paid && 3 < i.Total` compiles to a predicate in the grammar. -/
theorem filters_compile_of_orders :
    let schema : Schema := ⟨"Order", ⟨"Id", .guid⟩,
      [⟨"Paid", .boolean, none, false, false⟩, ⟨"Total", .integer, none, false, false⟩]⟩
    let member := fun name => Expr.member (.param "i") name
    let l : Lambda := ⟨"i", .binary .and (member "Paid")
      (.binary .lessThan (.constant (.integer 3)) (member "Total"))⟩
    ∃ b, [l].foldlM filter { ofSchema schema .eitherForm with bindings := [] } = .ok b ∧
      HoldsPredicate (b.query.compile (ColumnName.ofPath 128) schema) := by
  intro schema member l
  let paid : MemberRef := ⟨"Paid", none, some .boolean, false, false⟩
  let total : MemberRef := ⟨"Total", none, some .integer, false, false⟩
  have hpaid : MemberRef.ofExpr schema "i" (member "Paid") = .ok paid := by decide +kernel
  have htotal : IsMember schema "i" (member "Total") := ⟨total, by decide +kernel, rfl⟩
  have hl : Grammatical schema [] "i" l.body :=
    .and (.atom (.boolean hpaid rfl rfl)) (.atom (.compareLeft rfl rfl htotal nofun nofun))
  let nodes : List Node := [.member paid, .operator .equal, .value (.boolean true), .operator .and,
    .startGroup, .member total, .operator .greaterThan, .value (.integer 3), .endGroup]
  have hnodes : ofLambda schema [] .eitherForm l = .ok nodes := by decide +kernel
  let b : Builder := ⟨schema, [], .eitherForm, ⟨"Order", nodes, [], [], none, none⟩⟩
  have hb : [l].foldlM filter { ofSchema schema .eitherForm with bindings := [] } = .ok b := by
    rw [List.foldlM_cons, filter_eq hnodes]
    rfl
  refine ⟨b, hb, ?_⟩
  obtain ⟨r, hr, -, ha, -⟩ | hiff :=
    filters_compile schema [] .eitherForm (ColumnName.ofPath 128) l [] b hb
  · have hr : r = paid ∨ r = total := by simpa [b, nodes] using hr
    rcases hr with rfl | rfl <;> exact absurd ha (by decide)
  · refine hiff.2 fun k hk => ?_
    obtain rfl := List.mem_singleton.1 hk
    exact hl

/-- The filter `i => i.Age == [1, 2]` is accepted, and compiles neither to a predicate nor to the
report of a member that is not indexed. -/
theorem filter_list_comparison_fails :
    let schema : Schema := ⟨"Item", ⟨"Id", .guid⟩,
      [⟨"Age", .integer, none, false, false⟩, ⟨"Paid", .boolean, none, false, false⟩]⟩
    let l : Lambda := ⟨"i", .binary .equal (.member (.param "i") "Age")
      (.array [.constant (.integer 1), .constant (.integer 2)])⟩
    ∃ b, (ofSchema schema .eitherForm).filter l = .ok b ∧
      b.query.compile (ColumnName.ofPath 128) schema = .error Error.misplacedList ∧
      ¬ HoldsPredicate (b.query.compile (ColumnName.ofPath 128) schema) ∧
      ¬ ReportsUnindexed schema b.query (b.query.compile (ColumnName.ofPath 128) schema) := by
  intro schema l
  let age : MemberRef := ⟨"Age", none, some .integer, false, false⟩
  let nodes : List Node :=
    [.member age, .operator .equal, .value (.list [.integer 1, .integer 2])]
  have hnodes : ofLambda schema [] .eitherForm l = .ok nodes := by decide +kernel
  let b : Builder := ⟨schema, [], .eitherForm, ⟨"Item", nodes, [], [], none, none⟩⟩
  have hb : (ofSchema schema .eitherForm).filter l = .ok b := filter_eq hnodes
  have hcompile : b.query.compile (ColumnName.ofPath 128) schema = .error Error.misplacedList := by
    decide +kernel
  refine ⟨b, hb, hcompile, ?_, ?_⟩
  · rintro ⟨compiled, h, -⟩
    rw [hcompile] at h
    cases h
  · rintro ⟨r, -, -, -, h⟩
    rw [hcompile] at h
    have hkind := congrArg Error.kind (Except.error.inj h)
    cases hkind

end Query.Builder

end DocStore
