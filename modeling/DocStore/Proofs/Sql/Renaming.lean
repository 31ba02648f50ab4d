import DocStore.Proofs.Outcome
import DocStore.Sql.Compiler

/-!
# Renaming types and members

A renaming gives other names to structure types and other paths to members, in the schema and in the
query. A query that compiles does so under every renaming that keeps members apart, and to the same
parts: members, aliases and targets take the places of those that they are renamed from.
-/

namespace DocStore

/-- Other names for types and other paths for members; the latter stay different. -/
structure Renaming where
  type : String → String
  path : String → String
  path_injective : Function.Injective path

variable (ρ : Renaming)

def Accessor.rename (a : Accessor) : Accessor :=
  { a with path := ρ.path a.path }

def Schema.rename (schema : Schema) : Schema :=
  ⟨ρ.type schema.name, { schema.id with path := ρ.path schema.id.path },
    schema.accessors.map (Accessor.rename ρ)⟩

def MemberRef.rename (m : MemberRef) : MemberRef :=
  { m with path := ρ.path m.path, parent := m.parent.map ρ.path }

def Sorting.rename (s : Sorting) : Sorting :=
  { s with member := s.member.rename ρ }

def Inclusion.rename (i : Inclusion) : Inclusion :=
  ⟨i.member.rename ρ, ρ.type i.target⟩

def Node.rename : Node → Node
  | member m => member (m.rename ρ)
  | sorting s => sorting (s.rename ρ)
  | inclusion i => inclusion (i.rename ρ)
  | n => n

def Query.rename (query : Query) : Query :=
  { query with
    structureName := ρ.type query.structureName
    predicate := query.predicate.map (Node.rename ρ)
    sortings := query.sortings.map (Sorting.rename ρ)
    includes := query.includes.map (Inclusion.rename ρ) }

variable {ρ}

theorem Node.operator?_rename (n : Node) : (n.rename ρ).operator? = n.operator? := by
  cases n <;> rfl

theorem Schema.accessor?_rename (schema : Schema) (path : String) :
    (schema.rename ρ).accessor? (ρ.path path) =
      (schema.accessor? path).map (Accessor.rename ρ) := by
  have hsame : ((fun a : Accessor => decide (a.path = ρ.path path)) ∘ Accessor.rename ρ) =
      fun a => decide (a.path = path) := by
    funext a
    exact decide_eq_decide.2 ρ.path_injective.eq_iff
  rw [accessor?, rename, List.find?_map, hsame]
  rfl

/-- The members of two runs, one by one; their aliases have nothing to do with each other. -/
abbrev MemberColumn.Renamed (ρ : Renaming) : List MemberColumn → List MemberColumn → Prop :=
  List.Forall₂ fun m m' => m'.path = ρ.path m.path ∧ m'.table = m.table

theorem MemberColumn.paths_renamed {members members' : List MemberColumn}
    (h : MemberColumn.Renamed ρ members members') :
    members'.map MemberColumn.path = members.map fun m => ρ.path m.path := by
  induction h with
  | nil => rfl
  | cons h _ ih => rw [List.map_cons, List.map_cons, h.1, ih]

inductive ColumnRef.Renamed (members members' : List MemberColumn) : ColumnRef → ColumnRef → Prop
  | identity : Renamed members members' .identity .identity
  | aliased {i : Nat} {m m' : MemberColumn} (h : members[i]? = some m)
    (h' : members'[i]? = some m') :
    Renamed members members' (.aliased m.aliasName) (.aliased m'.aliasName)

inductive Token.Renamed (members members' : List MemberColumn) : Token → Token → Prop
  | column {c c' : ColumnRef} (h : ColumnRef.Renamed members members' c c') :
    Renamed members members' (.column c) (.column c')
  | same {t : Token} (h : ∀ c, t ≠ .column c) : Renamed members members' t t

def CompiledQuery.TermRenamed (members members' : List MemberColumn)
    (term term' : ColumnRef × SortDirection) : Prop :=
  ColumnRef.Renamed members members' term.1 term'.1 ∧ term'.2 = term.2

structure IncludeJoin.Renamed (targets targets' : List String)
    (members members' : List MemberColumn) (join join' : IncludeJoin) : Prop where
  number : join'.number = join.number
  target : targets[join.number]? = some join.target
  target' : targets'[join.number]? = some join'.target
  column : ColumnRef.Renamed members members' join.column join'.column

namespace Compiler

variable {naming : ColumnNaming} {schema : Schema}
  {members members' collected collected' : List MemberColumn}

/-- Two runs have collected further members, those of one being those of the other. -/
structure Grown (ρ : Renaming) (members members' collected collected' : List MemberColumn) :
    Prop where
  renamed : MemberColumn.Renamed ρ collected collected'
  grows : members <+: collected
  grows' : members' <+: collected'

theorem Grown.refl (h : MemberColumn.Renamed ρ members members') :
    Grown ρ members members' members members' :=
  ⟨h, List.prefix_rfl, List.prefix_rfl⟩

theorem Grown.trans {others others' : List MemberColumn}
    (h : Grown ρ members members' collected collected')
    (h' : Grown ρ collected collected' others others') : Grown ρ members members' others others' :=
  ⟨h'.renamed, h.grows.trans h'.grows, h.grows'.trans h'.grows'⟩

abbrev Parallel {α β : Type} (related : α → β → Prop) : Except Error α → Except Error β → Prop :=
  Matched (fun _ _ => True) related

theorem getElem?_mono {m : MemberColumn} {i : Nat} (h : members <+: collected)
    (hm : members[i]? = some m) : collected[i]? = some m := by
  obtain ⟨rest, rfl⟩ := h
  rw [List.getElem?_append_left (List.getElem?_eq_some_iff.1 hm).1, hm]

theorem Grown.columnRef {c c' : ColumnRef} (hg : Grown ρ members members' collected collected')
    (h : ColumnRef.Renamed members members' c c') :
    ColumnRef.Renamed collected collected' c c' := by
  cases h with
  | identity => exact .identity
  | aliased h h' =>
    exact .aliased (getElem?_mono hg.grows h) (getElem?_mono hg.grows' h')

theorem Grown.token {t t' : Token} (hg : Grown ρ members members' collected collected')
    (h : Token.Renamed members members' t t') : Token.Renamed collected collected' t t' := by
  cases h with
  | column h => exact .column (hg.columnRef h)
  | same h => exact .same h

/-- A member that was found is found at the same position in the other run. -/
theorem find?_renamed (h : MemberColumn.Renamed ρ members members') (path : String) :
    (members.find? (fun m => m.path = path) = none ∧
      members'.find? (fun m => m.path = ρ.path path) = none) ∨
    ∃ (i : Nat) (m m' : MemberColumn), members[i]? = some m ∧ members'[i]? = some m' ∧
      members.find? (fun m => m.path = path) = some m ∧
      members'.find? (fun m => m.path = ρ.path path) = some m' := by
  induction h with
  | nil => exact .inl ⟨rfl, rfl⟩
  | @cons m m' members members' hm _ ih =>
    have hsame : m'.path = ρ.path path ↔ m.path = path := by
      rw [hm.1]
      exact ρ.path_injective.eq_iff
    by_cases hpath : m.path = path
    · exact .inr ⟨0, m, m', rfl, rfl, List.find?_cons_of_pos (decide_eq_true hpath),
        List.find?_cons_of_pos (decide_eq_true (hsame.2 hpath))⟩
    · have hpath' := mt hsame.1 hpath
      rw [List.find?_cons_of_neg (by simpa using hpath),
        List.find?_cons_of_neg (by simpa using hpath')]
      obtain h | ⟨i, n, n', hi, hi', hfind, hfind'⟩ := ih
      · exact .inl h
      · exact .inr ⟨i + 1, n, n', hi, hi', hfind, hfind'⟩

theorem columnRef_renamed (h : MemberColumn.Renamed ρ members members') (r : MemberRef) :
    Parallel (fun a b => Grown ρ members members' a.2 b.2 ∧ ColumnRef.Renamed a.2 b.2 a.1 b.1)
      (columnRef naming schema members r)
      (columnRef naming (schema.rename ρ) members' (r.rename ρ)) := by
  have hid : (r.rename ρ).isId = r.isId := rfl
  have hpath : (r.rename ρ).path = ρ.path r.path := rfl
  rw [columnRef, columnRef, hid, hpath, Schema.accessor?_rename]
  by_cases hr : r.isId = true
  · rw [if_pos hr, if_pos hr]
    exact .ok ⟨.refl h, .identity⟩
  · rw [if_neg hr, if_neg hr]
    obtain ⟨hnone, hnone'⟩ | ⟨i, m, m', hm, hm', hfind, hfind'⟩ := find?_renamed h r.path
    · rw [hnone, hnone']
      cases schema.accessor? r.path with
      | none => exact .error trivial
      | some a =>
        have hlast : ∀ m, (members ++ [m])[members.length]? = some m :=
          fun _ => List.getElem?_concat_length
        have hlast' : ∀ m, (members' ++ [m])[members.length]? = some m := by
          rw [h.length_eq]
          exact fun _ => List.getElem?_concat_length
        exact .ok ⟨⟨List.rel_append h (.cons ⟨rfl, rfl⟩ .nil), List.prefix_append _ _,
          List.prefix_append _ _⟩, .aliased (hlast _) (hlast' _)⟩
    · rw [hfind, hfind']
      exact .ok ⟨.refl h, .aliased hm hm'⟩

theorem compileNode_renamed {state state' : State} (previous : Option Operator) (n : Node)
    (h : MemberColumn.Renamed ρ state.members state'.members)
    (hv : state'.values = state.values) :
    Parallel (fun a b => Grown ρ state.members state'.members a.2.members b.2.members ∧
        b.2.values = a.2.values ∧ Token.Renamed a.2.members b.2.members a.1 b.1)
      (compileNode naming schema previous state n)
      (compileNode naming (schema.rename ρ) previous state' (n.rename ρ)) := by
  cases n with
  | member r =>
    refine (columnRef_renamed h r).bind ?_
    rintro ⟨c, collected⟩ ⟨c', collected'⟩ ⟨hg, hc⟩
    exact .ok ⟨hg, hv, .column hc⟩
  | value v =>
    cases v with
    | list values =>
      rw [Node.rename, compileNode, compileNode, hv]
      · split
        · exact .ok ⟨.refl h, rfl, .same nofun⟩
        · exact .error trivial
      all_goals exact nofun
    | _ => exact .ok ⟨.refl h, by rw [hv], hv ▸ .same nofun⟩
  | sorting | inclusion => exact .error trivial
  | operator | null | startGroup | endGroup => exact .ok ⟨.refl h, hv, .same nofun⟩

theorem compileWhere_renamed {state state' : State} (previous : Option Operator)
    (nodes : List Node) (h : MemberColumn.Renamed ρ state.members state'.members)
    (hv : state'.values = state.values) :
    Parallel (fun a b => Grown ρ state.members state'.members a.2.members b.2.members ∧
        b.2.values = a.2.values ∧
        List.Forall₂ (Token.Renamed a.2.members b.2.members) a.1 b.1)
      (compileWhere naming schema previous state nodes)
      (compileWhere naming (schema.rename ρ) previous state' (nodes.map (Node.rename ρ))) := by
  induction nodes generalizing previous state state' with
  | nil => exact .ok ⟨.refl h, hv, .nil⟩
  | cons n nodes ih =>
    rw [List.map_cons, compileWhere, compileWhere, Node.operator?_rename]
    refine (compileNode_renamed previous n h hv).bind ?_
    rintro ⟨token, state₁⟩ ⟨token', state₁'⟩ ⟨hg, hv, ht⟩
    refine (ih n.operator? hg.renamed hv).bind ?_
    rintro ⟨tokens, state₂⟩ ⟨tokens', state₂'⟩ ⟨hg', hv, hts⟩
    exact .ok ⟨hg.trans hg', hv, .cons (hg'.token ht) hts⟩

theorem compileSortings_renamed (sortings : List Sorting)
    (h : MemberColumn.Renamed ρ members members') :
    Parallel (fun a b => Grown ρ members members' a.2 b.2 ∧
        List.Forall₂ (CompiledQuery.TermRenamed a.2 b.2) a.1 b.1)
      (compileSortings naming schema members sortings)
      (compileSortings naming (schema.rename ρ) members' (sortings.map (Sorting.rename ρ))) := by
  induction sortings generalizing members members' with
  | nil => exact .ok ⟨.refl h, .nil⟩
  | cons s sortings ih =>
    refine (columnRef_renamed h s.member).bind ?_
    rintro ⟨c, collected⟩ ⟨c', collected'⟩ ⟨hg, hc⟩
    refine (ih hg.renamed).bind ?_
    rintro ⟨terms, others⟩ ⟨terms', others'⟩ ⟨hg', hterms⟩
    exact .ok ⟨hg.trans hg', .cons ⟨hg'.columnRef hc, rfl⟩ hterms⟩

/-- The includes from the `number`-th target on. -/
theorem compileIncludes_renamed {targets targets' : List String} (number : Nat)
    (includes : List Inclusion) (h : MemberColumn.Renamed ρ members members')
    (ht : targets.drop number = includes.map Inclusion.target)
    (ht' : targets'.drop number = includes.map fun i => ρ.type i.target) :
    Parallel (fun a b => Grown ρ members members' a.2 b.2 ∧
        List.Forall₂ (IncludeJoin.Renamed targets targets' a.2 b.2) a.1 b.1)
      (compileIncludes naming schema members number includes)
      (compileIncludes naming (schema.rename ρ) members' number
        (includes.map (Inclusion.rename ρ))) := by
  induction includes generalizing members members' number with
  | nil => exact .ok ⟨.refl h, .nil⟩
  | cons i includes ih =>
    have hfirst : targets[number]? = some i.target := by
      rw [← List.head?_drop, ht]
      rfl
    have hfirst' : targets'[number]? = some (ρ.type i.target) := by
      rw [← List.head?_drop, ht']
      rfl
    have hrest : targets.drop (number + 1) = includes.map Inclusion.target := by
      rw [← List.tail_drop, ht]
      rfl
    have hrest' : targets'.drop (number + 1) = includes.map fun i => ρ.type i.target := by
      rw [← List.tail_drop, ht']
      rfl
    refine (columnRef_renamed h i.member).bind ?_
    rintro ⟨c, collected⟩ ⟨c', collected'⟩ ⟨hg, hc⟩
    refine (ih (number + 1) hg.renamed hrest hrest').bind ?_
    rintro ⟨joins, others⟩ ⟨joins', others'⟩ ⟨hg', hjoins⟩
    exact .ok ⟨hg.trans hg', .cons ⟨rfl, hfirst, hfirst', hg'.columnRef hc⟩ hjoins⟩

end Compiler

/-- The parts of a query's statements before and after a renaming. -/
structure CompiledQuery.Renamed (ρ : Renaming) (query : Query)
    (compiled compiled' : CompiledQuery) : Prop where
  members : MemberColumn.Renamed ρ compiled.members compiled'.members
  predicate : List.Forall₂ (Token.Renamed compiled.members compiled'.members) compiled.predicate
    compiled'.predicate
  orderBy : List.Forall₂ (TermRenamed compiled.members compiled'.members) compiled.orderBy
    compiled'.orderBy
  includes : List.Forall₂ (IncludeJoin.Renamed (query.includes.map Inclusion.target)
    ((query.rename ρ).includes.map Inclusion.target) compiled.members compiled'.members)
    compiled.includes compiled'.includes
  values : compiled'.values = compiled.values

/-- A query compiles under a renaming as it does without. -/
theorem Query.compile_rename (ρ : Renaming) (naming : ColumnNaming) (schema : Schema)
    (query : Query) :
    Compiler.Parallel (CompiledQuery.Renamed ρ query) (query.compile naming schema)
      ((query.rename ρ).compile naming (schema.rename ρ)) := by
  have hnone : MemberColumn.Renamed ρ (Compiler.State.mk [] []).members
      (Compiler.State.mk [] []).members := .nil
  refine (Compiler.compileWhere_renamed none query.predicate hnone rfl).bind ?_
  rintro ⟨predicate, state⟩ ⟨predicate', state'⟩ ⟨hg, hv, hpredicate⟩
  refine (Compiler.compileSortings_renamed query.sortings hg.renamed).bind ?_
  rintro ⟨orderBy, members⟩ ⟨orderBy', members'⟩ ⟨hg', horderBy⟩
  have htargets : ((query.rename ρ).includes.map Inclusion.target) =
      query.includes.map fun i => ρ.type i.target := List.map_map
  refine (Compiler.compileIncludes_renamed 0 query.includes hg'.renamed rfl htargets).bind ?_
  rintro ⟨includes, collected⟩ ⟨includes', collected'⟩ ⟨hg'', hincludes⟩
  have hafter := hg'.trans hg''
  refine .ok ⟨hg''.renamed, ?_, ?_, hincludes, hv⟩
  · exact hpredicate.imp fun _ _ ht => hafter.token ht
  · exact horderBy.imp fun _ _ ht => ⟨hg''.columnRef ht.1, ht.2⟩

end DocStore
