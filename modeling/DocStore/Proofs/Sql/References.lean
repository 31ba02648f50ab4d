import DocStore.Proofs.Outcome
import DocStore.Sql.Compiler
import Mathlib.Data.List.Infix
import Mathlib.Data.List.Nodup

/-!
# References of compiled queries

A compiled query has one column for every member that the query refers to, in the order of first
use, and every reference is compiled to the column of its member.
-/

namespace DocStore

namespace Compiler

variable {naming : ColumnNaming} {schema : Schema} {members members' : List MemberColumn}
  {r : MemberRef} {c : ColumnRef}

/-- The members that compiling collects, each with an alias beside those before it. -/
inductive Collected (naming : ColumnNaming) (schema : Schema) : List MemberColumn → Prop
  | nil : Collected naming schema []
  | concat {members : List MemberColumn} {a : Accessor} (h : Collected naming schema members)
    (ha : a ∈ schema.accessors) (hn : ∀ m ∈ members, m.path ≠ a.path) :
    Collected naming schema (members ++
      [⟨a.path, newAlias naming members a.path, a.storageFamily.indexTable⟩])

def Refers (members : List MemberColumn) (r : MemberRef) : ColumnRef → Prop
  | .identity => r.isId = true
  | .aliased name => r.isId = false ∧ ∃ m ∈ members, m.path = r.path ∧ m.aliasName = name

theorem Refers.mono (h : Refers members r c) (hp : members <+: members') : Refers members' r c := by
  cases c with
  | identity => exact h
  | aliased name =>
    obtain ⟨hid, m, hm, hpath, hname⟩ := h
    exact ⟨hid, m, hp.subset hm, hpath, hname⟩

theorem Collected.table_eq (h : Collected naming schema members) :
    ∀ m ∈ members, ∃ a ∈ schema.accessors, a.path = m.path ∧
      m.table = a.storageFamily.indexTable := by
  induction h with
  | nil => exact nofun
  | @concat members a _ ha _ ih =>
    intro m hm
    rcases List.mem_append.1 hm with hm | hm
    · exact ih m hm
    · obtain rfl := List.mem_singleton.1 hm
      exact ⟨a, ha, rfl, rfl⟩

theorem Collected.nodup_paths (h : Collected naming schema members) :
    (members.map MemberColumn.path).Nodup := by
  induction h with
  | nil => exact List.nodup_nil
  | @concat members a _ _ hn ih =>
    rw [List.map_append, List.nodup_append]
    refine ⟨ih, List.nodup_singleton _, ?_⟩
    intro path hpath other hother
    obtain ⟨m, hm, rfl⟩ := List.mem_map.1 hpath
    obtain rfl := List.mem_singleton.1 hother
    exact hn m hm

/-- A search finds a candidate that is free. -/
theorem candidate_of_freeAlias? {path name : String} {taken : List String} {fuel attempt : Nat}
    (h : freeAlias? naming path taken fuel attempt = some name) :
    name ∉ taken ∧ ∃ number, name = candidate naming path number := by
  induction fuel generalizing attempt with
  | zero => cases h
  | succ fuel ih =>
    rw [freeAlias?] at h
    split at h
    · exact ih h
    · next hfree =>
      obtain rfl := Option.some.inj h
      exact ⟨hfree, attempt, rfl⟩

/-- Every search for an alias ended at a free candidate, rather than running out of them. -/
def FindsAliases (naming : ColumnNaming) (members : List MemberColumn) : Prop :=
  ∀ m ∈ members.zipIdx, (freeAlias? naming m.1.path
    (reserved ++ (members.take m.2).map MemberColumn.aliasName) attempts 0).isSome

instance (naming : ColumnNaming) (members : List MemberColumn) :
    Decidable (FindsAliases naming members) :=
  inferInstanceAs (Decidable (∀ m ∈ members.zipIdx, (freeAlias? naming m.1.path
    (reserved ++ (members.take m.2).map MemberColumn.aliasName) attempts 0).isSome))

theorem FindsAliases.of_append {others : List MemberColumn}
    (h : FindsAliases naming (members ++ others)) : FindsAliases naming members := by
  intro m hm
  have hle : m.2 ≤ members.length := (List.snd_lt_of_mem_zipIdx hm).le
  have hfree := h m (List.zipIdx_append ▸ List.mem_append_left _ hm)
  rwa [List.take_append_of_le_length hle] at hfree

/-- The columns have different names, none of them one that the derived table uses itself. -/
theorem Collected.nodup_aliases (h : Collected naming schema members)
    (hfinds : FindsAliases naming members) :
    (reserved ++ members.map MemberColumn.aliasName).Nodup := by
  induction h with
  | nil => decide
  | @concat members a h _ _ ih =>
    have hbefore := ih hfinds.of_append
    have hlast := hfinds (⟨a.path, newAlias naming members a.path, a.storageFamily.indexTable⟩,
      members.length) (by simp [List.zipIdx_append])
    rw [List.take_left] at hlast
    obtain ⟨name, hname⟩ := Option.isSome_iff_exists.1 hlast
    have halias : newAlias naming members a.path = name := by
      rw [newAlias, hname, Option.getD_some]
    rw [List.map_append, ← List.append_assoc, List.nodup_append]
    refine ⟨hbefore, List.nodup_singleton _, ?_⟩
    intro x hx y hy
    obtain rfl := List.mem_singleton.1 hy
    rintro rfl
    rw [halias] at hx
    exact (candidate_of_freeAlias? hname).1 hx

theorem columnRef_refers (h : columnRef naming schema members r = .ok (c, members'))
    (hm : Collected naming schema members) :
    Collected naming schema members' ∧ members <+: members' ∧ Refers members' r c := by
  rw [columnRef] at h
  split at h
  · next hid =>
    obtain ⟨rfl, rfl⟩ := Prod.mk.inj (Except.ok.inj h)
    exact ⟨hm, List.prefix_rfl, hid⟩
  · next hid =>
    split at h
    · next m hfind =>
      obtain ⟨rfl, rfl⟩ := Prod.mk.inj (Except.ok.inj h)
      have hpath := List.find?_some hfind
      exact ⟨hm, List.prefix_rfl, by simpa using hid, m, List.mem_of_find?_eq_some hfind,
        by simpa using hpath, rfl⟩
    · next hfind =>
      split at h
      · cases h
      · next a ha =>
        obtain ⟨rfl, rfl⟩ := Prod.mk.inj (Except.ok.inj h)
        have hpath : a.path = r.path := by simpa using List.find?_some ha
        have hnew : ∀ m ∈ members, m.path ≠ a.path := by
          intro m hmem
          rw [hpath]
          simpa using List.find?_eq_none.1 hfind m hmem
        rw [← hpath]
        refine ⟨hm.concat (List.mem_of_find?_eq_some ha) hnew, List.prefix_append _ _,
          by simpa using hid, _, List.mem_append_right _ (List.mem_singleton_self _), hpath, rfl⟩

theorem unindexed_of_columnRef {e : Error} (h : columnRef naming schema members r = .error e) :
    r.isId = false ∧ schema.accessor? r.path = none ∧
      e = Error.schemaMismatch schema.name r.path := by
  unfold columnRef at h
  split at h
  · cases h
  · next hid =>
    split at h
    · cases h
    · split at h
      · next ha =>
        cases h
        exact ⟨by simpa using hid, ha, rfl⟩
      · cases h

def NodeRefers (members : List MemberColumn) (n : Node) (token : Token) : Prop :=
  ∀ r, n = .member r → ∃ c, token = .column c ∧ Refers members r c

theorem NodeRefers.mono {n : Node} {token : Token} (h : NodeRefers members n token)
    (hp : members <+: members') : NodeRefers members' n token := by
  intro r hr
  obtain ⟨c, hc, hrefers⟩ := h r hr
  exact ⟨c, hc, hrefers.mono hp⟩

/-- Only a member adds to what is collected. -/
theorem compileNode_members {previous : Option Operator} {state state' : State} {n : Node}
    {token : Token} (h : compileNode naming schema previous state n = .ok (token, state'))
    (hn : ∀ r, n ≠ .member r) : state'.members = state.members := by
  rw [compileNode.eq_def] at h
  split at h
  · exact absurd rfl (hn _)
  all_goals first
    | (cases h <;> rfl)
    | (split at h <;> cases h; rfl)

theorem compileNode_refers {previous : Option Operator} {state state' : State} {n : Node}
    {token : Token} (h : compileNode naming schema previous state n = .ok (token, state'))
    (hm : Collected naming schema state.members) :
    Collected naming schema state'.members ∧ state.members <+: state'.members ∧
      NodeRefers state'.members n token := by
  by_cases hn : ∃ r, n = .member r
  · obtain ⟨r, rfl⟩ := hn
    obtain ⟨⟨c, members⟩, href, h⟩ := bind_eq_ok.1 h
    obtain ⟨rfl, rfl⟩ := Prod.mk.inj (Except.ok.inj h)
    obtain ⟨hcollected, hp, hrefers⟩ := columnRef_refers href hm
    refine ⟨hcollected, hp, ?_⟩
    intro r' hr
    obtain rfl := Node.member.inj hr
    exact ⟨c, rfl, hrefers⟩
  · have hmembers := compileNode_members h fun r hr => hn ⟨r, hr⟩
    rw [hmembers]
    exact ⟨hm, List.prefix_rfl, fun r hr => absurd ⟨r, hr⟩ hn⟩

theorem compileWhere_refers {previous : Option Operator} {state state' : State}
    {nodes : List Node} {tokens : List Token}
    (h : compileWhere naming schema previous state nodes = .ok (tokens, state'))
    (hm : Collected naming schema state.members) :
    Collected naming schema state'.members ∧ state.members <+: state'.members ∧
      List.Forall₂ (NodeRefers state'.members) nodes tokens := by
  induction nodes generalizing previous state tokens with
  | nil =>
    obtain ⟨rfl, rfl⟩ := Prod.mk.inj (Except.ok.inj h)
    exact ⟨hm, List.prefix_rfl, .nil⟩
  | cons n nodes ih =>
    obtain ⟨⟨token, state₁⟩, hnode, h⟩ := bind_eq_ok.1 h
    obtain ⟨⟨others, state₂⟩, hrest, h⟩ := bind_eq_ok.1 h
    obtain ⟨rfl, rfl⟩ := Prod.mk.inj (Except.ok.inj h)
    obtain ⟨hm₁, hp₁, hrefers⟩ := compileNode_refers hnode hm
    obtain ⟨hm₂, hp₂, hothers⟩ := ih hrest hm₁
    exact ⟨hm₂, hp₁.trans hp₂, .cons (hrefers.mono hp₂) hothers⟩

theorem compileSortings_refers {sortings : List Sorting}
    {terms : List (ColumnRef × SortDirection)}
    (h : compileSortings naming schema members sortings = .ok (terms, members'))
    (hm : Collected naming schema members) :
    Collected naming schema members' ∧ members <+: members' ∧
      List.Forall₂ (fun s term => Refers members' s.member term.1) sortings terms := by
  induction sortings generalizing members terms with
  | nil =>
    obtain ⟨rfl, rfl⟩ := Prod.mk.inj (Except.ok.inj h)
    exact ⟨hm, List.prefix_rfl, .nil⟩
  | cons s sortings ih =>
    obtain ⟨⟨c, members₁⟩, href, h⟩ := bind_eq_ok.1 h
    obtain ⟨⟨others, members₂⟩, hrest, h⟩ := bind_eq_ok.1 h
    obtain ⟨rfl, rfl⟩ := Prod.mk.inj (Except.ok.inj h)
    obtain ⟨hm₁, hp₁, hrefers⟩ := columnRef_refers href hm
    obtain ⟨hm₂, hp₂, hothers⟩ := ih hrest hm₁
    exact ⟨hm₂, hp₁.trans hp₂, .cons (hrefers.mono hp₂) hothers⟩

theorem compileIncludes_refers {number : Nat} {includes : List Inclusion}
    {joins : List IncludeJoin}
    (h : compileIncludes naming schema members number includes = .ok (joins, members'))
    (hm : Collected naming schema members) :
    Collected naming schema members' ∧ members <+: members' ∧
      List.Forall₂ (fun i join => Refers members' i.member join.column) includes joins := by
  induction includes generalizing members number joins with
  | nil =>
    obtain ⟨rfl, rfl⟩ := Prod.mk.inj (Except.ok.inj h)
    exact ⟨hm, List.prefix_rfl, .nil⟩
  | cons i includes ih =>
    obtain ⟨⟨c, members₁⟩, href, h⟩ := bind_eq_ok.1 h
    obtain ⟨⟨others, members₂⟩, hrest, h⟩ := bind_eq_ok.1 h
    obtain ⟨rfl, rfl⟩ := Prod.mk.inj (Except.ok.inj h)
    obtain ⟨hm₁, hp₁, hrefers⟩ := columnRef_refers href hm
    obtain ⟨hm₂, hp₂, hothers⟩ := ih hrest hm₁
    exact ⟨hm₂, hp₁.trans hp₂, .cons (hrefers.mono hp₂) hothers⟩

end Compiler

/-- All references of the query are compiled to the columns of their members. -/
structure CompiledQuery.Refers (query : Query) (compiled : CompiledQuery) : Prop where
  predicate : List.Forall₂ (Compiler.NodeRefers compiled.members) query.predicate
    compiled.predicate
  orderBy : List.Forall₂ (fun s term => Compiler.Refers compiled.members s.member term.1)
    query.sortings compiled.orderBy
  includes : List.Forall₂ (fun i join => Compiler.Refers compiled.members i.member join.column)
    query.includes compiled.includes

theorem Query.compile_refers {naming : ColumnNaming} {schema : Schema} {query : Query}
    {compiled : CompiledQuery} (h : query.compile naming schema = .ok compiled) :
    Compiler.Collected naming schema compiled.members ∧ compiled.Refers query := by
  obtain ⟨⟨predicate, state⟩, hwhere, h⟩ := bind_eq_ok.1 h
  obtain ⟨⟨orderBy, members₁⟩, hsortings, h⟩ := bind_eq_ok.1 h
  obtain ⟨⟨includes, members₂⟩, hincludes, h⟩ := bind_eq_ok.1 h
  obtain rfl := Except.ok.inj h
  obtain ⟨hm, _, hpredicate⟩ := Compiler.compileWhere_refers hwhere .nil
  obtain ⟨hm₁, hp₁, horderBy⟩ := Compiler.compileSortings_refers hsortings hm
  obtain ⟨hm₂, hp₂, hjoins⟩ := Compiler.compileIncludes_refers hincludes hm₁
  refine ⟨hm₂, ?_, ?_, hjoins⟩
  · exact hpredicate.imp fun _ _ hn => hn.mono (hp₁.trans hp₂)
  · exact horderBy.imp fun _ _ hs => hs.mono hp₂

namespace Node

def member? : Node → Option MemberRef
  | member m => some m
  | _ => none

end Node

def Query.references (query : Query) : List MemberRef :=
  query.predicate.filterMap Node.member? ++ query.sortings.map Sorting.member ++
    query.includes.map Inclusion.member

theorem Node.member?_eq_some {n : Node} {r : MemberRef} : n.member? = some r ↔ n = .member r := by
  cases n <;> simp [member?]

theorem Query.mem_references {query : Query} {r : MemberRef} : r ∈ query.references ↔
    .member r ∈ query.predicate ∨ (∃ s ∈ query.sortings, s.member = r) ∨
      ∃ i ∈ query.includes, i.member = r := by
  simp [references, Node.member?_eq_some]

def Compiler.Referenced (references : List MemberRef) (members : List MemberColumn) : Prop :=
  ∀ m ∈ members, ∃ r ∈ references, r.isId = false ∧ r.path = m.path

end DocStore
