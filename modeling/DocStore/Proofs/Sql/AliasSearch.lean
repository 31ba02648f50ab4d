import DocStore.Proofs.Sql.Candidates
import DocStore.Proofs.Sql.FirstUses

/-!
# Searches for aliases

Compiling a query goes from reference to reference and searches an alias for each member that it
meets for the first time. What it has collected by then are columns of members that it met before,
so where a query refers to fewer than 8000 members, all of its searches end within the candidates
that have at most four digits, whatever the limit of the names is.
-/

namespace DocStore

namespace Compiler

variable {naming : ColumnNaming} {schema : Schema} {members met : List MemberColumn}
  {r : MemberRef}

/-- Compiling nodes one after another comes to the member with the columns `met`. -/
inductive MeetsNode (naming : ColumnNaming) (schema : Schema) :
    Option Operator → State → List Node → List MemberColumn → MemberRef → Prop
  | here {previous : Option Operator} {state : State} {nodes : List Node} {r : MemberRef} :
    MeetsNode naming schema previous state (.member r :: nodes) state.members r
  | later {previous : Option Operator} {state next : State} {n : Node} {token : Token}
    {nodes : List Node} {met : List MemberColumn} {r : MemberRef}
    (h : compileNode naming schema previous state n = .ok (token, next))
    (hrest : MeetsNode naming schema n.operator? next nodes met r) :
    MeetsNode naming schema previous state (n :: nodes) met r

inductive MeetsKey (naming : ColumnNaming) (schema : Schema) :
    List MemberColumn → List MemberRef → List MemberColumn → MemberRef → Prop
  | here {members : List MemberColumn} {r : MemberRef} {keys : List MemberRef} :
    MeetsKey naming schema members (r :: keys) members r
  | later {members next met : List MemberColumn} {key r : MemberRef} {c : ColumnRef}
    {keys : List MemberRef} (h : columnRef naming schema members key = .ok (c, next))
    (hrest : MeetsKey naming schema next keys met r) :
    MeetsKey naming schema members (key :: keys) met r

theorem MeetsNode.exists_collects {previous : Option Operator} {state : State} {nodes : List Node}
    (h : MeetsNode naming schema previous state nodes met r) :
    ∃ done others, nodes.filterMap Node.member? = done ++ r :: others ∧
      done.foldlM (collect naming schema) state.members = .ok met := by
  induction h with
  | @here _ _ nodes r => exact ⟨[], nodes.filterMap Node.member?, rfl, rfl⟩
  | @later _ _ _ n _ nodes _ r h _ ih =>
    obtain ⟨done, others, hnodes, hdone⟩ := ih
    refine ⟨n.member?.toList ++ done, others, ?_, ?_⟩
    · rw [filterMap_member?_cons, hnodes, List.append_assoc]
    · rw [List.foldlM_append, compileNode_collects h]
      exact hdone

theorem MeetsKey.exists_collects {keys : List MemberRef}
    (h : MeetsKey naming schema members keys met r) :
    ∃ done others, keys = done ++ r :: others ∧
      done.foldlM (collect naming schema) members = .ok met := by
  induction h with
  | @here _ _ keys => exact ⟨[], keys, rfl, rfl⟩
  | @later _ _ _ key r _ keys h _ ih =>
    obtain ⟨done, others, rfl, hdone⟩ := ih
    refine ⟨key :: done, others, rfl, ?_⟩
    rw [List.foldlM_cons, collect_of_columnRef h]
    exact hdone

/-- The alias of every column was searched beside the columns before it. -/
theorem Collected.aliasName_eq (h : Collected naming schema members) {i : Nat} {m : MemberColumn}
    (hm : members[i]? = some m) : m.aliasName = newAlias naming (members.take i) m.path := by
  induction h with
  | nil => cases hm
  | @concat members a _ _ _ ih =>
    rcases Nat.lt_or_ge i members.length with hi | hi
    · rw [List.getElem?_append_left hi] at hm
      rw [List.take_append_of_le_length hi.le]
      exact ih hm
    · obtain ⟨hlt, -⟩ := List.getElem?_eq_some_iff.1 hm
      rw [List.length_append, List.length_singleton] at hlt
      obtain rfl : i = members.length := by omega
      rw [List.getElem?_concat_length] at hm
      obtain rfl := Option.some.inj hm
      rw [List.take_left]

end Compiler

namespace Query

open Compiler

variable {naming : ColumnNaming} {schema : Schema} {query : Query} {members : List MemberColumn}
  {r : MemberRef} {path : String}

/-- Compiling the query, whether it fails behind this or not, comes to the member with these
columns. -/
inductive Meets (naming : ColumnNaming) (schema : Schema) (query : Query) :
    List MemberColumn → MemberRef → Prop
  | predicate {members : List MemberColumn} {r : MemberRef}
    (h : MeetsNode naming schema none ⟨[], []⟩ query.predicate members r) :
    Meets naming schema query members r
  | sorting {members : List MemberColumn} {r : MemberRef} {tokens : List Token} {state : State}
    (hwhere : compileWhere naming schema none ⟨[], []⟩ query.predicate = .ok (tokens, state))
    (h : MeetsKey naming schema state.members (query.sortings.map Sorting.member) members r) :
    Meets naming schema query members r
  | inclusion {members sorted : List MemberColumn} {r : MemberRef} {tokens : List Token}
    {state : State} {terms : List (ColumnRef × SortDirection)}
    (hwhere : compileWhere naming schema none ⟨[], []⟩ query.predicate = .ok (tokens, state))
    (hsortings : compileSortings naming schema state.members query.sortings = .ok (terms, sorted))
    (h : MeetsKey naming schema sorted (query.includes.map Inclusion.member) members r) :
    Meets naming schema query members r

/-- Compiling the query searches an alias for the member at the path, which is indexed and has no
column yet. -/
inductive Searches (naming : ColumnNaming) (schema : Schema) (query : Query) :
    List MemberColumn → String → Prop
  | intro {members : List MemberColumn} {r : MemberRef} {a : Accessor}
    (h : query.Meets naming schema members r) (hid : r.isId = false)
    (hnew : r.path ∉ members.map MemberColumn.path) (ha : schema.accessor? r.path = some a) :
    Searches naming schema query members r.path

theorem Meets.exists_collects (h : query.Meets naming schema members r) :
    ∃ done others, query.references = done ++ r :: others ∧
      done.foldlM (collect naming schema) [] = .ok members := by
  cases h with
  | predicate h =>
    obtain ⟨done, others, hnodes, hdone⟩ := h.exists_collects
    refine ⟨done, others ++ query.sortings.map Sorting.member ++
      query.includes.map Inclusion.member, ?_, hdone⟩
    simp [references, hnodes]
  | sorting hwhere h =>
    obtain ⟨done, others, hkeys, hdone⟩ := h.exists_collects
    refine ⟨query.predicate.filterMap Node.member? ++ done,
      others ++ query.includes.map Inclusion.member, ?_, ?_⟩
    · simp [references, hkeys]
    · rw [List.foldlM_append, compileWhere_collects hwhere]
      exact hdone
  | inclusion hwhere hsortings h =>
    obtain ⟨done, others, hkeys, hdone⟩ := h.exists_collects
    refine ⟨query.predicate.filterMap Node.member? ++ (query.sortings.map Sorting.member ++ done),
      others, ?_, ?_⟩
    · simp [references, hkeys]
    · rw [List.foldlM_append, compileWhere_collects hwhere]
      exact (List.foldlM_append ..).trans
        ((congrArg (· >>= _) (compileSortings_collects hsortings)).trans hdone)

/-- There are no more columns at a reference than members that the query refers to. -/
theorem Meets.length_le (h : query.Meets naming schema members r) :
    members.length ≤ (usedPaths query.references).eraseDups.length := by
  obtain ⟨done, others, hreferences, hdone⟩ := h.exists_collects
  rw [hreferences, usedPaths_append, List.eraseDups_append, List.length_append,
    ← collectAll_paths_nil hdone, List.length_map]
  exact Nat.le_add_right _ _

/-- All searches for aliases end where a query refers to fewer than 8000 members: whether it is
compiled in the end or not, and however long its names may be, each search that is made finds the
first free candidate, of a number up to 9999, and so does not run out of numbers. The aliases of a
compiled query are those candidates. -/
theorem searches_end {maxLength : Nat} {schema : Schema} {query : Query}
    (h : (usedPaths query.references).eraseDups.length < 8000) :
    let naming := ColumnName.ofPath maxLength
    (∀ members path, query.Searches naming schema members path →
      ∃ number ≤ 9999, EndsAt naming members path number) ∧
    ∀ compiled, query.compile naming schema = .ok compiled →
      ∀ i m, compiled.members[i]? = some m → ∃ number ≤ 9999,
        EndsAt naming (compiled.members.take i) m.path number ∧
          m.aliasName = candidate naming m.path number := by
  intro naming
  constructor
  · rintro members path ⟨hmeets, -, -, -⟩
    exact exists_endsAt _ (hmeets.length_le.trans_lt h)
  · intro compiled hcompiled i m hm
    have hlength : (compiled.members.take i).length < 8000 := by
      rw [← compile_paths hcompiled, List.length_map] at h
      exact (List.length_take_le' _ _).trans_lt h
    obtain ⟨number, hle, hends⟩ := exists_endsAt m.path hlength
    refine ⟨number, hle, hends, ?_⟩
    rw [(compile_refers hcompiled).1.aliasName_eq hm]
    exact hends.newAlias_eq

/-- Two members are spelt like the first candidates for a third, whose names are cut to twelve
characters and differ in their checksums only. -/
theorem searches_end_of_owner :
    let schema : Schema := ⟨"Order", ⟨"Id", .identity⟩,
      [⟨"Cus_d19e9b3a", .string, none, false, false⟩,
        ⟨"Cus_6f501675", .integer, none, false, false⟩,
        ⟨"Customer.Address.Owner", .guid, none, false, false⟩]⟩
    let ref : String → Family → MemberRef := fun path family =>
      ⟨path, none, some family, false, false⟩
    let query : Query := {
      structureName := "Order"
      sortings := [⟨ref "Cus_d19e9b3a" .string, .asc⟩, ⟨ref "Cus_6f501675" .integer, .desc⟩]
      includes := [⟨ref "Customer.Address.Owner" .guid, "Person"⟩] }
    let naming := ColumnName.ofPath 12
    let met : List MemberColumn := [⟨"Cus_d19e9b3a", "Cus_d19e9b3a", .strings⟩,
      ⟨"Cus_6f501675", "Cus_6f501675", .integers⟩]
    let owner : MemberColumn := ⟨"Customer.Address.Owner", "Cus_f65947cf", .guids⟩
    (usedPaths query.references).eraseDups.length < 8000 ∧
      query.Searches naming schema met owner.path ∧
      (∃ number ≤ 9999, EndsAt naming met owner.path number) ∧
      ∃ compiled, query.compile naming schema = .ok compiled ∧
        compiled.members[2]? = some owner ∧ ∃ number ≤ 9999,
          EndsAt naming (compiled.members.take 2) owner.path number ∧
            owner.aliasName = candidate naming owner.path number := by
  intro schema ref query naming met owner
  let compiled : CompiledQuery := {
    members := met ++ [owner]
    predicate := []
    orderBy := [(.aliased "Cus_d19e9b3a", .asc), (.aliased "Cus_6f501675", .desc)]
    includes := [⟨0, "Person", .aliased "Cus_f65947cf"⟩]
    values := [] }
  have hfew : (usedPaths query.references).eraseDups.length < 8000 := by decide +kernel
  have hsortings : compileSortings naming schema [] query.sortings =
      .ok (compiled.orderBy, met) := by decide +kernel
  have hmeets : query.Meets naming schema met (ref owner.path .guid) :=
    .inclusion rfl hsortings .here
  have hnew : owner.path ∉ met.map MemberColumn.path := by decide
  have hsearches : query.Searches naming schema met owner.path := .intro hmeets rfl hnew rfl
  have hcompiled : query.compile naming schema = .ok compiled := by decide +kernel
  obtain ⟨hends, haliases⟩ := searches_end hfew
  exact ⟨hfew, hsearches, hends _ _ hsearches, compiled, hcompiled, rfl,
    haliases compiled hcompiled 2 owner rfl⟩

end Query

end DocStore
