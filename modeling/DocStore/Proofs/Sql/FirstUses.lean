import DocStore.Proofs.Sql.References

/-!
# First uses of members

Compiling a query adds to its columns from reference to reference, in the predicate, the sort keys
and the includes: each adds the column of its member, unless that is the identity or has one. So the
columns are those of the members other than the identity that the query refers to, in the order in
which they are used first.
-/

namespace DocStore

/-- The paths of the members other than the identity, in the order of their uses. -/
def usedPaths (references : List MemberRef) : List String :=
  (references.filter fun r => !r.isId).map MemberRef.path

theorem usedPaths_append (references others : List MemberRef) :
    usedPaths (references ++ others) = usedPaths references ++ usedPaths others := by
  rw [usedPaths, List.filter_append, List.map_append]
  rfl

theorem mem_usedPaths {references : List MemberRef} {path : String} :
    path ∈ usedPaths references ↔ ∃ r ∈ references, r.isId = false ∧ r.path = path := by
  simp [usedPaths, and_assoc]

namespace Compiler

variable {naming : ColumnNaming} {schema : Schema} {members members' : List MemberColumn}
  {r : MemberRef} {references : List MemberRef}

def collect (naming : ColumnNaming) (schema : Schema) (members : List MemberColumn)
    (r : MemberRef) : Except Error (List MemberColumn) :=
  (columnRef naming schema members r).map Prod.snd

theorem collect_of_columnRef {c : ColumnRef}
    (h : columnRef naming schema members r = .ok (c, members')) :
    collect naming schema members r = .ok members' := by
  rw [collect, h]
  rfl

/-- A reference changes nothing or adds one new column. -/
theorem collect_cases (h : collect naming schema members r = .ok members') :
    members' = members ∧ (r.isId = true ∨ r.path ∈ members.map MemberColumn.path) ∨
      r.isId = false ∧ r.path ∉ members.map MemberColumn.path ∧
        ∃ a, schema.accessor? r.path = some a ∧ members' = members ++
          [⟨r.path, newAlias naming members r.path, a.storageFamily.indexTable⟩] := by
  unfold collect columnRef at h
  split at h
  · next hid => exact .inl ⟨(Except.ok.inj h).symm, .inl hid⟩
  · next hid =>
    split at h
    · next m hfind =>
      have hpath : m.path = r.path := by simpa using List.find?_some hfind
      refine .inl ⟨(Except.ok.inj h).symm, .inr ?_⟩
      exact List.mem_map.2 ⟨m, List.mem_of_find?_eq_some hfind, hpath⟩
    · next hfind =>
      have hnew : r.path ∉ members.map MemberColumn.path := by
        intro hmem
        obtain ⟨m, hm, hpath⟩ := List.mem_map.1 hmem
        simpa [hpath] using List.find?_eq_none.1 hfind m hm
      split at h
      · cases h
      · next a ha =>
        exact .inr ⟨by simpa using hid, hnew, a, ha, (Except.ok.inj h).symm⟩

def withPath (paths : List String) (path : String) : List String :=
  if path ∈ paths then paths else paths ++ [path]

theorem foldl_withPath (paths used : List String) :
    used.foldl withPath paths = paths ++ (used.filter (· ∉ paths)).eraseDups := by
  induction used generalizing paths with
  | nil => simp
  | cons path used ih =>
    rw [List.foldl_cons, ih, withPath]
    by_cases hold : path ∈ paths
    · rw [if_pos hold, List.filter_cons_of_neg (by simpa using hold)]
    · have hfilter : used.filter (· ∉ paths ++ [path]) =
          (used.filter (· ∉ paths)).filter fun other => !other == path := by
        rw [List.filter_filter]
        refine List.filter_congr fun other _ => ?_
        by_cases hother : other = path <;> simp [hother]
      rw [if_neg hold, List.filter_cons_of_pos (by simpa using hold), List.eraseDups_cons,
        List.append_assoc, List.singleton_append, hfilter]

theorem collect_paths (h : collect naming schema members r = .ok members') :
    members'.map MemberColumn.path =
      (usedPaths [r]).foldl withPath (members.map MemberColumn.path) := by
  have hone : r.isId = false → usedPaths [r] = [r.path] := fun hid => by simp [usedPaths, hid]
  rcases collect_cases h with ⟨rfl, hold⟩ | ⟨hid, hnew, a, -, rfl⟩
  · cases hid : r.isId with
    | true =>
      have hnone : usedPaths [r] = [] := by simp [usedPaths, hid]
      rw [hnone]
      rfl
    | false =>
      have hmem := hold.resolve_left (by simp [hid])
      rw [hone hid, List.foldl_cons, List.foldl_nil, withPath, if_pos hmem]
  · rw [hone hid, List.foldl_cons, List.foldl_nil, withPath, if_neg hnew, List.map_append]
    rfl

theorem collectAll_paths (h : references.foldlM (collect naming schema) members = .ok members') :
    members'.map MemberColumn.path =
      (usedPaths references).foldl withPath (members.map MemberColumn.path) := by
  induction references generalizing members with
  | nil =>
    obtain rfl := Except.ok.inj h
    rfl
  | cons r references ih =>
    rw [List.foldlM_cons] at h
    obtain ⟨next, hfirst, hrest⟩ := bind_eq_ok.1 h
    rw [ih hrest, collect_paths hfirst, ← List.foldl_append, ← usedPaths_append]
    rfl

theorem collectAll_paths_nil (h : references.foldlM (collect naming schema) [] = .ok members) :
    members.map MemberColumn.path = (usedPaths references).eraseDups := by
  rw [collectAll_paths h, List.map_nil, foldl_withPath, List.nil_append]
  simp

def Tabled (schema : Schema) (members : List MemberColumn) : Prop :=
  ∀ m ∈ members, ∃ a, schema.accessor? m.path = some a ∧ m.table = a.storageFamily.indexTable

theorem Tabled.nil : Tabled schema [] :=
  fun _ hm => absurd hm List.not_mem_nil

theorem Tabled.collect (hm : Tabled schema members)
    (h : collect naming schema members r = .ok members') : Tabled schema members' := by
  rcases collect_cases h with ⟨rfl, -⟩ | ⟨-, -, a, ha, rfl⟩
  · exact hm
  · intro m hmem
    rcases List.mem_append.1 hmem with hmem | hmem
    · exact hm m hmem
    · obtain rfl := List.mem_singleton.1 hmem
      exact ⟨a, ha, rfl⟩

theorem Tabled.collectAll (hm : Tabled schema members)
    (h : references.foldlM (Compiler.collect naming schema) members = .ok members') :
    Tabled schema members' := by
  induction references generalizing members with
  | nil =>
    obtain rfl := Except.ok.inj h
    exact hm
  | cons r references ih =>
    rw [List.foldlM_cons] at h
    obtain ⟨next, hfirst, hrest⟩ := bind_eq_ok.1 h
    exact ih (hm.collect hfirst) hrest

theorem filterMap_member?_cons (n : Node) (nodes : List Node) :
    (n :: nodes).filterMap Node.member? = n.member?.toList ++ nodes.filterMap Node.member? := by
  rw [List.filterMap_cons]
  cases n.member? <;> rfl

theorem compileNode_collects {previous : Option Operator} {state state' : State} {n : Node}
    {token : Token} (h : compileNode naming schema previous state n = .ok (token, state')) :
    n.member?.toList.foldlM (collect naming schema) state.members = .ok state'.members := by
  cases hn : n.member? with
  | none =>
    have hmembers := compileNode_members h fun r hr => by simp [hr, Node.member?] at hn
    rw [hmembers]
    rfl
  | some r =>
    obtain rfl := Node.member?_eq_some.1 hn
    obtain ⟨⟨c, members⟩, href, h⟩ := bind_eq_ok.1 h
    obtain ⟨-, rfl⟩ := Prod.mk.inj (Except.ok.inj h)
    rw [Option.toList_some, List.foldlM_cons, collect_of_columnRef href]
    rfl

theorem compileWhere_collects {previous : Option Operator} {state state' : State}
    {nodes : List Node} {tokens : List Token}
    (h : compileWhere naming schema previous state nodes = .ok (tokens, state')) :
    (nodes.filterMap Node.member?).foldlM (collect naming schema) state.members =
      .ok state'.members := by
  induction nodes generalizing previous state tokens with
  | nil =>
    obtain ⟨-, rfl⟩ := Prod.mk.inj (Except.ok.inj h)
    rfl
  | cons n nodes ih =>
    obtain ⟨⟨token, state₁⟩, hnode, h⟩ := bind_eq_ok.1 h
    obtain ⟨⟨others, state₂⟩, hrest, h⟩ := bind_eq_ok.1 h
    obtain ⟨-, rfl⟩ := Prod.mk.inj (Except.ok.inj h)
    rw [filterMap_member?_cons, List.foldlM_append, compileNode_collects hnode]
    exact ih hrest

theorem compileSortings_collects {sortings : List Sorting}
    {terms : List (ColumnRef × SortDirection)}
    (h : compileSortings naming schema members sortings = .ok (terms, members')) :
    (sortings.map Sorting.member).foldlM (collect naming schema) members = .ok members' := by
  induction sortings generalizing members terms with
  | nil =>
    obtain ⟨-, rfl⟩ := Prod.mk.inj (Except.ok.inj h)
    rfl
  | cons s sortings ih =>
    obtain ⟨⟨c, members₁⟩, href, h⟩ := bind_eq_ok.1 h
    obtain ⟨⟨others, members₂⟩, hrest, h⟩ := bind_eq_ok.1 h
    obtain ⟨-, rfl⟩ := Prod.mk.inj (Except.ok.inj h)
    rw [List.map_cons, List.foldlM_cons, collect_of_columnRef href]
    exact ih hrest

theorem compileIncludes_collects {number : Nat} {includes : List Inclusion}
    {joins : List IncludeJoin}
    (h : compileIncludes naming schema members number includes = .ok (joins, members')) :
    (includes.map Inclusion.member).foldlM (collect naming schema) members = .ok members' := by
  induction includes generalizing members number joins with
  | nil =>
    obtain ⟨-, rfl⟩ := Prod.mk.inj (Except.ok.inj h)
    rfl
  | cons i includes ih =>
    obtain ⟨⟨c, members₁⟩, href, h⟩ := bind_eq_ok.1 h
    obtain ⟨⟨others, members₂⟩, hrest, h⟩ := bind_eq_ok.1 h
    obtain ⟨-, rfl⟩ := Prod.mk.inj (Except.ok.inj h)
    rw [List.map_cons, List.foldlM_cons, collect_of_columnRef href]
    exact ih hrest

end Compiler

namespace Query

variable {naming : ColumnNaming} {schema : Schema} {query : Query} {compiled : CompiledQuery}

theorem compile_collects (h : query.compile naming schema = .ok compiled) :
    query.references.foldlM (Compiler.collect naming schema) [] = .ok compiled.members := by
  obtain ⟨⟨predicate, state⟩, hwhere, h⟩ := bind_eq_ok.1 h
  obtain ⟨⟨orderBy, members₁⟩, hsortings, h⟩ := bind_eq_ok.1 h
  obtain ⟨⟨includes, members₂⟩, hincludes, h⟩ := bind_eq_ok.1 h
  obtain rfl := Except.ok.inj h
  have hpredicate := Compiler.compileWhere_collects hwhere
  have hsorted := Compiler.compileSortings_collects hsortings
  rw [references, List.foldlM_append, List.foldlM_append, hpredicate]
  exact (congrArg (· >>= _) hsorted).trans (Compiler.compileIncludes_collects hincludes)

/-- The columns stand in the order in which their members are used first. -/
theorem compile_paths (h : query.compile naming schema = .ok compiled) :
    compiled.members.map MemberColumn.path = (usedPaths query.references).eraseDups :=
  Compiler.collectAll_paths_nil (compile_collects h)

/-- Only members that the query refers to become columns. -/
theorem compile_referenced (h : query.compile naming schema = .ok compiled) :
    Compiler.Referenced query.references compiled.members := by
  intro m hm
  have hmem := List.mem_map_of_mem (f := MemberColumn.path) hm
  rw [compile_paths h, List.mem_eraseDups] at hmem
  exact mem_usedPaths.1 hmem

theorem compile_tabled (h : query.compile naming schema = .ok compiled) :
    Compiler.Tabled schema compiled.members :=
  Compiler.Tabled.nil.collectAll (compile_collects h)

end Query

end DocStore
