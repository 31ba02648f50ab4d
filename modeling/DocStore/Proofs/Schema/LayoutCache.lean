import DocStore.Schema.Layout

/-!
# The cache of layouts

A cache that is used with one naming answers every schema with the schema's own layout, whatever
versions of it were asked for before.
-/

namespace DocStore

variable {naming : ColumnNaming} {schema other : Schema}

theorem Layout.ofSchema_congr (hname : other.name = schema.name)
    (h : (Layout.ofSchema naming other).describes schema = true) :
    Layout.ofSchema naming other = Layout.ofSchema naming schema := by
  have hmembers : (other.accessors.map fun a => (⟨a.path, a.bounded⟩ : MemberField)) =
      schema.accessors.map fun a => ⟨a.path, a.bounded⟩ :=
    of_decide_eq_true h
  have hcolumns : (other.accessors.map fun a => naming a.path) =
      schema.accessors.map fun a => naming a.path := by
    have hpaths := congrArg (List.map fun m => naming m.path) hmembers
    simpa only [List.map_map, Function.comp_def] using hpaths
  rw [ofSchema, ofSchema, hname, hmembers, hcolumns]

namespace LayoutCache

variable {cache : LayoutCache} {name : String} {entry : Nat × Layout}

/-- Every layout that is kept is that of a schema with the name under which it is kept. -/
def Faithful (cache : LayoutCache) (naming : ColumnNaming) : Prop :=
  ∀ name entry, cache.find? name = some entry →
    ∃ schema : Schema, schema.name = name ∧ entry.2 = Layout.ofSchema naming schema

theorem faithful_empty (naming : ColumnNaming) : empty.Faithful naming :=
  nofun

theorem lookup_put (entries : List (String × Nat × Layout)) (n : String) :
    (put name entry entries).lookup n = if n = name then some entry else entries.lookup n := by
  induction entries with
  | nil =>
    by_cases h : n = name
    · simp [put, h]
    · rw [put, List.lookup_cons, beq_false_of_ne h, if_neg h]
  | cons e entries ih =>
    obtain ⟨m, kept⟩ := e
    rw [put]
    by_cases hm : m = name
    · subst hm
      rw [if_pos rfl]
      by_cases h : n = m
      · simp [h]
      · rw [List.lookup_cons, List.lookup_cons, beq_false_of_ne h, if_neg h]
    · rw [if_neg hm]
      by_cases h : n = m
      · subst h
        simp [hm]
      · rw [List.lookup_cons, List.lookup_cons, beq_false_of_ne h, ih]

theorem find?_put (built : Nat) (n : String) :
    find? ⟨put name entry cache.entries, built⟩ n =
      if n = name then some entry else cache.find? n :=
  lookup_put cache.entries n

/-- A schema is answered with the kept layout if this describes it, or else with its own. -/
theorem getOrCreate_cases (cache : LayoutCache) (naming : ColumnNaming) (schema : Schema) :
    (∃ entry, cache.find? schema.name = some entry ∧ entry.2.describes schema = true ∧
      cache.getOrCreate naming schema = (entry, cache)) ∨
    ((∀ entry, cache.find? schema.name = some entry → entry.2.describes schema = false) ∧
      cache.getOrCreate naming schema = ((cache.built, Layout.ofSchema naming schema),
        ⟨put schema.name (cache.built, Layout.ofSchema naming schema) cache.entries,
          cache.built + 1⟩)) := by
  rw [getOrCreate]
  cases hfind : cache.find? schema.name with
  | none => exact .inr ⟨nofun, rfl⟩
  | some entry =>
    by_cases hd : entry.2.describes schema = true
    · exact .inl ⟨entry, rfl, hd, if_pos hd⟩
    · refine .inr ⟨fun other hother => ?_, if_neg hd⟩
      obtain rfl := Option.some.inj hother
      exact eq_false_of_ne_true hd

/-- What is true of every entry stays so if it is true of the one that may be built. -/
theorem forall_find?_getOrCreate {p : String → Nat × Layout → Prop}
    (h : ∀ name entry, cache.find? name = some entry → p name entry)
    (hbuilt : p schema.name (cache.built, Layout.ofSchema naming schema)) :
    ∀ name entry, (cache.getOrCreate naming schema).2.find? name = some entry → p name entry := by
  intro name entry hentry
  obtain ⟨_, -, -, hget⟩ | ⟨-, hget⟩ := cache.getOrCreate_cases naming schema
  · rw [hget] at hentry
    exact h name entry hentry
  · rw [hget, find?_put] at hentry
    split at hentry
    · next hname =>
      obtain rfl := Option.some.inj hentry
      exact hname ▸ hbuilt
    · exact h name entry hentry

/-- The answer is the layout of the schema, and the cache stays faithful. -/
theorem Faithful.getOrCreate (h : cache.Faithful naming) (schema : Schema) :
    (cache.getOrCreate naming schema).1.2 = Layout.ofSchema naming schema ∧
      (cache.getOrCreate naming schema).2.Faithful naming := by
  refine ⟨?_, forall_find?_getOrCreate h ⟨schema, rfl, rfl⟩⟩
  obtain ⟨entry, hfind, hd, hget⟩ | ⟨-, hget⟩ := cache.getOrCreate_cases naming schema
  · obtain ⟨old, hname, hlayout⟩ := h schema.name entry hfind
    rw [hget, hlayout]
    exact Layout.ofSchema_congr hname (hlayout ▸ hd)
  · rw [hget]

/-- The cache of any number of users, each with a naming of its own. -/
def Coherent (cache : LayoutCache) : Prop :=
  ∀ name entry, cache.find? name = some entry →
    ∃ naming, ∃ schema : Schema, schema.name = name ∧ entry.2 = Layout.ofSchema naming schema

theorem coherent_empty : empty.Coherent :=
  nofun

/-- The answer is the layout of the schema for the naming of some user. -/
theorem Coherent.getOrCreate (h : cache.Coherent) (naming : ColumnNaming) (schema : Schema) :
    (∃ used, (cache.getOrCreate naming schema).1.2 = Layout.ofSchema used schema) ∧
      (cache.getOrCreate naming schema).2.Coherent := by
  refine ⟨?_, forall_find?_getOrCreate h ⟨naming, schema, rfl, rfl⟩⟩
  obtain ⟨entry, hfind, hd, hget⟩ | ⟨-, hget⟩ := cache.getOrCreate_cases naming schema
  · obtain ⟨used, old, hname, hlayout⟩ := h schema.name entry hfind
    rw [hget, hlayout]
    exact ⟨used, Layout.ofSchema_congr hname (hlayout ▸ hd)⟩
  · rw [hget]
    exact ⟨naming, rfl⟩

end LayoutCache

end DocStore
