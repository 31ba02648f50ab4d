import DocStore.Proofs.Schema.LayoutCache
import Mathlib.Data.Finset.Card
import Mathlib.Data.Finset.Dedup

/-!
# Shared layouts

A cache keeps one layout per name, and every layout that is built has a serial number of its own. So
a layout is shared by the calls for its name until one of them comes with other members, and it is
not answered again behind that, even if an earlier version of the schema comes back.
-/

namespace DocStore

variable {naming : ColumnNaming} {s t : Schema}

/-- The name, the paths of the members and which of them are stored as text: all that the layout of
a schema depends on. -/
structure SameLayout (s t : Schema) : Prop where
  name : s.name = t.name
  paths : s.accessors.map Accessor.path = t.accessors.map Accessor.path
  texts : (s.accessors.map fun a => a.storageFamily == .text) =
    t.accessors.map fun a => a.storageFamily == .text

namespace Layout

theorem members_ofSchema_eq (naming : ColumnNaming) (s : Schema) :
    (ofSchema naming s).members =
      List.zipWith (fun path text => ⟨path, !text⟩) (s.accessors.map Accessor.path)
        (s.accessors.map fun a => a.storageFamily == .text) := by
  have hbounded (a : Accessor) : a.bounded = !(a.storageFamily == .text) := rfl
  simp only [ofSchema, List.zipWith_map, List.zipWith_self, hbounded]

theorem describes_ofSchema_iff (hname : s.name = t.name) :
    (ofSchema naming s).describes t = true ↔ SameLayout s t := by
  have hmembers : (ofSchema naming s).describes t = true ↔
      (ofSchema naming s).members = (ofSchema naming t).members := decide_eq_true_iff
  rw [hmembers]
  constructor
  · intro h
    have hpaths := congrArg (List.map MemberField.path) h
    have htexts := congrArg (List.map fun m => !m.bounded) h
    simp only [ofSchema, List.map_map, Function.comp_def] at hpaths htexts
    refine ⟨hname, hpaths, ?_⟩
    simpa only [Accessor.bounded, bne, Bool.not_not] using htexts
  · intro h
    rw [members_ofSchema_eq, members_ofSchema_eq, h.paths, h.texts]

end Layout

namespace LayoutCache

variable {cache : LayoutCache} {k : Nat}

def run (cache : LayoutCache) (naming : ColumnNaming) (calls : List Schema) : LayoutCache :=
  calls.foldl (fun cache s => (cache.getOrCreate naming s).2) cache

/-- What a call is answered with after earlier calls, the first of which was made to an empty
cache. -/
def answer (naming : ColumnNaming) (earlier : List Schema) (s : Schema) : Nat × Layout :=
  ((empty.run naming earlier).getOrCreate naming s).1

theorem run_append (naming : ColumnNaming) (calls later : List Schema) :
    cache.run naming (calls ++ later) = (cache.run naming calls).run naming later :=
  List.foldl_append

def names (cache : LayoutCache) : List String :=
  cache.entries.map Prod.fst

theorem map_fst_put (name : String) (entry : Nat × Layout)
    (entries : List (String × Nat × Layout)) :
    (put name entry entries).map Prod.fst =
      if name ∈ entries.map Prod.fst then entries.map Prod.fst
      else entries.map Prod.fst ++ [name] := by
  induction entries with
  | nil => rfl
  | cons other entries ih =>
    rw [put]
    by_cases h : other.1 = name
    · simp [h]
    · simp only [if_neg h, List.map_cons, ih, List.mem_cons, Ne.symm h, false_or]
      split <;> rfl

theorem mem_names_of_find? {name : String} {entry : Nat × Layout}
    (h : cache.find? name = some entry) : name ∈ cache.names := by
  obtain ⟨before, after, hentries, -⟩ := List.lookup_eq_some_iff.1 h
  rw [names, hentries]
  simp

theorem names_getOrCreate (cache : LayoutCache) (naming : ColumnNaming) (s : Schema) :
    (cache.getOrCreate naming s).2.names =
      if s.name ∈ cache.names then cache.names else cache.names ++ [s.name] := by
  obtain ⟨entry, hfind, -, hget⟩ | ⟨-, hget⟩ := cache.getOrCreate_cases naming s
  · rw [hget, if_pos (mem_names_of_find? hfind)]
  · rw [hget]
    exact map_fst_put s.name _ cache.entries

/-- The names are those of the calls, each once. -/
theorem names_run (naming : ColumnNaming) (calls : List Schema) :
    (empty.run naming calls).names.Nodup ∧
      ∀ name, name ∈ (empty.run naming calls).names ↔ name ∈ calls.map Schema.name := by
  induction calls using List.reverseRecOn with
  | nil => exact ⟨List.nodup_nil, fun _ => Iff.rfl⟩
  | append_singleton calls s ih =>
    obtain ⟨hnodup, hmem⟩ := ih
    have hstep : (empty.run naming (calls ++ [s])).names = _ :=
      (congrArg names (run_append naming calls [s])).trans (names_getOrCreate _ naming s)
    rw [hstep]
    split
    · next hs =>
      refine ⟨hnodup, fun name => ?_⟩
      rw [hmem, List.map_append, List.mem_append, List.map_singleton, List.mem_singleton]
      exact ⟨.inl, fun h => h.elim id fun h => h ▸ (hmem _).1 hs⟩
    · next hs =>
      refine ⟨hnodup.append (List.nodup_singleton _) (by simpa using hs), fun name => ?_⟩
      rw [List.mem_append, hmem, List.map_append, List.mem_append, List.map_singleton]

theorem size_run (naming : ColumnNaming) (calls : List Schema) :
    (empty.run naming calls).size = (calls.map Schema.name).toFinset.card := by
  obtain ⟨hnodup, hmem⟩ := names_run naming calls
  have hsize : (empty.run naming calls).size = (empty.run naming calls).names.length :=
    (List.length_map _).symm
  rw [hsize, ← List.toFinset_card_of_nodup hnodup]
  congr 1
  ext name
  rw [List.mem_toFinset, List.mem_toFinset, hmem]

/-- The entries have serial numbers of layouts that were built, different ones for different
names. -/
structure Numbered (cache : LayoutCache) : Prop where
  lt_built : ∀ name entry, cache.find? name = some entry → entry.1 < cache.built
  name_eq : ∀ name other entry another, cache.find? name = some entry →
    cache.find? other = some another → entry.1 = another.1 → name = other

theorem numbered_empty : empty.Numbered :=
  ⟨nofun, nofun⟩

theorem built_le_getOrCreate (cache : LayoutCache) (naming : ColumnNaming) (s : Schema) :
    cache.built ≤ (cache.getOrCreate naming s).2.built := by
  obtain ⟨_, -, -, hget⟩ | ⟨-, hget⟩ := cache.getOrCreate_cases naming s
  · rw [hget]
  · rw [hget]
    exact Nat.le_succ _

theorem Numbered.getOrCreate (h : cache.Numbered) (s : Schema) :
    (cache.getOrCreate naming s).2.Numbered := by
  obtain ⟨_, -, -, hget⟩ | ⟨-, hget⟩ := cache.getOrCreate_cases naming s
  · rw [hget]
    exact h
  · rw [hget]
    constructor
    · intro name entry hentry
      rw [find?_put] at hentry
      split at hentry
      · obtain rfl := Option.some.inj hentry
        exact Nat.lt_succ_self _
      · exact Nat.lt_succ_of_lt (h.lt_built name entry hentry)
    · intro name other entry another hentry hanother heq
      rw [find?_put] at hentry hanother
      split at hentry <;> split at hanother
      · next hname hother => rw [hname, hother]
      · obtain rfl := Option.some.inj hentry
        exact absurd heq.symm (h.lt_built other another hanother).ne
      · obtain rfl := Option.some.inj hanother
        exact absurd heq (h.lt_built name entry hentry).ne
      · exact h.name_eq name other entry another hentry hanother heq

/-- What holds of every cache that is reached with one naming. -/
theorem invariant_run (naming : ColumnNaming) (calls : List Schema)
    (h : cache.Numbered ∧ cache.Faithful naming) :
    (cache.run naming calls).Numbered ∧ (cache.run naming calls).Faithful naming := by
  induction calls generalizing cache with
  | nil => exact h
  | cons s calls ih => exact ih ⟨h.1.getOrCreate s, (h.2.getOrCreate s).2⟩

structure Keeps (cache : LayoutCache) (naming : ColumnNaming) (s : Schema) (k : Nat) : Prop where
  find?_eq : cache.find? s.name = some (k, Layout.ofSchema naming s)

structure Dropped (cache : LayoutCache) (k : Nat) : Prop where
  lt_built : k < cache.built
  not_kept : ∀ name entry, cache.find? name = some entry → entry.1 ≠ k

theorem Dropped.getOrCreate (h : cache.Dropped k) (s : Schema) :
    (cache.getOrCreate naming s).2.Dropped k where
  lt_built := h.lt_built.trans_le (cache.built_le_getOrCreate naming s)
  not_kept := forall_find?_getOrCreate (p := fun _ entry => entry.1 ≠ k) h.not_kept h.lt_built.ne'

theorem Dropped.run (h : cache.Dropped k) (calls : List Schema) :
    (cache.run naming calls).Dropped k := by
  induction calls generalizing cache with
  | nil => exact h
  | cons s calls ih => exact ih (h.getOrCreate s)

theorem Dropped.answer_ne (h : cache.Dropped k) (t : Schema) :
    (cache.getOrCreate naming t).1.1 ≠ k := by
  obtain ⟨entry, hfind, -, hget⟩ | ⟨-, hget⟩ := cache.getOrCreate_cases naming t
  · rw [hget]
    exact h.not_kept t.name entry hfind
  · rw [hget]
    exact h.lt_built.ne'

/-- The answer to a call is kept. -/
theorem Faithful.keeps (h : cache.Faithful naming) (s : Schema) :
    (cache.getOrCreate naming s).2.Keeps naming s (cache.getOrCreate naming s).1.1 := by
  have hlayout := (h.getOrCreate s).1
  obtain ⟨entry, hfind, -, hget⟩ | ⟨-, hget⟩ := cache.getOrCreate_cases naming s
  · rw [hget] at hlayout ⊢
    exact ⟨hfind.trans (congrArg some (Prod.ext rfl hlayout))⟩
  · rw [hget]
    exact ⟨(find?_put _ s.name).trans (if_pos rfl)⟩

theorem find?_getOrCreate_of_ne {name : String} (hne : name ≠ t.name) :
    (cache.getOrCreate naming t).2.find? name = cache.find? name := by
  obtain ⟨_, -, -, hget⟩ | ⟨-, hget⟩ := cache.getOrCreate_cases naming t
  · rw [hget]
  · rw [hget, find?_put, if_neg hne]

namespace Keeps

/-- A kept layout is answered to a schema with the same layout. -/
theorem getOrCreate_of_same (h : cache.Keeps naming s k) (hst : SameLayout s t) :
    cache.getOrCreate naming t = ((k, Layout.ofSchema naming s), cache) := by
  have hfind : cache.find? t.name = some (k, Layout.ofSchema naming s) := hst.name ▸ h.find?_eq
  rw [LayoutCache.getOrCreate, hfind]
  exact if_pos ((Layout.describes_ofSchema_iff hst.name).2 hst)

/-- To a schema of the same name with another layout a new one is answered, in place of the kept
one. -/
theorem getOrCreate_of_not_same (h : cache.Keeps naming s k) (hname : s.name = t.name)
    (hst : ¬ SameLayout s t) :
    cache.getOrCreate naming t = ((cache.built, Layout.ofSchema naming t),
      ⟨put t.name (cache.built, Layout.ofSchema naming t) cache.entries, cache.built + 1⟩) := by
  have hfind : cache.find? t.name = some (k, Layout.ofSchema naming s) := hname ▸ h.find?_eq
  rw [LayoutCache.getOrCreate, hfind]
  exact if_neg (mt (Layout.describes_ofSchema_iff hname).1 hst)

theorem lt_built (h : cache.Keeps naming s k) (hn : cache.Numbered) : k < cache.built :=
  hn.lt_built s.name _ h.find?_eq

/-- Among the schemas just those with the same layout are answered with it. -/
theorem answer_eq_iff (h : cache.Keeps naming s k) (hn : cache.Numbered) (t : Schema) :
    (cache.getOrCreate naming t).1.1 = k ↔ SameLayout s t := by
  by_cases hst : SameLayout s t
  · rw [h.getOrCreate_of_same hst]
    exact iff_of_true rfl hst
  · refine iff_of_false ?_ hst
    by_cases hname : s.name = t.name
    · rw [h.getOrCreate_of_not_same hname hst]
      exact (h.lt_built hn).ne'
    · obtain ⟨entry, hfind, -, hget⟩ | ⟨-, hget⟩ := cache.getOrCreate_cases naming t
      · rw [hget]
        exact fun hk => hname (hn.name_eq _ _ entry _ hfind h.find?_eq hk).symm
      · rw [hget]
        exact (h.lt_built hn).ne'

theorem getOrCreate (h : cache.Keeps naming s k) {u : Schema}
    (hu : u.name = s.name → SameLayout s u) :
    (cache.getOrCreate naming u).2.Keeps naming s k := by
  by_cases hname : u.name = s.name
  · rw [h.getOrCreate_of_same (hu hname)]
    exact h
  · exact ⟨(find?_getOrCreate_of_ne (Ne.symm hname)).trans h.find?_eq⟩

theorem dropped (h : cache.Keeps naming s k) (hn : cache.Numbered) {u : Schema}
    (hname : s.name = u.name) (hu : ¬ SameLayout s u) :
    (cache.getOrCreate naming u).2.Dropped k := by
  have hk : k < cache.built := h.lt_built hn
  rw [h.getOrCreate_of_not_same hname hu]
  refine ⟨Nat.lt_succ_of_lt hk, fun name entry hentry => ?_⟩
  rw [find?_put] at hentry
  split at hentry
  · obtain rfl := Option.some.inj hentry
    exact hk.ne'
  · next hne =>
    exact fun heq => hne ((hn.name_eq _ _ entry _ hentry h.find?_eq heq).trans hname)

/-- The layout is answered again as long as no call for its name came with another layout. -/
theorem answer_run_eq_iff (h : cache.Keeps naming s k)
    (hinv : cache.Numbered ∧ cache.Faithful naming) (between : List Schema) (t : Schema) :
    ((cache.run naming between).getOrCreate naming t).1.1 = k ↔
      SameLayout s t ∧ ∀ u ∈ between, u.name = s.name → SameLayout s u := by
  induction between generalizing cache with
  | nil =>
    exact (h.answer_eq_iff hinv.1 t).trans (and_iff_left (List.forall_mem_nil _)).symm
  | cons u between ih =>
    rw [List.forall_mem_cons]
    by_cases hu : u.name = s.name → SameLayout s u
    · have hnext := ih (h.getOrCreate hu) (invariant_run naming [u] hinv)
      rw [and_iff_right hu]
      exact hnext
    · obtain ⟨hname, hother⟩ := Classical.not_imp.1 hu
      have hdropped : ((cache.run naming (u :: between)).getOrCreate naming t).1.1 ≠ k :=
        ((h.dropped hinv.1 hname.symm hother).run between).answer_ne t
      exact iff_of_false hdropped fun h => hu h.2.1

end Keeps

/-- Every call is answered with the layout of its schema. Two calls share it exactly if they have
the same layout and so has every call for that name between them. There is one entry for each name
of a call. -/
theorem answer_transparent (naming : ColumnNaming) :
    (∀ earlier s, (answer naming earlier s).2 = Layout.ofSchema naming s) ∧
      (∀ earlier s between t,
        (answer naming earlier s).1 = (answer naming (earlier ++ s :: between) t).1 ↔
          SameLayout s t ∧ ∀ u ∈ between, u.name = s.name → SameLayout s u) ∧
      ∀ calls, (empty.run naming calls).size = (calls.map Schema.name).toFinset.card := by
  have hinv (calls : List Schema) := invariant_run naming calls
    ⟨numbered_empty, faithful_empty naming⟩
  refine ⟨fun earlier s => ((hinv earlier).2.getOrCreate s).1, fun earlier s between t => ?_,
    size_run naming⟩
  have hkept := (hinv earlier).2.keeps s
  have hnext := invariant_run naming [s] (hinv earlier)
  rw [eq_comm, answer, run_append]
  exact hkept.answer_run_eq_iff hnext between t

/-- Strings and integers are laid out alike, texts are not; the first version comes back to a new
layout. -/
example :
    let order (family : Family) : Schema :=
      ⟨"Order", ⟨"Id", .guid⟩, [⟨"Note", family, none, false, false⟩]⟩
    let serial (earlier : List Schema) (s : Schema) := (answer id earlier s).1
    serial [] (order .string) = 0 ∧
      serial [order .string] (order .integer) = 0 ∧
      serial [order .string, order .integer] (order .text) = 1 ∧
      serial [order .string, order .integer, order .text] (order .string) = 2 := by
  decide

end LayoutCache

end DocStore
