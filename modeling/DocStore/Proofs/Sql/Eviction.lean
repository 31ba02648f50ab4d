import DocStore.Proofs.Sql.Transparency
import Mathlib.Data.Finset.Card
import Mathlib.Data.Finset.Dedup
import Mathlib.Data.List.Infix

/-!
# Eviction from the query cache

A full cache drops the entry that was used least recently. So its keys are those of the calls that
were served last since the last clearing, as many different ones as there is room for, and a call is
a hit exactly if its key is one of them.
-/

namespace DocStore

section

variable {κ : Type} [DecidableEq κ] {k : κ} {keys : List κ} {room : Nat}

/-- The different keys of a list whose first one is the latest, each at its latest place. -/
def recency : List κ → List κ
  | [] => []
  | k :: keys => k :: (recency keys).filter (· ≠ k)

theorem mem_recency : k ∈ recency keys ↔ k ∈ keys := by
  induction keys with
  | nil => exact Iff.rfl
  | cons j keys ih =>
    rw [recency, List.mem_cons, List.mem_cons, List.mem_filter, ih, decide_eq_true_eq]
    by_cases hk : k = j <;> simp [hk]

theorem nodup_recency (keys : List κ) : (recency keys).Nodup := by
  induction keys with
  | nil => exact List.nodup_nil
  | cons j keys ih =>
    refine List.nodup_cons.2 ⟨fun hj => ?_, ih.filter _⟩
    simpa using List.of_mem_filter hj

theorem length_recency (keys : List κ) : (recency keys).length = keys.toFinset.card := by
  rw [← List.toFinset_card_of_nodup (nodup_recency keys)]
  congr 1
  ext k
  rw [List.mem_toFinset, List.mem_toFinset, mem_recency]

theorem recency_append (later earlier : List κ) :
    recency (later ++ earlier) = recency later ++ (recency earlier).filter (· ∉ later) := by
  induction later with
  | nil => simp [recency]
  | cons k later ih =>
    rw [List.cons_append, recency, ih, List.filter_append, List.filter_filter, recency]
    refine congrArg _ (congrArg _ (List.filter_congr fun j _ => ?_))
    simp

/-- A key is among the latest ones if only few others are later. -/
theorem mem_take_recency : k ∈ (recency keys).take room ↔
    ∃ later earlier, keys = later ++ k :: earlier ∧ k ∉ later ∧ later.toFinset.card < room := by
  have hsplit : ∀ {later earlier : List κ}, k ∉ later →
      (k ∈ (recency (later ++ k :: earlier)).take room ↔ (recency later).length < room) := by
    intro later earlier hk
    have hfront : k ∉ recency later := mt mem_recency.1 hk
    rw [recency_append, recency, List.filter_cons_of_pos (by simpa using hk), List.take_append,
      List.mem_append, or_iff_right (mt List.mem_of_mem_take hfront)]
    cases hroom : room - (recency later).length with
    | zero =>
      rw [List.take_zero]
      exact ⟨nofun, fun h => absurd hroom (Nat.sub_ne_zero_of_lt h)⟩
    | succ =>
      rw [List.take_succ_cons]
      exact ⟨fun _ => by omega, fun _ => List.mem_cons_self⟩
  constructor
  · intro h
    obtain ⟨later, earlier, rfl, hk⟩ :=
      List.eq_append_cons_of_mem (mem_recency.1 (List.mem_of_mem_take h))
    exact ⟨later, earlier, rfl, hk, length_recency later ▸ (hsplit hk).1 h⟩
  · rintro ⟨later, earlier, rfl, hk, hcard⟩
    exact (hsplit hk).2 (length_recency later ▸ hcard)

/-- If one key is taken out, the others move up. -/
theorem take_filter_take (h : keys.Nodup) :
    ((keys.take (room + 1)).filter (· ≠ k)).take room = (keys.filter (· ≠ k)).take room := by
  induction keys generalizing room with
  | nil => rfl
  | cons j keys ih =>
    rw [List.nodup_cons] at h
    rw [List.take_succ_cons]
    by_cases hj : j = k
    · subst hj
      have hself : keys.filter (· ≠ j) = keys :=
        List.filter_eq_self.2 fun i hi => decide_eq_true fun hij => h.1 (hij ▸ hi)
      have hfront : (keys.take room).filter (· ≠ j) = keys.take room :=
        List.filter_eq_self.2 fun i hi =>
          decide_eq_true fun hij => h.1 (hij ▸ List.mem_of_mem_take hi)
      rw [List.filter_cons_of_neg (by simp), List.filter_cons_of_neg (by simp), hself, hfront,
        List.take_take, Nat.min_self]
    · rw [List.filter_cons_of_pos (by simpa using hj), List.filter_cons_of_pos (by simpa using hj)]
      cases room with
      | zero => rfl
      | succ room => rw [List.take_succ_cons, List.take_succ_cons, ih h.2]

/-- The latest keys when one more is used. -/
theorem take_recency_cons (hroom : 0 < room) :
    (k :: ((recency keys).take room).filter (· ≠ k)).take room =
      (recency (k :: keys)).take room := by
  obtain ⟨room, rfl⟩ := Nat.exists_eq_succ_of_ne_zero (Nat.pos_iff_ne_zero.1 hroom)
  rw [recency, List.take_succ_cons, List.take_succ_cons, take_filter_take (nodup_recency keys)]

end

namespace CacheStep

def isGet : CacheStep → Bool
  | get _ => true
  | clear => false

/-- The keys that are served when a step has been answered, the latest first. -/
def record (keys : List QueryKey) : CacheStep × Option (Except Error Command) → List QueryKey
  | (get c, some (.ok _)) => c.key :: keys
  | (get _, _) => keys
  | (clear, _) => []

end CacheStep

namespace QueryCache

variable {cache : QueryCache} {limit : Nat} {keys : List QueryKey} {c : QueryCall}

def run (cache : QueryCache) (steps : List CacheStep) : QueryCache :=
  steps.foldl (fun cache s => (cache.step s).2) cache

/-- The keys of the calls that were answered with a command since the last clearing, the latest
first. -/
def served (steps : List CacheStep) (answers : List (Option (Except Error Command))) :
    List QueryKey :=
  (steps.zip answers).foldl CacheStep.record []

/-- The cache has room for the latest of the keys that were served, and holds these. -/
structure Recent (limit : Nat) (keys : List QueryKey) (cache : QueryCache) : Prop where
  limit_eq : cache.limit = limit
  keys_eq : cache.entries.map Prod.fst = (recency keys).take (max limit 1)

/-- A call is a hit, or it is not and a new command is kept, or there is none to keep. -/
theorem step_get (cache : QueryCache) (c : QueryCall) :
    (∃ command, cache.entries.lookup c.key = some command ∧
      cache.step (.get c) = (some (.ok command), { cache with
        entries := (c.key, command) :: without c.key cache.entries, hits := cache.hits + 1 })) ∨
    (∃ command, cache.entries.lookup c.key = none ∧
      cache.step (.get c) = (some (.ok command),
        ({ cache with misses := cache.misses + 1 } : QueryCache).put c.key command)) ∨
    ∃ e, cache.entries.lookup c.key = none ∧
      cache.step (.get c) = (some (.error e), { cache with misses := cache.misses + 1 }) := by
  cases hlookup : cache.entries.lookup c.key with
  | some command => exact .inl ⟨command, rfl, step_of_lookup hlookup⟩
  | none =>
    cases hresult : c.result with
    | ok command => exact .inr (.inl ⟨command, rfl, step_of_ok hlookup hresult⟩)
    | error e => exact .inr (.inr ⟨e, rfl, step_of_error hlookup hresult⟩)

theorem exists_lookup {entries : List (QueryKey × Command)} {key : QueryKey} :
    (∃ command, entries.lookup key = some command) ↔ key ∈ entries.map Prod.fst := by
  constructor
  · rintro ⟨command, h⟩
    exact List.mem_map_of_mem (mem_of_lookup h)
  · intro h
    cases hlookup : entries.lookup key with
    | some command => exact ⟨command, rfl⟩
    | none =>
      obtain ⟨entry, hentry, rfl⟩ := List.mem_map.1 h
      simpa using List.lookup_eq_none_iff.1 hlookup entry hentry

theorem map_fst_without (key : QueryKey) (entries : List (QueryKey × Command)) :
    (without key entries).map Prod.fst = (entries.map Prod.fst).filter (· ≠ key) := by
  rw [List.filter_map]
  rfl

theorem Recent.lookup_iff (h : cache.Recent limit keys) {key : QueryKey} :
    (∃ command, cache.entries.lookup key = some command) ↔
      ∃ later earlier, keys = later ++ key :: earlier ∧ key ∉ later ∧
        later.toFinset.card < max limit 1 := by
  rw [exists_lookup, h.keys_eq, mem_take_recency]

theorem Recent.length_le (h : cache.Recent limit keys) : cache.entries.length ≤ max limit 1 := by
  rw [← List.length_map Prod.fst, h.keys_eq]
  exact List.length_take_le _ _

theorem Recent.step (h : cache.Recent limit keys) (s : CacheStep) :
    (cache.step s).2.Recent limit (CacheStep.record keys (s, (cache.step s).1)) := by
  have hroom : 0 < max limit 1 := Nat.le_max_right limit 1
  cases s with
  | clear => exact ⟨h.limit_eq, List.take_nil.symm⟩
  | get c =>
    have hused : (c.key :: ((recency keys).take (max limit 1)).filter (· ≠ c.key)).take
        (max limit 1) = (recency (c.key :: keys)).take (max limit 1) := take_recency_cons hroom
    rw [← h.keys_eq, ← map_fst_without] at hused
    obtain ⟨command, hlookup, hstep⟩ | ⟨command, -, hstep⟩ | ⟨e, -, hstep⟩ := cache.step_get c
    · rw [hstep]
      refine ⟨h.limit_eq, ?_⟩
      have hlength : (without c.key cache.entries).length < cache.entries.length :=
        List.length_filter_lt_length_iff_exists.2 ⟨_, mem_of_lookup hlookup, by simp⟩
      rw [CacheStep.record, ← hused, List.take_of_length_le]
      · rfl
      · rw [List.length_cons, List.length_map]
        exact Nat.le_trans hlength h.length_le
    · rw [hstep]
      refine ⟨h.limit_eq, ?_⟩
      rw [CacheStep.record, ← hused, put, room, List.map_take, h.limit_eq]
      rfl
    · rw [hstep]
      exact ⟨h.limit_eq, h.keys_eq⟩

theorem Recent.run (h : cache.Recent limit keys) (steps : List CacheStep) :
    (cache.run steps).Recent limit
      ((steps.zip (cache.answers steps)).foldl CacheStep.record keys) := by
  induction steps generalizing cache keys with
  | nil => exact h
  | cons s rest ih => exact ih (h.step s)

theorem recent_served (limit : Nat) (steps : List CacheStep) :
    ((ofLimit limit).run steps).Recent limit (served steps ((ofLimit limit).answers steps)) := by
  have hnew : (ofLimit limit).Recent limit [] := ⟨rfl, List.take_nil.symm⟩
  exact hnew.run steps

/-- A call counts as a hit exactly if its key is kept. -/
theorem hits_step (cache : QueryCache) (c : QueryCall) :
    (cache.step (.get c)).2.hits = cache.hits + 1 ↔
      ∃ command, cache.entries.lookup c.key = some command := by
  have hmiss : cache.hits ≠ cache.hits + 1 := Nat.ne_of_lt (Nat.lt_succ_self _)
  obtain ⟨command, hlookup, hstep⟩ | ⟨command, hlookup, hstep⟩ | ⟨e, hlookup, hstep⟩ :=
    cache.step_get c
  · rw [hstep]
    exact ⟨fun _ => ⟨command, hlookup⟩, fun _ => rfl⟩
  · rw [hstep, hlookup, put]
    exact ⟨fun h => absurd h hmiss, nofun⟩
  · rw [hstep, hlookup]
    exact ⟨fun h => absurd h hmiss, nofun⟩

theorem counts_step (cache : QueryCache) (s : CacheStep) :
    (cache.step s).2.hits + (cache.step s).2.misses =
      cache.hits + cache.misses + if s.isGet then 1 else 0 := by
  cases s with
  | clear => rfl
  | get c =>
    obtain ⟨command, -, hstep⟩ | ⟨command, -, hstep⟩ | ⟨e, -, hstep⟩ := cache.step_get c
    · rw [hstep]
      exact Nat.add_right_comm _ _ _
    · rw [hstep]
      rfl
    · rw [hstep]
      rfl

theorem counts_run (cache : QueryCache) (steps : List CacheStep) :
    (cache.run steps).hits + (cache.run steps).misses =
      cache.hits + cache.misses + steps.countP CacheStep.isGet := by
  induction steps generalizing cache with
  | nil => rfl
  | cons s rest ih =>
    have hrest : cache.run (s :: rest) = (cache.step s).2.run rest := rfl
    rw [hrest, ih, counts_step, List.countP_cons, Nat.add_right_comm, Nat.add_assoc]

/-- An error is only answered to a call whose key is not kept, and leaves the entries alone. -/
theorem entries_of_error {e : Error} (h : (cache.step (.get c)).1 = some (.error e)) :
    (cache.step (.get c)).2.entries = cache.entries := by
  obtain ⟨command, -, hstep⟩ | ⟨command, -, hstep⟩ | ⟨e, -, hstep⟩ := cache.step_get c
  · rw [hstep] at h
    cases h
  · rw [hstep] at h
    cases h
  · rw [hstep]

/-- After whatever steps on a cache of whatever limit, a call is a hit exactly if its key was served
since the last clearing and there is room for it beside the other keys that were served since. A
call that fails changes no entry, every call counts as a hit or a miss, and the entries do not
exceed the room. -/
theorem hit_iff_served (limit : Nat) (steps : List CacheStep) (c : QueryCall) :
    let cache := (ofLimit limit).run steps
    let after := cache.step (.get c)
    (after.2.hits = cache.hits + 1 ↔
      ∃ later earlier, served steps ((ofLimit limit).answers steps) = later ++ c.key :: earlier ∧
        c.key ∉ later ∧ later.toFinset.card < max limit 1) ∧
    (∀ e, after.1 = some (.error e) → after.2.entries = cache.entries) ∧
    cache.hits + cache.misses = steps.countP CacheStep.isGet ∧
    cache.entries.length ≤ max limit 1 := by
  intro cache after
  have hrecent : cache.Recent limit _ := recent_served limit steps
  have hcounts : cache.hits + cache.misses = 0 + 0 + _ := counts_run (ofLimit limit) steps
  refine ⟨(hits_step cache c).trans hrecent.lookup_iff, fun e => entries_of_error, ?_,
    hrecent.length_le⟩
  rw [hcounts, Nat.zero_add]

/-- A cache of limit zero has room for one command, and keeps it when a call asks for a member that
is not indexed. -/
theorem hit_iff_served_of_orders :
    let schema : Schema := ⟨"Order", ⟨"Id", .identity⟩,
      [⟨"Number", .integer, none, false, false⟩]⟩
    let call : String → QueryCall := fun path => {
      generator := ⟨.offsetFetch, ColumnName.ofPath 128⟩
      schema := schema
      query := {
        structureName := "Order"
        predicate := [.member ⟨path, none, some .integer, false, false⟩, .operator .equal,
          .value (.integer 7)] }
      shape := .full }
    let steps : List CacheStep := [.get (call "Number")]
    let cache := (ofLimit 0).run steps
    let after := cache.step (.get (call "Missing"))
    after.1 = some (.error (Error.schemaMismatch "Order" "Missing")) ∧
      after.2.hits ≠ cache.hits + 1 ∧ after.2.entries = cache.entries ∧
      cache.hits + cache.misses = 1 ∧ cache.entries.length ≤ 1 := by
  intro schema call steps cache after
  obtain ⟨hhit, herror, hcounts, hlength⟩ := hit_iff_served 0 steps (call "Missing")
  have hafter : after.1 = some (.error (Error.schemaMismatch "Order" "Missing")) := rfl
  refine ⟨hafter, fun h => ?_, herror _ hafter, hcounts, hlength⟩
  have hserved : served steps ((ofLimit 0).answers steps) = [(call "Number").key] := rfl
  obtain ⟨later, earlier, hkeys, -, -⟩ := hhit.1 h
  have hmem : (call "Missing").key ∈ [(call "Number").key] := by
    rw [← hserved, hkeys]
    exact List.mem_append_right _ List.mem_cons_self
  exact absurd hmem (by decide)

end QueryCache

end DocStore
