import DocStore.Sql.Cache
import Mathlib.Data.Set.Defs

/-!
# Transparency of the query cache

A cache is asked again and again, by any number of generators. It keeps commands under the dialect
of a generator, but not under the names that the generator gives to columns. So it answers every
call as the generator of the call would, exactly if calls with one key have one command.
-/

namespace DocStore

structure QueryCall where
  generator : Generator
  schema : Schema
  query : Query
  shape : Shape

namespace QueryCall

def key (c : QueryCall) : QueryKey :=
  ⟨c.generator.dialect, c.shape, c.schema, c.query⟩

/-- What the generator itself answers. -/
def result (c : QueryCall) : Except Error Command :=
  c.generator.generate c.schema c.query c.shape

end QueryCall

inductive CacheStep where
  | get (call : QueryCall)
  | clear

namespace CacheStep

def result : CacheStep → Option (Except Error Command)
  | get c => some c.result
  | clear => none

end CacheStep

namespace QueryCache

variable {cache : QueryCache} {calls : Set QueryCall} {c c' : QueryCall} {command : Command}

def step (cache : QueryCache) : CacheStep → Option (Except Error Command) × QueryCache
  | .get c =>
    let (answer, cache) := cache.getOrGenerate c.generator c.schema c.query c.shape
    (some answer, cache)
  | .clear => (none, cache.clear)

def answers (cache : QueryCache) : List CacheStep → List (Option (Except Error Command))
  | [] => []
  | s :: rest => (cache.step s).1 :: answers (cache.step s).2 rest

theorem mem_of_lookup {entries : List (QueryKey × Command)} {key : QueryKey}
    (h : entries.lookup key = some command) : (key, command) ∈ entries := by
  obtain ⟨front, rest, rfl, _⟩ := List.lookup_eq_some_iff.1 h
  exact List.mem_append_right front List.mem_cons_self

/-- A call is answered with the command that is kept under its key, if there is one. -/
theorem step_of_lookup (h : cache.entries.lookup c.key = some command) :
    cache.step (.get c) = (some (.ok command), { cache with
      entries := (c.key, command) :: without c.key cache.entries, hits := cache.hits + 1 }) := by
  rw [QueryCall.key] at h
  simp only [step, getOrGenerate, get, h]
  rfl

/-- A new command is kept, and others may go. -/
theorem step_of_ok (h : cache.entries.lookup c.key = none) (hresult : c.result = .ok command) :
    cache.step (.get c) = (some (.ok command),
      ({ cache with misses := cache.misses + 1 } : QueryCache).put c.key command) := by
  rw [QueryCall.key] at h
  rw [QueryCall.result] at hresult
  simp only [step, getOrGenerate, get, h, hresult]
  rfl

/-- An error is not kept. -/
theorem step_of_error {e : Error} (h : cache.entries.lookup c.key = none)
    (hresult : c.result = .error e) :
    cache.step (.get c) = (some (.error e), { cache with misses := cache.misses + 1 }) := by
  rw [QueryCall.key] at h
  rw [QueryCall.result] at hresult
  simp only [step, getOrGenerate, get, h, hresult]

/-- Every entry is the command of a call with its key. -/
def Keeps (cache : QueryCache) (calls : Set QueryCall) : Prop :=
  ∀ entry ∈ cache.entries, ∃ c ∈ calls, c.key = entry.1 ∧ c.result = .ok entry.2

/-- Calls with one key have one command. -/
def Agree (calls : Set QueryCall) : Prop :=
  ∀ c ∈ calls, ∀ c' ∈ calls, c.key = c'.key →
    ∀ command, c.result = .ok command → c'.result = .ok command

theorem Keeps.step (h : cache.Keeps calls) (hcalls : Agree calls) {s : CacheStep}
    (hs : ∀ c, s = .get c → c ∈ calls) :
    (cache.step s).1 = s.result ∧ (cache.step s).2.Keeps calls := by
  cases s with
  | clear => exact ⟨rfl, fun entry he => by cases he⟩
  | get c =>
    have hc : c ∈ calls := hs c rfl
    cases hlookup : cache.entries.lookup c.key with
    | some command =>
      obtain ⟨c', hc', hkey, hresult⟩ := h _ (mem_of_lookup hlookup)
      have hown : c.result = .ok command := hcalls c' hc' c hc hkey command hresult
      rw [step_of_lookup hlookup, CacheStep.result, hown]
      refine ⟨rfl, fun entry he => ?_⟩
      rcases List.mem_cons.1 he with rfl | he
      · exact ⟨c, hc, rfl, hown⟩
      · exact h entry (List.mem_filter.1 he).1
    | none =>
      rw [CacheStep.result]
      cases hresult : c.result with
      | error e =>
        rw [step_of_error hlookup hresult]
        exact ⟨rfl, h⟩
      | ok command =>
        rw [step_of_ok hlookup hresult]
        refine ⟨rfl, fun entry he => ?_⟩
        rcases List.mem_cons.1 (List.mem_of_mem_take he) with rfl | he
        · exact ⟨c, hc, rfl, hresult⟩
        · exact h entry (List.mem_filter.1 he).1

theorem Keeps.answers (h : cache.Keeps calls) (hcalls : Agree calls) {steps : List CacheStep}
    (hsteps : ∀ c, .get c ∈ steps → c ∈ calls) :
    cache.answers steps = steps.map CacheStep.result := by
  induction steps generalizing cache with
  | nil => rfl
  | cons s rest ih =>
    obtain ⟨hanswer, hkeeps⟩ := h.step hcalls fun c hc => hsteps c (hc ▸ List.mem_cons_self)
    have hrest := ih hkeeps fun c hc => hsteps c (List.mem_cons_of_mem s hc)
    rw [QueryCache.answers, hanswer, hrest, List.map_cons]

/-- Of two calls with one key, the second gets the command of the first. -/
theorem answers_pair (limit : Nat) (hkey : c.key = c'.key) (hresult : c.result = .ok command) :
    (ofLimit limit).answers [.get c, .get c'] = [some (.ok command), some (.ok command)] := by
  have hput : (⟨limit, [], 0, 1⟩ : QueryCache).put c.key command =
      ⟨limit, [(c.key, command)], 0, 1⟩ := by
    have hroom : [(c.key, command)].take (max limit 1) = [(c.key, command)] :=
      List.take_of_length_le (Nat.le_max_right limit 1)
    exact congrArg (QueryCache.mk limit · 0 1) hroom
  have hfirst : (ofLimit limit).step (.get c) =
      (some (.ok command), ⟨limit, [(c.key, command)], 0, 1⟩) := by
    rw [step_of_ok rfl hresult, ← hput]
    rfl
  have hlookup : (⟨limit, [(c.key, command)], 0, 1⟩ : QueryCache).entries.lookup c'.key =
      some command := by
    rw [← hkey]
    exact List.lookup_cons_self
  rw [answers, answers, answers, hfirst, step_of_lookup hlookup]

/-- A cache of whatever limit answers all sequences of calls and clearings as the generators would,
exactly if calls with one key have one command. -/
theorem answers_eq_results_iff (limit : Nat) (calls : Set QueryCall) :
    (∀ steps : List CacheStep, (∀ c, .get c ∈ steps → c ∈ calls) →
      (ofLimit limit).answers steps = steps.map CacheStep.result) ↔ Agree calls := by
  constructor
  · intro h c hc c' hc' hkey command hresult
    have hanswers := h [.get c, .get c'] (by simp [hc, hc'])
    rw [answers_pair limit hkey hresult] at hanswers
    simp only [List.map_cons, CacheStep.result, List.cons.injEq, Option.some.injEq] at hanswers
    exact hanswers.2.1.symm
  · intro hcalls steps hsteps
    have hnew : (ofLimit limit).Keeps calls := fun entry he => by cases he
    exact hnew.answers hcalls hsteps

/-- One key stands for two commands where two generators of one dialect shorten names to different
lengths: the second is given a statement with the names of the first. -/
theorem answers_ne_results_of_lengths :
    let schema : Schema := ⟨"Order", ⟨"Id", .identity⟩,
      [⟨"CustomerNumber", .integer, none, false, false⟩]⟩
    let query : Query := {
      structureName := "Order"
      predicate := [.member ⟨"CustomerNumber", none, some .integer, false, false⟩,
        .operator .equal, .value (.integer 7)] }
    let call : Nat → QueryCall := fun maxLength =>
      ⟨⟨.offsetFetch, ColumnName.ofPath maxLength⟩, schema, query, .full⟩
    let steps : List CacheStep := [.get (call 12), .get (call 128)]
    (ofLimit 8).answers steps ≠ steps.map CacheStep.result := by
  intro schema query call steps hanswers
  have htexts := congrArg
    (List.map fun answer => (answer.bind Except.toOption).map Command.sql) hanswers
  exact absurd htexts (by decide +kernel)

end QueryCache

end DocStore
