import DocStore.Sql.Generator

/-!
# The query cache

A cache of commands with a bounded number of entries, the most recently used first. A look-up that
succeeds moves its entry to the front; a new entry drives the last one out when there is no room.
-/

namespace DocStore

structure QueryKey where
  dialect : Dialect
  shape : Shape
  schema : Schema
  query : Query
  deriving DecidableEq

structure QueryCache where
  limit : Nat
  entries : List (QueryKey × Command) := []
  hits : Nat := 0
  misses : Nat := 0

namespace QueryCache

def ofLimit (limit : Nat) : QueryCache :=
  ⟨limit, [], 0, 0⟩

def room (cache : QueryCache) : Nat :=
  max cache.limit 1

def without (key : QueryKey) (entries : List (QueryKey × Command)) :
    List (QueryKey × Command) :=
  entries.filter fun entry => entry.1 ≠ key

def get (cache : QueryCache) (key : QueryKey) : Option Command × QueryCache :=
  match cache.entries.lookup key with
  | some command =>
    (some command,
      { cache with
        entries := (key, command) :: without key cache.entries, hits := cache.hits + 1 })
  | none => (none, { cache with misses := cache.misses + 1 })

def put (cache : QueryCache) (key : QueryKey) (command : Command) : QueryCache :=
  { cache with entries := ((key, command) :: without key cache.entries).take cache.room }

/-- The command of a query: the kept one, or a new one, which is kept if there is one. -/
def getOrGenerate (cache : QueryCache) (g : Generator) (schema : Schema) (query : Query)
    (shape : Shape) : Except Error Command × QueryCache :=
  let key : QueryKey := ⟨g.dialect, shape, schema, query⟩
  match cache.get key with
  | (some command, cache) => (.ok command, cache)
  | (none, cache) =>
    match g.generate schema query shape with
    | .ok command => (.ok command, cache.put key command)
    | .error e => (.error e, cache)

/-- Forgets the entries, but not the counts. -/
def clear (cache : QueryCache) : QueryCache :=
  { cache with entries := [] }

def size (cache : QueryCache) : Nat :=
  cache.entries.length

def hitRate (cache : QueryCache) : Float :=
  if cache.hits + cache.misses = 0 then 0.0
  else Float.ofNat cache.hits / Float.ofNat (cache.hits + cache.misses)

end QueryCache

end DocStore
