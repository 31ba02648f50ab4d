import DocStore.Predicate.Completion
import DocStore.Sql.Dialect

/-!
# Configuration

The settings that the parts of the library share, with their defaults.
-/

namespace DocStore

structure Config where
  dialect : Dialect := .offsetFetch
  batchSize : Nat := 1000
  /-- Workers that build structures; none stands for one per processor. -/
  workers : Option Nat := none
  /-- The length to which indexed strings are cut. -/
  stringMax : Nat := 300
  /-- A length limit on identifiers in place of the dialect's. -/
  maxIdentifier : Option Nat := none
  /-- How a check for a value that is compared with a boolean reads. -/
  hasValueMode : HasValueMode := .eitherForm
  cacheSize : Nat := 256
  deriving DecidableEq, Inhabited

namespace Config

def withBatchSize (c : Config) (size : Nat) : Config :=
  { c with batchSize := max size 1 }

def withWorkers (c : Config) (workers : Nat) : Config :=
  { c with workers := some (max workers 1) }

def identifierLength (c : Config) : Nat :=
  c.maxIdentifier.getD c.dialect.maxIdentifierLength

end Config

end DocStore
