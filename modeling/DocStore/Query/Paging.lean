import DocStore.Error
import DocStore.Number.Numeral

/-!
# Pages

A page is a run of rows of one size, numbered from zero. Every row number of a page fits a signed
64-bit integer; `Paging.ofParts` computes the bounds of a page in 64-bit integers and accepts it if
none of the steps overflows.
-/

namespace DocStore

def lastAddressableRow : Nat := 9223372036854775807

structure Paging where
  index : Nat
  size : Nat
  size_pos : 1 ≤ size
  last_le : (index + 1) * size ≤ lastAddressableRow
  deriving DecidableEq

namespace Paging

def unsigned? (n : Nat) : Option Nat :=
  if n < 18446744073709551616 then some n else none

/-- The rows before a page and its last row: unsigned at first, then signed. -/
def bounds? (index size : Nat) : Option (Int64 × Int64) := do
  let offset ← unsigned? (index * size)
  let last ← unsigned? (offset + size)
  return (← int64? offset, ← int64? last)

theorem last_le_of_bounds? {index size : Nat} {bounds : Int64 × Int64}
    (h : bounds? index size = some bounds) : (index + 1) * size ≤ lastAddressableRow := by
  simp only [bounds?, unsigned?, int64?, Option.bind_eq_bind, Option.bind_eq_some_iff,
    Option.ite_none_right_eq_some, Option.some.injEq] at h
  obtain ⟨_, ⟨-, rfl⟩, _, ⟨-, rfl⟩, _, -, _, ⟨⟨-, hlast⟩, -⟩, -⟩ := h
  rw [Nat.succ_mul]
  exact Int.ofNat_le.1 hlast

def ofParts (index size : Nat) : Except Error Paging :=
  if hsize : size = 0 then .error Error.emptyPage
  else
    match hbounds : bounds? index size with
    | some _ => .ok ⟨index, size, Nat.pos_of_ne_zero hsize, last_le_of_bounds? hbounds⟩
    | none => .error (Error.pageOutOfRange index size)

def offset (p : Paging) : Nat :=
  p.index * p.size

def firstRow (p : Paging) : Nat :=
  p.offset + 1

def lastRow (p : Paging) : Nat :=
  p.offset + p.size

def fetch (p : Paging) : Nat :=
  p.lastRow - p.offset

end Paging

end DocStore
