import DocStore.Proofs.Outcome
import DocStore.Sql.Dialect
import Mathlib.Algebra.Group.Nat.Defs

/-!
# Pages of a result

A page is accepted exactly if it has a row and its last row can be addressed. Both dialects then
select the same rows by the values of their parameters, and the pages of one size, put one behind
the other, are the rows from the first one on.
-/

namespace DocStore

variable {α : Type}

def rowsBetween (first last : Int) (rows : List α) : List α :=
  ((rows.zipIdx 1).filter fun row => first ≤ row.2 ∧ row.2 ≤ last).map Prod.fst

/-- The rows that the statement of a page selects from all rows in their order, by the values of its
two parameters. Rows are neither skipped nor fetched in negative numbers. -/
def Dialect.pageRows? (dialect : Dialect) (values : List Value) (rows : List α) :
    Option (List α) :=
  match dialect, values with
  | rowNumber, [.integer first, .integer last] => some (rowsBetween first.toInt last.toInt rows)
  | offsetFetch, [.integer offset, .integer count] =>
    if 0 ≤ offset.toInt ∧ 1 ≤ count.toInt then
      some ((rows.drop offset.toInt.toNat).take count.toInt.toNat)
    else none
  | _, _ => none

theorem filter_le_zipIdx (rows : List α) (start offset : Nat) :
    ((rows.zipIdx start).filter fun row => start + offset ≤ row.2) =
      (rows.drop offset).zipIdx (start + offset) := by
  induction rows generalizing start offset with
  | nil => simp
  | cons row rows ih =>
    cases offset with
    | zero =>
      refine List.filter_eq_self.2 fun row hrow => ?_
      exact decide_eq_true (List.le_snd_of_mem_zipIdx hrow)
    | succ offset =>
      have hrest := ih (start + 1) offset
      rw [Nat.add_right_comm] at hrest
      rw [List.zipIdx_cons, List.filter_cons_of_neg (by simp)]
      exact hrest

theorem filter_lt_zipIdx (rows : List α) (start count : Nat) :
    ((rows.zipIdx start).filter fun row => row.2 < start + count) =
      (rows.take count).zipIdx start := by
  induction rows generalizing start count with
  | nil => simp
  | cons row rows ih =>
    cases count with
    | zero =>
      refine List.filter_eq_nil_iff.2 fun row hrow => ?_
      simpa using List.le_snd_of_mem_zipIdx hrow
    | succ count =>
      have hrest := ih (start + 1) count
      rw [Nat.add_right_comm] at hrest
      rw [List.zipIdx_cons, List.filter_cons_of_pos (by simp), List.take_succ_cons,
        List.zipIdx_cons]
      exact congrArg _ hrest

/-- Between two numbers stand the rows that are left when those before are skipped. -/
theorem rowsBetween_eq (offset count : Nat) (rows : List α) :
    rowsBetween (offset + 1 : Nat) (offset + count : Nat) rows =
      (rows.drop offset).take count := by
  have hboth : ((rows.zipIdx 1).filter fun row =>
      ((offset + 1 : Nat) : Int) ≤ row.2 ∧ (row.2 : Int) ≤ (offset + count : Nat)) =
      ((rows.zipIdx 1).filter fun row => 1 + offset ≤ row.2).filter fun row =>
        row.2 < 1 + offset + count := by
    rw [List.filter_filter]
    refine List.filter_congr fun row _ => ?_
    rw [← Bool.decide_and, decide_eq_decide]
    omega
  rw [rowsBetween, hboth, filter_le_zipIdx, filter_lt_zipIdx, List.zipIdx_map_fst]

namespace Paging

variable {index size : Nat} {p : Paging}

theorem maxValue_eq : Int64.maxValue.toInt = lastAddressableRow :=
  rfl

theorem exists_int64? {n : Nat} (h : n ≤ lastAddressableRow) : ∃ i, int64? n = some i := by
  have hmin : Int64.minValue.toInt ≤ 0 := by decide
  have hmax : (n : Int) ≤ Int64.maxValue.toInt := maxValue_eq ▸ Int.ofNat_le.2 h
  exact ⟨_, if_pos ⟨Int.le_trans hmin (Int.natCast_nonneg n), hmax⟩⟩

/-- No step of the computation fails if the last row can be addressed. -/
theorem exists_bounds? (h : (index + 1) * size ≤ lastAddressableRow) :
    ∃ bounds, bounds? index size = some bounds := by
  rw [Nat.succ_mul] at h
  have hunsigned : ∀ {n : Nat}, n ≤ lastAddressableRow → unsigned? n = some n := by
    intro n hn
    exact if_pos (Nat.lt_of_le_of_lt hn (by decide))
  have hoffset : index * size ≤ lastAddressableRow := Nat.le_trans (Nat.le_add_right _ _) h
  obtain ⟨offset, ho⟩ := exists_int64? hoffset
  obtain ⟨last, hl⟩ := exists_int64? h
  refine ⟨(offset, last), ?_⟩
  simp only [bounds?, hunsigned hoffset, hunsigned h, ho, hl, Option.bind_eq_bind,
    Option.bind_some]
  rfl

theorem ofParts_eq (hsize : 1 ≤ size) (h : (index + 1) * size ≤ lastAddressableRow) :
    ofParts index size = .ok ⟨index, size, hsize, h⟩ := by
  obtain ⟨bounds, hbounds⟩ := exists_bounds? h
  rw [ofParts, dif_neg (Nat.pos_iff_ne_zero.1 hsize)]
  split
  · rfl
  · next hnone => rw [hbounds] at hnone; cases hnone

theorem of_ofParts (h : ofParts index size = .ok p) : p.index = index ∧ p.size = size := by
  rw [ofParts] at h
  split at h
  · cases h
  · split at h <;> cases h
    exact ⟨rfl, rfl⟩

theorem exists_ofParts :
    (∃ p, ofParts index size = .ok p) ↔ 1 ≤ size ∧ (index + 1) * size ≤ lastAddressableRow := by
  constructor
  · rintro ⟨p, h⟩
    obtain ⟨rfl, rfl⟩ := of_ofParts h
    exact ⟨p.size_pos, p.last_le⟩
  · rintro ⟨hsize, h⟩
    exact ⟨_, ofParts_eq hsize h⟩

/-- What the page tells about its rows, all of it in signed 64-bit integers. -/
structure Exact (p : Paging) (index size : Nat) : Prop where
  offset : p.offset = index * size
  firstRow : p.firstRow = index * size + 1
  lastRow : p.lastRow = (index + 1) * size
  fetch : p.fetch = size
  fits : ∀ n ∈ [p.offset, p.firstRow, p.lastRow, p.fetch], (Int64.ofNat n).toInt = n

theorem exact_self (p : Paging) : p.Exact p.index p.size := by
  have hlast : p.lastRow = (p.index + 1) * p.size := (Nat.succ_mul _ _).symm
  have hfetch : p.fetch = p.size := Nat.add_sub_cancel_left _ _
  have hfirst : p.firstRow ≤ p.lastRow := Nat.add_le_add_left p.size_pos _
  refine ⟨rfl, rfl, hlast, hfetch, fun n hn => Int64.toInt_ofNat_of_lt ?_⟩
  have hle : n ≤ p.lastRow := by
    simp only [List.mem_cons, List.not_mem_nil, or_false] at hn
    rcases hn with rfl | rfl | rfl | rfl
    · exact Nat.le_add_right _ _
    · exact hfirst
    · exact Nat.le_refl _
    · exact hfetch ▸ Nat.le_add_left _ _
  have hmax : n ≤ lastAddressableRow := Nat.le_trans (hlast ▸ hle) p.last_le
  exact Nat.lt_of_le_of_lt hmax (by decide)

def rows? (p : Paging) (dialect : Dialect) (rows : List α) : Option (List α) :=
  dialect.pageRows? (dialect.pagingValues p) rows

theorem rows?_eq (p : Paging) (dialect : Dialect) (rows : List α) :
    p.rows? dialect rows = some ((rows.drop (p.index * p.size)).take p.size) := by
  have hexact := p.exact_self
  have hoffset := hexact.fits p.offset (by simp)
  have hfirst := hexact.fits p.firstRow (by simp)
  have hlast := hexact.fits p.lastRow (by simp)
  have hfetch := hexact.fits p.fetch (by simp)
  cases dialect with
  | rowNumber =>
    have hrows := rowsBetween_eq p.offset p.size rows
    simp only [rows?, Dialect.pagingValues, Dialect.rowValue, Dialect.pageRows?]
    rw [hfirst, hlast]
    exact congrArg some hrows
  | offsetFetch =>
    simp only [rows?, Dialect.pagingValues, Dialect.rowValue, Dialect.pageRows?]
    rw [hoffset, hfetch, hexact.fetch, if_pos ⟨Int.natCast_nonneg _, Int.ofNat_le.2 p.size_pos⟩]
    rfl

/-- All pages up to an accepted one are accepted, and tile the result. -/
theorem exists_pages {n : Nat} (hn : n ≤ p.index + 1) (rows : List α) :
    ∃ pages : List Paging, (List.range n).mapM (ofParts · p.size) = .ok pages ∧
      ∀ dialect, (pages.mapM (rows? · dialect rows)).map List.flatten =
        some (rows.take (n * p.size)) := by
  induction n with
  | zero => exact ⟨[], rfl, fun _ => by rw [Nat.zero_mul]; rfl⟩
  | succ n ih =>
    obtain ⟨pages, hpages, hrows⟩ := ih (Nat.le_of_succ_le hn)
    have hlast : (n + 1) * p.size ≤ lastAddressableRow :=
      Nat.le_trans (Nat.mul_le_mul_right _ hn) p.last_le
    refine ⟨pages ++ [⟨n, p.size, p.size_pos, hlast⟩], ?_, fun dialect => ?_⟩
    · rw [List.range_succ, List.mapM_append, hpages, List.mapM_cons, ofParts_eq p.size_pos hlast]
      rfl
    · obtain ⟨parts, hparts, hflat⟩ := Option.map_eq_some_iff.1 (hrows dialect)
      rw [List.mapM_append, hparts, List.mapM_cons, rows?_eq, Nat.succ_mul, List.take_add, ← hflat]
      exact congrArg some List.flatten_concat

/-- A page is accepted exactly if it has a row and its last row fits a signed 64-bit integer. Then
its numbers are exact, both dialects select its rows, and all pages up to it are accepted, of which
any from the first on tile the result. -/
theorem pages_tile (index size : Nat) (rows : List α) :
    ((∃ p, ofParts index size = .ok p) ↔ 1 ≤ size ∧ (index + 1) * size ≤ 2 ^ 63 - 1) ∧
    ∀ p, ofParts index size = .ok p → p.Exact index size ∧
      (∀ dialect, p.rows? dialect rows = some ((rows.drop (index * size)).take size)) ∧
      ∀ n ≤ index + 1, ∃ pages : List Paging, (List.range n).mapM (ofParts · size) = .ok pages ∧
        ∀ dialect, (pages.mapM (rows? · dialect rows)).map List.flatten =
          some (rows.take (n * size)) := by
  refine ⟨exists_ofParts, fun p hp => ?_⟩
  obtain ⟨rfl, rfl⟩ := of_ofParts hp
  refine ⟨p.exact_self, fun dialect => p.rows?_eq dialect rows, fun n hn => ?_⟩
  exact exists_pages hn rows

/-- The third page of ten among 25 rows has the last five. -/
theorem pages_tile_of_third :
    ∃ p, ofParts 2 10 = .ok p ∧ p.Exact 2 10 ∧
      (∀ dialect, p.rows? dialect (List.range 25) = some [20, 21, 22, 23, 24]) ∧
      ∃ pages : List Paging, (List.range 3).mapM (ofParts · 10) = .ok pages ∧
        ∀ dialect, (pages.mapM (rows? · dialect (List.range 25))).map List.flatten =
          some (List.range 25) := by
  have htile := pages_tile 2 10 (List.range 25)
  obtain ⟨p, hp⟩ := htile.1.2 (by decide)
  obtain ⟨hexact, hrows, hpages⟩ := htile.2 p hp
  exact ⟨p, hp, hexact, hrows, hpages 3 (by decide)⟩

end Paging

end DocStore
