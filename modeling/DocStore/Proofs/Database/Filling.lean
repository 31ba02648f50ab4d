import DocStore.Proofs.Database.Cells
import DocStore.Proofs.Outcome
import DocStore.Proofs.Sql.Rendering

/-!
# Filling rows

A row is filled by a statement that names its columns, or by a copy that maps ordinals to columns.
Both put every value under its column (`under_filled`).
-/

namespace DocStore

namespace Table

variable {t : Table} {row : List Value} {pairs : List (String × Value)} {c : String}

theorem ordinal?_of_mem (h : c ∈ t.columns) : ∃ i, t.ordinal? c = some i := by
  cases ho : t.ordinal? c with
  | none => exact absurd h (List.idxOf?_eq_none_iff.1 ho)
  | some i => exact ⟨i, rfl⟩

theorem ordinal_of_ordinal? {i : Nat} (h : t.ordinal? c = some i) : t.ordinal c = .ok i := by
  rw [ordinal, h]

theorem length_emptyRow (t : Table) : t.emptyRow.length = t.columns.length :=
  List.length_map _

theorem lookup_ne {α : Type} {entries : List (String × α)} {d : String} {a : α} (h : c ≠ d) :
    ((d, a) :: entries).lookup c = entries.lookup c := by
  rw [List.lookup_cons, beq_false_of_ne h]

/-- A filled row has the last value that was given for a column, or the one it had before. -/
theorem fillRow_eq (hp : ∀ p ∈ pairs, p.1 ∈ t.columns) (hl : row.length = t.columns.length) :
    ∃ row', t.fillRow row pairs = .ok row' ∧ row'.length = t.columns.length ∧
      ∀ c, under t.columns row' c = (pairs.reverse.lookup c).getD (under t.columns row c) := by
  induction pairs generalizing row with
  | nil => exact ⟨row, rfl, hl, fun _ => rfl⟩
  | cons p pairs ih =>
    obtain ⟨c, v⟩ := p
    rw [List.forall_mem_cons] at hp
    obtain ⟨i, hi⟩ := ordinal?_of_mem hp.1
    have hset : (row.set i v).length = t.columns.length := by rw [List.length_set, hl]
    obtain ⟨row', hrow', hl', hu⟩ := ih hp.2 hset
    refine ⟨row', ?_, hl', fun d => ?_⟩
    · rw [fillRow, ordinal_of_ordinal? hi]
      exact hrow'
    · rw [hu, under_set hi hl, List.reverse_cons, List.lookup_append]
      cases pairs.reverse.lookup d with
      | some w => rfl
      | none =>
        by_cases hd : d = c
        · simp [hd]
        · rw [if_neg hd, lookup_ne hd]
          rfl

def filled (t : Table) (pairs : List (String × Value)) : List Value :=
  match t.fillRow t.emptyRow pairs with
  | .ok row => row
  | .error _ => t.emptyRow

theorem fillRow_emptyRow (hp : ∀ p ∈ pairs, p.1 ∈ t.columns) :
    t.fillRow t.emptyRow pairs = .ok (t.filled pairs) := by
  obtain ⟨row, hrow, _⟩ := fillRow_eq hp t.length_emptyRow
  rw [filled, hrow]

theorem length_filled (hp : ∀ p ∈ pairs, p.1 ∈ t.columns) :
    (t.filled pairs).length = t.columns.length := by
  obtain ⟨row, hrow, hl, _⟩ := fillRow_eq hp t.length_emptyRow
  rw [filled, hrow]
  exact hl

theorem under_filled_last (hp : ∀ p ∈ pairs, p.1 ∈ t.columns) (c : String) :
    under t.columns (t.filled pairs) c = (pairs.reverse.lookup c).getD .null := by
  obtain ⟨row, hrow, _, hu⟩ := fillRow_eq hp t.length_emptyRow
  rw [filled, hrow, hu, under_emptyRow]

theorem lookup_reverse (hn : (pairs.map Prod.fst).Nodup) (c : String) :
    pairs.reverse.lookup c = pairs.lookup c := by
  induction pairs with
  | nil => rfl
  | cons p pairs ih =>
    obtain ⟨d, v⟩ := p
    obtain ⟨hd, hn⟩ := List.nodup_cons.1 hn
    rw [List.reverse_cons, List.lookup_append, ih hn]
    by_cases hc : c = d
    · subst hc
      have hnone : pairs.lookup c = none := by
        rw [List.lookup_eq_none_iff]
        rintro ⟨b, w⟩ hp
        have hne : c ≠ b := fun h => hd (h ▸ List.mem_map.2 ⟨(b, w), hp, rfl⟩)
        simpa using hne
      simp [hnone]
    · rw [lookup_ne hc, lookup_ne hc]
      exact Option.or_none

theorem under_filled (hp : ∀ p ∈ pairs, p.1 ∈ t.columns) (hn : (pairs.map Prod.fst).Nodup)
    (c : String) : under t.columns (t.filled pairs) c = (pairs.lookup c).getD .null := by
  rw [under_filled_last hp, lookup_reverse hn]

/-- The row of the columns that has the values under their names, and null under other names. Of
equal columns only the first goes by their name. -/
def laid (columns : List String) (values : List (String × Value)) : List Value :=
  columns.zipIdx.map fun c =>
    if columns.idxOf? c.1 = some c.2 then (values.lookup c.1).getD .null else .null

theorem cell_fillRow {row' : List Value} {i : Nat} (hrow : t.fillRow row pairs = .ok row')
    (hi : ∀ c, t.ordinal? c ≠ some i) : cell row' i = cell row i := by
  induction pairs generalizing row with
  | nil =>
    obtain rfl := Except.ok.inj hrow
    rfl
  | cons p pairs ih =>
    obtain ⟨c, v⟩ := p
    rw [fillRow] at hrow
    obtain ⟨j, hj, hrow⟩ := bind_eq_ok.1 hrow
    have hne : j ≠ i := by
      rintro rfl
      refine hi c ?_
      rw [ordinal] at hj
      split at hj
      · next k hk =>
        obtain rfl := Except.ok.inj hj
        exact hk
      · cases hj
    rw [ih hrow, cell, cell, List.getElem?_set_ne hne]

theorem filled_eq_laid (hp : ∀ p ∈ pairs, p.1 ∈ t.columns) (hn : (pairs.map Prod.fst).Nodup) :
    t.filled pairs = laid t.columns pairs := by
  have hl : (laid t.columns pairs).length = t.columns.length := by simp [laid]
  refine List.ext_getElem ((length_filled hp).trans hl.symm) fun i hi hi' => ?_
  have hlt : i < t.columns.length := hl ▸ hi'
  have hcell : (t.filled pairs)[i] = cell (t.filled pairs) i := by simp [cell, hi]
  have hlaid : (laid t.columns pairs)[i] = if t.columns.idxOf? t.columns[i] = some i then
      (pairs.lookup t.columns[i]).getD .null else .null := by simp [laid]
  rw [hcell, hlaid]
  split
  · next hidx => rw [← under_filled hp hn, under, hidx]
  · next hidx =>
    have hno : ∀ c, t.ordinal? c ≠ some i := by
      intro c hc
      have hci : t.columns[i] = c := by
        obtain ⟨_, hbeq, _⟩ := List.findIdx?_eq_some_iff_getElem.1 hc
        exact eq_of_beq hbeq
      exact hidx (hci ▸ hc)
    rw [cell_fillRow (fillRow_emptyRow hp) hno]
    simp [cell, emptyRow, hlt]

theorem mapped_eq (name : String) {mappings : List (Nat × String)}
    (hm : ∀ m ∈ mappings, m.2 ∈ t.columns) : ∃ ordinals, t.mapped name mappings = .ok ordinals := by
  induction mappings with
  | nil => exact ⟨[], rfl⟩
  | cons m mappings ih =>
    rw [List.forall_mem_cons] at hm
    obtain ⟨i, hi⟩ := ordinal?_of_mem hm.1
    obtain ⟨ordinals, ho⟩ := ih hm.2
    refine ⟨(m.1, i) :: ordinals, ?_⟩
    rw [mapped, hi, ho]
    rfl

theorem copyRow_eq {name : String} {mappings : List (Nat × String)} {ordinals : List (Nat × Nat)}
    {read : Nat → Except Error Value} {value : Nat → Value}
    (hm : t.mapped name mappings = .ok ordinals) (hv : ∀ m ∈ mappings, read m.1 = .ok (value m.1)) :
    copyRow row read ordinals = t.fillRow row (mappings.map fun m => (m.2, value m.1)) := by
  induction mappings generalizing row ordinals with
  | nil =>
    obtain rfl := Except.ok.inj hm
    rfl
  | cons m mappings ih =>
    obtain ⟨source, column⟩ := m
    rw [List.forall_mem_cons] at hv
    rw [mapped] at hm
    cases hi : t.ordinal? column with
    | none =>
      rw [hi] at hm
      cases hm
    | some i =>
      rw [hi] at hm
      obtain ⟨others, ho, hm⟩ := bind_eq_ok.1 hm
      obtain rfl := Except.ok.inj hm
      rw [copyRow, hv.1, List.map_cons, fillRow, ordinal_of_ordinal? hi]
      exact ih ho hv.2

end Table

namespace Command

theorem lookup_zipIdx {values : List Value} {j k : Nat} (h : j ≤ k) :
    ((values.zipIdx j).map fun v => (parameterName v.2, v.1)).lookup (parameterName k) =
      values[k - j]? := by
  induction values generalizing j with
  | nil => rfl
  | cons v values ih =>
    rw [List.zipIdx_cons, List.map_cons, List.lookup_cons]
    by_cases hk : k = j
    · subst hk
      simp
    · have hne : (parameterName k == parameterName j) = false := by
        simpa using fun hp => hk (parameterName_injective hp)
      have hsub : k - j = (k - (j + 1)) + 1 := by omega
      rw [hne, ih (by omega), hsub, List.getElem?_cons_succ]

/-- Every numbered parameter stands for its value. -/
theorem values_numbered (sql : Sql) (values : List Value) :
    ((List.range values.length).map parameterName).map
      (fun p => ((ofValues sql values).param? p).getD .null) = values := by
  rw [List.map_map]
  refine List.ext_getElem (by simp) fun k hk hk' => ?_
  have hlookup : (ofValues sql values).param? (parameterName k) = values[k - 0]? :=
    lookup_zipIdx (Nat.zero_le k)
  rw [List.getElem_map, List.getElem_range, Function.comp_apply, hlookup, Nat.sub_zero,
    List.getElem?_eq_getElem hk', Option.getD_some]

end Command

end DocStore
