import DocStore.Database.RowSource

/-!
# The values of rows under columns

`Table.under` reads a row by the name of a column. Dropping, adding and filling columns are what
they should be for it: every other column of the row keeps its value.
-/

namespace DocStore.Table

/-- The value that a row has under a column, null if there is no such column. -/
def under (columns : List String) (row : List Value) (column : String) : Value :=
  match columns.idxOf? column with
  | some i => cell row i
  | none => .null

variable {columns : List String} {row : List Value} {c d : String} {v : Value} {i : Nat}

theorem under_cons :
    under (d :: columns) (v :: row) c = if c = d then v else under columns row c := by
  by_cases h : c = d
  · subst h
    simp [under, List.idxOf?_cons, cell]
  · have hd : (d == c) = false := by simpa using Ne.symm h
    rw [under, List.idxOf?_cons, hd, if_neg h, under]
    cases columns.idxOf? c with
    | none => rfl
    | some i => simp [cell]

theorem under_of_notMem (h : c ∉ columns) : under columns row c = .null := by
  rw [under, List.idxOf?_eq_none_iff.2 h]

theorem under_set (hc : columns.idxOf? c = some i) (hl : row.length = columns.length) :
    under columns (row.set i v) d = if d = c then v else under columns row d := by
  induction columns generalizing row i with
  | nil => cases hc
  | cons b columns ih =>
    cases row with
    | nil => cases hl
    | cons w row =>
      rw [List.idxOf?_cons] at hc
      by_cases hb : b = c
      · subst hb
        rw [if_pos (by simp)] at hc
        obtain rfl := Option.some.inj hc
        rw [List.set_cons_zero, under_cons, under_cons]
        split <;> rfl
      · rw [if_neg (by simpa using hb)] at hc
        obtain ⟨j, hj, rfl⟩ := Option.map_eq_some_iff.1 hc
        rw [List.set_cons_succ, under_cons, under_cons, ih hj (Nat.succ.inj hl)]
        by_cases hd : d = b
        · subst hd
          simp [hb]
        · simp [hd]

theorem under_nulls (columns : List String) (c : String) :
    under columns (columns.map fun _ => .null) c = .null := by
  induction columns with
  | nil => rfl
  | cons d columns ih =>
    rw [List.map_cons, under_cons, ih]
    split <;> rfl

theorem under_emptyRow (t : Table) (c : String) : under t.columns t.emptyRow c = .null :=
  under_nulls t.columns c

theorem under_append {added : List String} (hl : row.length = columns.length) :
    under (columns ++ added) (row ++ added.map fun _ => .null) c = under columns row c := by
  induction columns generalizing row with
  | nil =>
    obtain rfl := List.length_eq_zero_iff.1 hl
    exact under_nulls added c
  | cons b columns ih =>
    cases row with
    | nil => cases hl
    | cons w row =>
      rw [List.cons_append, List.cons_append, under_cons, under_cons, ih (Nat.succ.inj hl)]

theorem addColumns_eq {t : Table} {added : List String} (hn : added.Nodup)
    (hd : ∀ c ∈ added, c ∉ t.columns) :
    t.addColumns added =
      (.ok (), ⟨t.columns ++ added, t.rows.map fun row => row ++ added.map fun _ => .null⟩) := by
  induction added generalizing t with
  | nil => simp [addColumns]
  | cons c added ih =>
    rw [List.forall_mem_cons] at hd
    obtain ⟨hc, hn⟩ := List.nodup_cons.1 hn
    have hd' : ∀ d ∈ added, d ∉ t.columns ++ [c] := by
      intro d hmem hin
      rcases List.mem_append.1 hin with h | h
      · exact hd.2 d hmem h
      · exact hc (List.mem_singleton.1 h ▸ hmem)
    rw [addColumns, ordinal?, List.idxOf?_eq_none_iff.2 hd.1]
    dsimp only
    rw [ih hn hd']
    simp [List.map_map, Function.comp_def]

def kept (drop : String → Bool) (columns : List String) (row : List Value) : List Value :=
  ((columns.zip row).filter fun c => !drop c.1).map Prod.snd

theorem under_kept {drop : String → Bool} (hl : row.length = columns.length)
    (hc : drop c = false) :
    under (columns.filter fun c => !drop c) (kept drop columns row) c = under columns row c := by
  induction columns generalizing row with
  | nil => rfl
  | cons b columns ih =>
    cases row with
    | nil => cases hl
    | cons w row =>
      have hrest := ih (Nat.succ.inj hl)
      rw [under_cons]
      by_cases hb : drop b = true
      · have hne : c ≠ b := by
          rintro rfl
          rw [hb] at hc
          cases hc
        rw [if_neg hne, ← hrest]
        simp [kept, hb]
      · rw [← hrest]
        simp [kept, hb, under_cons]

theorem length_kept {drop : String → Bool} (hl : row.length = columns.length) :
    (kept drop columns row).length = (columns.filter fun c => !drop c).length := by
  induction columns generalizing row with
  | nil => rfl
  | cons b columns ih =>
    cases row with
    | nil => cases hl
    | cons w row =>
      have hrest := ih (Nat.succ.inj hl)
      by_cases hb : drop b = true
      · simpa [kept, hb] using hrest
      · simpa [kept, hb] using hrest

theorem kept_eq_self {drop : String → Bool} (hl : row.length = columns.length)
    (h : ∀ c ∈ columns, drop c = false) : kept drop columns row = row := by
  induction columns generalizing row with
  | nil =>
    obtain rfl := List.length_eq_zero_iff.1 hl
    rfl
  | cons b columns ih =>
    rw [List.forall_mem_cons] at h
    cases row with
    | nil => cases hl
    | cons w row =>
      have hrest := ih (Nat.succ.inj hl) h.2
      simpa [kept, h.1] using hrest

theorem kept_eraseIdx {drop : String → Bool} {front : List String} {b : String} (hb : drop b = true)
    (hl : row.length = (front ++ b :: columns).length) :
    kept drop (front ++ columns) (row.eraseIdx front.length) =
      kept drop (front ++ b :: columns) row := by
  induction front generalizing row with
  | nil =>
    cases row with
    | nil => cases hl
    | cons w row => simp [kept, hb]
  | cons a front ih =>
    cases row with
    | nil => cases hl
    | cons w row =>
      have hrest := ih (Nat.succ.inj hl)
      by_cases ha : drop a = true
      · simpa [kept, ha] using hrest
      · simpa [kept, ha] using hrest

theorem idxOf?_append {front : List String} (h : c ∉ front) (rest : List String) :
    (front ++ c :: rest).idxOf? c = some front.length := by
  induction front with
  | nil => simp [List.idxOf?_cons]
  | cons a front ih =>
    rw [List.mem_cons, not_or] at h
    rw [List.cons_append, List.idxOf?_cons, if_neg (by simpa using Ne.symm h.1), ih h.2]
    rfl

/-- Columns before the dropped ones stay where they are. -/
theorem dropColumns_append {drop : String → Bool} {front : List String} {rows : List (List Value)}
    (hf : ∀ c ∈ front, drop c = false)
    (hl : ∀ row ∈ rows, row.length = (front ++ columns).length) :
    dropColumns ⟨front ++ columns, rows⟩ (columns.filter drop) =
      (.ok (), ⟨front ++ columns.filter fun c => !drop c,
        rows.map (kept drop (front ++ columns))⟩) := by
  -- `front` are the columns that stay; a dropped one is the first behind them, so that its position
  -- is their number.
  induction columns generalizing front rows with
  | nil =>
    have hrows : rows.map (kept drop (front ++ [])) = rows := by
      rw [List.append_nil] at hl ⊢
      exact (List.map_congr_left fun row hr => kept_eq_self (hl row hr) hf).trans (List.map_id rows)
    rw [hrows]
    rfl
  | cons b columns ih =>
    by_cases hb : drop b = true
    · have hfront : b ∉ front := by
        intro h
        rw [hf b h] at hb
        cases hb
      have herase : (front ++ b :: columns).eraseIdx front.length = front ++ columns := by
        rw [List.eraseIdx_append_of_length_le (Nat.le_refl _), Nat.sub_self,
          List.eraseIdx_cons_zero]
      have hl' : ∀ row ∈ rows.map fun row => row.eraseIdx front.length,
          row.length = (front ++ columns).length := by
        intro row hr
        obtain ⟨row, hrow, rfl⟩ := List.mem_map.1 hr
        have hlen := hl row hrow
        simp only [List.length_append, List.length_cons] at hlen ⊢
        rw [List.length_eraseIdx_of_lt (by omega)]
        omega
      have hrows : (rows.map fun row => row.eraseIdx front.length).map
          (kept drop (front ++ columns)) = rows.map (kept drop (front ++ b :: columns)) := by
        rw [List.map_map]
        exact List.map_congr_left fun row hr => kept_eraseIdx hb (hl row hr)
      rw [List.filter_cons_of_pos hb, dropColumns, ordinal?, idxOf?_append hfront]
      dsimp only
      rw [herase, ih hf hl', hrows, List.filter_cons_of_neg (by simp [hb])]
    · have hb : drop b = false := Bool.eq_false_iff.2 hb
      have hf' : ∀ c ∈ front ++ [b], drop c = false := by
        intro c hc
        rcases List.mem_append.1 hc with h | h
        · exact hf c h
        · exact List.mem_singleton.1 h ▸ hb
      have hcons : front ++ b :: columns = front ++ [b] ++ columns := by simp
      rw [List.filter_cons_of_neg (by simp [hb]), List.filter_cons_of_pos (by simp [hb]), hcons]
      rw [hcons] at hl
      rw [ih hf' hl, List.append_assoc]
      rfl

theorem dropColumns_filter {t : Table} (hl : ∀ row ∈ t.rows, row.length = t.columns.length)
    (drop : String → Bool) :
    t.dropColumns (t.columns.filter drop) =
      (.ok (), ⟨t.columns.filter fun c => !drop c, t.rows.map (kept drop t.columns)⟩) :=
  @dropColumns_append t.columns drop [] t.rows nofun hl

/-- Dropping columns depends on the columns only, whatever the rows are. -/
theorem dropColumns_rows {dropped : List String} {rows rows' : List (List Value)} {t : Table}
    (h : dropColumns ⟨columns, rows⟩ dropped = (.ok (), t)) :
    ∃ t', dropColumns ⟨columns, rows'⟩ dropped = (.ok (), t') ∧ t'.columns = t.columns := by
  induction dropped generalizing columns rows rows' with
  | nil =>
    cases h
    exact ⟨⟨columns, rows'⟩, rfl, rfl⟩
  | cons c dropped ih =>
    rw [dropColumns] at h ⊢
    cases hi : ordinal? ⟨columns, rows⟩ c with
    | none =>
      rw [hi] at h
      cases h
    | some i =>
      have hi' : ordinal? ⟨columns, rows'⟩ c = some i := hi
      rw [hi] at h
      rw [hi']
      exact ih h

theorem dropColumns_columns (t : Table) (drop : String → Bool) :
    ∃ t', t.dropColumns (t.columns.filter drop) = (.ok (), t') ∧
      t'.columns = t.columns.filter fun c => !drop c :=
  dropColumns_rows (dropColumns_filter (t := ⟨t.columns, []⟩) nofun drop)

theorem columns_of_addColumns {t t' : Table} {added : List String}
    (h : t.addColumns added = (.ok (), t')) : t'.columns = t.columns ++ added := by
  induction added generalizing t with
  | nil =>
    cases h
    exact (List.append_nil _).symm
  | cons c added ih =>
    rw [addColumns] at h
    split at h
    · cases h
    · rw [ih h, List.append_assoc]
      rfl

end DocStore.Table
