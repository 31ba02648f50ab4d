import DocStore.Proofs.Schema.Accepted
import DocStore.Sql.Definition
import Mathlib.Data.List.Nodup

/-!
# Names of tables and columns

The default naming gives plain column names, and the tables of a structure type have plain names
that differ in their endings.
-/

namespace DocStore

def ColumnNaming.IsPlain (naming : ColumnNaming) : Prop :=
  ∀ path, Schema.isPath path = true → Plain (naming path)

namespace ColumnName

theorem isNameChar_digit (n : Nat) : Schema.isNameChar (Hex.digit n) = true := by
  have h : ∀ m < 16, Schema.isNameChar (Nat.digitChar m) = true := by decide
  exact h _ (Nat.mod_lt n (by decide))

theorem isNameChar_digits {count n : Nat} {c : Char} (h : c ∈ Hex.digits count n) :
    Schema.isNameChar c = true := by
  induction count generalizing n with
  | zero => cases h
  | succ count ih =>
    rcases List.mem_cons.1 h with rfl | h
    · exact isNameChar_digit _
    · exact ih h

theorem isNameChar_flat {path : String} (h : Schema.isPath path = true) {c : Char}
    (hc : c ∈ flat path) : Schema.isNameChar c = true := by
  obtain ⟨d, hd, rfl⟩ := List.mem_map.1 hc
  split
  · decide
  · next hdot => exact (Schema.mem_of_isPath h hd).resolve_left hdot

/-- The default naming of valid paths is plain, whatever the limit. -/
theorem plain_ofPath (maxLength : Nat) {path : String} (h : Schema.isPath path = true) :
    Plain (ofPath maxLength path) := by
  have hne : flat path ≠ [] := by
    rw [flat, Ne, List.map_eq_nil_iff]
    exact Statement.toList_ne_nil (Schema.ne_empty_of_isPath h)
  rw [ofPath]
  split
  · refine plain_of_isNameChar ?_ (List.all_eq_true.2 ?_)
    · intro he
      exact hne (by simpa using congrArg String.toList he)
    · intro c hc
      rw [String.toList_ofList] at hc
      exact isNameChar_flat h hc
  · refine plain_of_isNameChar ?_ (List.all_eq_true.2 ?_)
    · intro he
      have hl := congrArg String.toList he
      simp at hl
    · intro c hc
      rw [String.toList_ofList, List.mem_append] at hc
      rcases hc with hc | hc
      · exact isNameChar_flat h (List.mem_of_mem_take hc)
      · rcases List.mem_cons.1 hc with rfl | hc
        · decide
        · exact isNameChar_digits hc

theorem isPlain_ofPath (maxLength : Nat) : (ofPath maxLength).IsPlain :=
  fun _ h => plain_ofPath maxLength h

end ColumnName

theorem ColumnNaming.IsPlain.definable_memberColumns {naming : ColumnNaming} {schema : Schema}
    (hn : naming.IsPlain) (h : schema.Accepted) :
    ∀ c ∈ Definition.memberColumns naming schema, Definable c.name := by
  intro c hc
  obtain ⟨a, ha, rfl⟩ := List.mem_map.1 hc
  exact (hn _ (h.isPath_of_mem ha)).definable

namespace TableName

def all (name : String) : List String :=
  body name :: uniques name :: IndexTable.all.map (index name) ++ [memberColumns name]

def endings : List String :=
  "Structure" :: "Uniques" :: IndexTable.all.map IndexTable.suffix ++ ["Indexes"]

theorem all_eq_map_endings (name : String) : all name = endings.map (name ++ ·) :=
  rfl

theorem append_inj {name s t : String} (h : name ++ s = name ++ t) : s = t := by
  have hl := congrArg String.toList h
  rw [String.toList_append, String.toList_append] at hl
  exact String.toList_inj.1 (List.append_cancel_left hl)

theorem quotable_append {name ending : String} (h : Schema.isIdentifier name.toList = true)
    (he : ']' ∉ ending.toList) : Quotable (name ++ ending) := by
  refine ⟨?_, ?_⟩
  · intro hn
    have hl := congrArg String.toList hn
    rw [String.toList_append] at hl
    have hnil : name.toList = [] := (List.append_eq_nil_iff.1 hl).1
    rw [hnil] at h
    cases h
  · rw [String.toList_append, List.mem_append, not_or]
    refine ⟨fun hin => ?_, he⟩
    have hc := Schema.mem_of_isIdentifier h hin
    exact absurd hc (by decide)

theorem nodup_all (name : String) : (all name).Nodup := by
  have hinjective : Function.Injective (name ++ ·) := fun _ _ => append_inj
  rw [all_eq_map_endings]
  exact List.Nodup.map hinjective (by decide)

/-- No ending ends in another one, so that a table's name tells its type. -/
theorem eq_of_append_endings {name other s t : String} (hs : s ∈ endings) (ht : t ∈ endings)
    (h : name ++ s = other ++ t) : name = other := by
  have hsuffix : ∀ s ∈ endings, ∀ t ∈ endings, t.toList <:+ s.toList → s = t := by decide
  have hl := congrArg String.toList h
  rw [String.toList_append, String.toList_append] at hl
  have hst : s = t := by
    obtain ⟨front, -, hend⟩ | ⟨front, -, hend⟩ := List.append_eq_append_iff.1 hl
    · exact hsuffix s hs t ht ⟨front, hend.symm⟩
    · exact (hsuffix t ht s hs ⟨front, hend.symm⟩).symm
  subst hst
  exact String.toList_inj.1 (List.append_cancel_right hl)

theorem disjoint_all {name other : String} (h : name ≠ other) :
    (all name).Disjoint (all other) := by
  rw [all_eq_map_endings, all_eq_map_endings]
  intro table hname hother
  obtain ⟨s, hs, rfl⟩ := List.mem_map.1 hname
  obtain ⟨t, ht, heq⟩ := List.mem_map.1 hother
  exact h (eq_of_append_endings hs ht heq.symm)

variable {name : String} (h : Schema.isIdentifier name.toList = true)

include h

theorem quotable_of_mem_all {table : String} (ht : table ∈ all name) : Quotable table := by
  have hendings : ∀ s ∈ endings, ']' ∉ s.toList := by decide
  rw [all_eq_map_endings] at ht
  obtain ⟨s, hs, rfl⟩ := List.mem_map.1 ht
  exact quotable_append h (hendings s hs)

theorem quotable_body : Quotable (body name) :=
  quotable_append h (by decide)

theorem quotable_uniques : Quotable (uniques name) :=
  quotable_append h (by decide)

theorem quotable_index (t : IndexTable) : Quotable (index name t) :=
  quotable_append h (by cases t <;> decide)

theorem quotable_memberColumns : Quotable (memberColumns name) :=
  quotable_append h (by decide)

omit h

theorem append_ne {s t : String} (h : s ≠ t) : name ++ s ≠ name ++ t :=
  fun he => h (append_inj he)

theorem index_inj {s t : IndexTable} (h : index name s = index name t) : s = t := by
  have hs := append_inj h
  revert hs
  cases s <;> cases t <;> decide

theorem body_ne_index (t : IndexTable) : body name ≠ index name t :=
  append_ne (by cases t <;> decide)

theorem uniques_ne_index (t : IndexTable) : uniques name ≠ index name t :=
  append_ne (by cases t <;> decide)

theorem memberColumns_ne_index (t : IndexTable) : memberColumns name ≠ index name t :=
  append_ne (by cases t <;> decide)

theorem body_ne_uniques : body name ≠ uniques name :=
  append_ne (by decide)

theorem body_ne_memberColumns : body name ≠ memberColumns name :=
  append_ne (by decide)

theorem uniques_ne_memberColumns : uniques name ≠ memberColumns name :=
  append_ne (by decide)

end TableName

end DocStore
