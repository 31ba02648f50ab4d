import DocStore.Proofs.Predicate.Condition
import Mathlib.Data.List.Forall2

/-!
# Conditions as functions of their comparisons

`Condition.holds` gives each comparison of a condition a truth of its own, in the order they are
written. Two conditions with the same comparisons that hold under the same assignments have the
same truth for all values (`truth_eq_of_holds_eq`). `Rendered` compares a condition that was read
with the one that was meant, when operands of `and` may have lost their parentheses.
-/

namespace DocStore

abbrev Assignment := Nat → Truth

namespace Assignment

def shift (k : Nat) (t : Assignment) : Assignment :=
  fun n => t (k + n)

def join (k : Nat) (t u : Assignment) : Assignment :=
  fun n => if n < k then t n else u (n - k)

theorem shift_shift (j k : Nat) (t : Assignment) :
    shift k (shift j t) = shift (j + k) t := by
  funext n
  simp only [shift, Nat.add_assoc]

@[simp] theorem shift_join (k : Nat) (t u : Assignment) : shift k (join k t u) = u := by
  funext n
  have hn : ¬k + n < k := by omega
  simp only [shift, join, hn, if_false, Nat.add_sub_cancel_left]

theorem shift_join_join (j k : Nat) (t u v : Assignment) :
    shift (j + k) (join j t (join k u v)) = v := by
  rw [← shift_shift, shift_join, shift_join]

end Assignment

open Assignment

namespace Condition

variable {a b c d : Condition} {t u v w : Assignment}

def comparisons : Condition → List Condition
  | compare left op right => [compare left op right]
  | not c => comparisons c
  | and left right => comparisons left ++ comparisons right
  | or left right => comparisons left ++ comparisons right

def size (c : Condition) : Nat :=
  c.comparisons.length

/-- The truth of a condition when its `n`-th comparison has the truth `t n`. -/
def holds (t : Assignment) : Condition → Truth
  | compare _ _ _ => t 0
  | not c => (holds t c).not
  | and left right => (holds t left).and (holds (shift left.size t) right)
  | or left right => (holds t left).or (holds (shift left.size t) right)

theorem comparisons_and : (and c d).comparisons = c.comparisons ++ d.comparisons := rfl

theorem comparisons_or : (or c d).comparisons = c.comparisons ++ d.comparisons := rfl

theorem holds_not : (not c).holds t = (c.holds t).not := rfl

theorem holds_and : (and c d).holds t = (c.holds t).and (d.holds (shift c.size t)) := rfl

theorem holds_or : (or c d).holds t = (c.holds t).or (d.holds (shift c.size t)) := rfl

theorem size_and : (and c d).size = c.size + d.size :=
  List.length_append

theorem size_or : (or c d).size = c.size + d.size :=
  List.length_append

theorem size_eq (h : c.comparisons = d.comparisons) : c.size = d.size :=
  congrArg List.length h

theorem holds_congr (h : ∀ n < c.size, t n = u n) : c.holds t = c.holds u := by
  induction c generalizing t u with
  | compare => exact h 0 Nat.one_pos
  | not c ih => rw [holds_not, holds_not, ih h]
  | and c d ihc ihd =>
    rw [size_and] at h
    have hc := ihc fun n hn => h n (by omega)
    have hd := ihd fun n hn => h (c.size + n) (by omega)
    rw [holds_and, holds_and, hc]
    exact congrArg _ hd
  | or c d ihc ihd =>
    rw [size_or] at h
    have hc := ihc fun n hn => h n (by omega)
    have hd := ihd fun n hn => h (c.size + n) (by omega)
    rw [holds_or, holds_or, hc]
    exact congrArg _ hd

theorem holds_join {k : Nat} (hk : c.size = k) : c.holds (join k t u) = c.holds t :=
  holds_congr fun _ hn => if_pos (hk ▸ hn)

theorem holds_and_join : (and c d).holds (join c.size t u) = (c.holds t).and (d.holds u) := by
  rw [holds_and, holds_join rfl, shift_join]

theorem holds_or_join : (or c d).holds (join c.size t u) = (c.holds t).or (d.holds u) := by
  rw [holds_or, holds_join rfl, shift_join]

theorem holds_and_or_join : (or (and c a) b).holds (join c.size t (join a.size u v)) =
    ((c.holds t).and (a.holds u)).or (b.holds v) := by
  rw [holds_or, holds_and_join, holds_join rfl, size_and, shift_join_join]

theorem holds_or_and_join : (and (or a b) c).holds (join a.size t (join b.size u v)) =
    ((a.holds t).or (b.holds u)).and (c.holds v) := by
  rw [holds_and, holds_or_join, holds_join rfl, size_or, shift_join_join]

theorem holds_or_and_or_join :
    (or (or a (and b c)) d).holds (join a.size t (join b.size u (join c.size v w))) =
      ((a.holds t).or ((b.holds u).and (c.holds v))).or (d.holds w) := by
  rw [holds_or, holds_or_join, holds_and_join, holds_join rfl, size_or, size_and, ← shift_shift,
    shift_join, shift_join_join]

theorem holds_and_assoc : (and (and a b) c).holds t = (and a (and b c)).holds t := by
  simp only [holds_and, Truth.and_assoc, size_and, shift_shift]

theorem holds_or_assoc : (or (or a b) c).holds t = (or a (or b c)).holds t := by
  simp only [holds_or, Truth.or_assoc, size_or, shift_shift]

def truths (I : Interpretation) (values : String → Value) (cs : List Condition) : Assignment :=
  fun n => (cs[n]?.map (truth I values)).getD .unknown

theorem shift_truths (I : Interpretation) (values : String → Value) (cs ds : List Condition) :
    shift cs.length (truths I values (cs ++ ds)) = truths I values ds := by
  funext n
  rw [shift, truths, List.getElem?_append_right (Nat.le_add_right _ _), Nat.add_sub_cancel_left]
  rfl

theorem truth_eq_holds (I : Interpretation) (values : String → Value) (c : Condition)
    (rest : List Condition) :
    c.truth I values = c.holds (truths I values (c.comparisons ++ rest)) := by
  induction c generalizing rest with
  | compare => rfl
  | not c ih => rw [truth, holds_not, ih rest]; rfl
  | and c d ihc ihd =>
    rw [truth, holds_and, comparisons_and, List.append_assoc, size, shift_truths, ← ihc, ← ihd]
  | or c d ihc ihd =>
    rw [truth, holds_or, comparisons_or, List.append_assoc, size, shift_truths, ← ihc, ← ihd]

theorem truth_eq_of_holds_eq (I : Interpretation) (values : String → Value)
    (hcd : c.comparisons = d.comparisons) (h : ∀ t, c.holds t = d.holds t) :
    c.truth I values = d.truth I values := by
  rw [truth_eq_holds I values c [], truth_eq_holds I values d [], hcd, h]

/-- Every condition can be made true and made false by the truths of its comparisons. -/
theorem exists_holds (c : Condition) : (∃ t, c.holds t = .yes) ∧ ∃ t, c.holds t = .no := by
  induction c with
  | compare => exact ⟨⟨fun _ => .yes, rfl⟩, ⟨fun _ => .no, rfl⟩⟩
  | not c ih =>
    obtain ⟨⟨t, ht⟩, ⟨u, hu⟩⟩ := ih
    exact ⟨⟨u, by rw [holds_not, hu]; rfl⟩, ⟨t, by rw [holds_not, ht]; rfl⟩⟩
  | and c d ihc ihd =>
    obtain ⟨⟨t, ht⟩, ⟨u, hu⟩⟩ := ihc
    obtain ⟨⟨t', ht'⟩, _⟩ := ihd
    -- The comparisons of the sides stand at different positions, so both truths fit together.
    refine ⟨⟨join c.size t t', ?_⟩, ⟨u, by rw [holds_and, hu]; rfl⟩⟩
    rw [holds_and_join, ht, ht']
    rfl
  | or c d ihc ihd =>
    obtain ⟨⟨t, ht⟩, ⟨u, hu⟩⟩ := ihc
    obtain ⟨_, ⟨u', hu'⟩⟩ := ihd
    refine ⟨⟨t, by rw [holds_or, ht]; rfl⟩, ⟨join c.size u u', ?_⟩⟩
    rw [holds_or_join, hu, hu']
    rfl

end Condition

/-- The condition `c` that was read has the comparisons of the condition `d` that was meant, and
holds under the same assignments unless it is `misgrouped`. Both can be made true together, and
both can be made false. -/
structure Rendered (c d : Condition) (misgrouped : Bool) : Prop where
  comparisons_eq : c.comparisons = d.comparisons
  yes : ∃ t, c.holds t = .yes ∧ d.holds t = .yes
  no : ∃ t, c.holds t = .no ∧ d.holds t = .no
  agree : misgrouped = false → ∀ t, c.holds t = d.holds t
  differ : misgrouped = true → ∃ t, c.holds t ≠ d.holds t

namespace Rendered

open Condition

variable {c d c' d' a b : Condition} {x y : Bool}

theorem size_eq (h : Rendered c d x) : c.size = d.size :=
  Condition.size_eq h.comparisons_eq

theorem refl (c : Condition) : Rendered c c false := by
  obtain ⟨⟨t, ht⟩, ⟨u, hu⟩⟩ := c.exists_holds
  exact ⟨rfl, ⟨t, ht, ht⟩, ⟨u, hu, hu⟩, fun _ _ => rfl, nofun⟩

/-- What was read may be grouped in another way that has the same truth. -/
theorem regroup (h : Rendered c d x) (hcs : c'.comparisons = c.comparisons)
    (hc : ∀ t, c'.holds t = c.holds t) : Rendered c' d x where
  comparisons_eq := hcs.trans h.comparisons_eq
  yes := by simpa only [hc] using h.yes
  no := by simpa only [hc] using h.no
  agree := by simpa only [hc] using h.agree
  differ := by simpa only [hc] using h.differ

theorem and_assoc (h : Rendered (.and a (.and b c)) d x) : Rendered (.and (.and a b) c) d x :=
  h.regroup (List.append_assoc _ _ _) fun _ => holds_and_assoc

theorem or_assoc (h : Rendered (.or a (.or b c)) d x) : Rendered (.or (.or a b) c) d x :=
  h.regroup (List.append_assoc _ _ _) fun _ => holds_or_assoc

theorem not (h : Rendered c d x) : Rendered (.not c) (.not d) x where
  comparisons_eq := h.comparisons_eq
  yes := by
    obtain ⟨t, hc, hd⟩ := h.no
    exact ⟨t, by rw [holds_not, hc]; rfl, by rw [holds_not, hd]; rfl⟩
  no := by
    obtain ⟨t, hc, hd⟩ := h.yes
    exact ⟨t, by rw [holds_not, hc]; rfl, by rw [holds_not, hd]; rfl⟩
  agree := fun hx t => by rw [holds_not, holds_not, h.agree hx t]
  differ := by
    intro hx
    obtain ⟨t, ht⟩ := h.differ hx
    refine ⟨t, fun he => ht ?_⟩
    rw [holds_not, holds_not] at he
    rw [← Truth.not_not (c.holds t), he, Truth.not_not]

theorem and (h : Rendered c d x) (h' : Rendered c' d' y) :
    Rendered (.and c c') (.and d d') (x || y) where
  comparisons_eq := by rw [comparisons_and, comparisons_and, h.comparisons_eq, h'.comparisons_eq]
  yes := by
    obtain ⟨t, hc, hd⟩ := h.yes
    obtain ⟨u, hc', hd'⟩ := h'.yes
    refine ⟨join c.size t u, ?_, ?_⟩
    · rw [holds_and_join, hc, hc']
      rfl
    · rw [h.size_eq, holds_and_join, hd, hd']
      rfl
  no := by
    obtain ⟨t, hc, hd⟩ := h.no
    exact ⟨t, by rw [holds_and, hc]; rfl, by rw [holds_and, hd]; rfl⟩
  agree := by
    intro hxy t
    obtain ⟨hx, hy⟩ := Bool.or_eq_false_iff.1 hxy
    rw [holds_and, holds_and, h.size_eq, h.agree hx, h'.agree hy]
  differ := by
    intro hxy
    obtain hx | hy := Bool.or_eq_true_iff.1 hxy
    · obtain ⟨t, ht⟩ := h.differ hx
      obtain ⟨u, hc', hd'⟩ := h'.yes
      refine ⟨join c.size t u, fun he => ht ?_⟩
      rwa [holds_and_join, h.size_eq, holds_and_join, hc', hd', Truth.and_yes,
        Truth.and_yes] at he
    · obtain ⟨u, hu⟩ := h'.differ hy
      obtain ⟨t, hc, hd⟩ := h.yes
      refine ⟨join c.size t u, fun he => hu ?_⟩
      rwa [holds_and_join, h.size_eq, holds_and_join, hc, hd] at he

theorem or (h : Rendered c d x) (h' : Rendered c' d' y) :
    Rendered (.or c c') (.or d d') (x || y) where
  comparisons_eq := by rw [comparisons_or, comparisons_or, h.comparisons_eq, h'.comparisons_eq]
  yes := by
    obtain ⟨t, hc, hd⟩ := h.yes
    exact ⟨t, by rw [holds_or, hc]; rfl, by rw [holds_or, hd]; rfl⟩
  no := by
    obtain ⟨t, hc, hd⟩ := h.no
    obtain ⟨u, hc', hd'⟩ := h'.no
    refine ⟨join c.size t u, ?_, ?_⟩
    · rw [holds_or_join, hc, hc']
      rfl
    · rw [h.size_eq, holds_or_join, hd, hd']
      rfl
  agree := by
    intro hxy t
    obtain ⟨hx, hy⟩ := Bool.or_eq_false_iff.1 hxy
    rw [holds_or, holds_or, h.size_eq, h.agree hx, h'.agree hy]
  differ := by
    intro hxy
    obtain hx | hy := Bool.or_eq_true_iff.1 hxy
    · obtain ⟨t, ht⟩ := h.differ hx
      obtain ⟨u, hc', hd'⟩ := h'.no
      refine ⟨join c.size t u, fun he => ht ?_⟩
      rwa [holds_or_join, h.size_eq, holds_or_join, hc', hd', Truth.or_no, Truth.or_no] at he
    · obtain ⟨u, hu⟩ := h'.differ hy
      obtain ⟨t, hc, hd⟩ := h.no
      refine ⟨join c.size t u, fun he => hu ?_⟩
      rwa [holds_or_join, h.size_eq, holds_or_join, hc, hd] at he

theorem misgrouped (hcs : c.comparisons = d.comparisons)
    (yes : ∃ t, c.holds t = .yes ∧ d.holds t = .yes)
    (no : ∃ t, c.holds t = .no ∧ d.holds t = .no)
    (differ : ∃ t, c.holds t = .yes ∧ d.holds t = .no) : Rendered c d true := by
  refine ⟨hcs, yes, no, nofun, fun _ => ?_⟩
  obtain ⟨t, hc, hd⟩ := differ
  refine ⟨t, ?_⟩
  rw [hc, hd]
  decide

/-- An `or` on the right of an `and` that lost its parentheses. -/
theorem or_right (h : Rendered c d x) (a b : Condition) :
    Rendered (.or (.and c a) b) (.and d (.or a b)) true := by
  obtain ⟨tc, hc, hd⟩ := h.yes
  obtain ⟨uc, hc', hd'⟩ := h.no
  obtain ⟨⟨ta, ha⟩, ⟨ua, ha'⟩⟩ := a.exists_holds
  obtain ⟨⟨tb, hb⟩, ⟨ub, hb'⟩⟩ := b.exists_holds
  have hread := fun t u v => @holds_and_or_join a b c t u v
  have hmeant : ∀ t u v, (Condition.and d (.or a b)).holds (join c.size t (join a.size u v)) =
      (d.holds t).and ((a.holds u).or (b.holds v)) := by
    intro t u v
    rw [h.size_eq, holds_and_join, holds_or_join]
  refine .misgrouped ?_ ⟨_, (hread tc ta tb).trans ?_, (hmeant tc ta tb).trans ?_⟩
    ⟨_, (hread uc ua ub).trans ?_, (hmeant uc ua ub).trans ?_⟩
    ⟨_, (hread uc ua tb).trans ?_, (hmeant uc ua tb).trans ?_⟩
  · simp only [comparisons_and, comparisons_or, h.comparisons_eq, List.append_assoc]
  · rw [hc, ha, hb]
    rfl
  · rw [hd, ha, hb]
    rfl
  · rw [hc', ha', hb']
    rfl
  · rw [hd', ha', hb']
    rfl
  · rw [hc', ha', hb]
    rfl
  · rw [hd', ha', hb]
    rfl

/-- An `or` on the left of an `and` that lost its parentheses. -/
theorem or_left (h : Rendered c d x) (a b : Condition) :
    Rendered (.or a (.and b c)) (.and (.or a b) d) true := by
  obtain ⟨tc, hc, hd⟩ := h.yes
  obtain ⟨uc, hc', hd'⟩ := h.no
  obtain ⟨⟨ta, ha⟩, ⟨ua, ha'⟩⟩ := a.exists_holds
  obtain ⟨⟨tb, hb⟩, ⟨ub, hb'⟩⟩ := b.exists_holds
  have hread : ∀ t u v, (Condition.or a (.and b c)).holds (join a.size t (join b.size u v)) =
      (a.holds t).or ((b.holds u).and (c.holds v)) := by
    intro t u v
    rw [holds_or_join, holds_and_join]
  have hmeant := fun t u v => @holds_or_and_join a b d t u v
  refine .misgrouped ?_ ⟨_, (hread ta tb tc).trans ?_, (hmeant ta tb tc).trans ?_⟩
    ⟨_, (hread ua ub uc).trans ?_, (hmeant ua ub uc).trans ?_⟩
    ⟨_, (hread ta ub uc).trans ?_, (hmeant ta ub uc).trans ?_⟩
  · simp only [comparisons_and, comparisons_or, h.comparisons_eq, List.append_assoc]
  · rw [hc, ha, hb]
    rfl
  · rw [hd, ha, hb]
    rfl
  · rw [hc', ha', hb']
    rfl
  · rw [hd', ha', hb']
    rfl
  · rw [hc', ha, hb']
    rfl
  · rw [hd', ha, hb']
    rfl

/-- An `or` on both sides of an `and` that lost its parentheses. -/
theorem or_both (a b a' b' : Condition) :
    Rendered (.or (.or a (.and b a')) b') (.and (.or a b) (.or a' b')) true := by
  obtain ⟨⟨ta, ha⟩, ⟨ua, na⟩⟩ := a.exists_holds
  obtain ⟨⟨tb, hb⟩, ⟨ub, nb⟩⟩ := b.exists_holds
  obtain ⟨⟨ta', ha'⟩, ⟨ua', na'⟩⟩ := a'.exists_holds
  obtain ⟨⟨tb', hb'⟩, ⟨ub', nb'⟩⟩ := b'.exists_holds
  have hread := fun t u v w => @holds_or_and_or_join a b a' b' t u v w
  have hmeant : ∀ t u v w, (Condition.and (.or a b) (.or a' b')).holds
      (join a.size t (join b.size u (join a'.size v w))) =
        ((a.holds t).or (b.holds u)).and ((a'.holds v).or (b'.holds w)) := by
    intro t u v w
    rw [holds_or_and_join, holds_or_join]
  refine .misgrouped ?_ ⟨_, (hread ta tb ta' tb').trans ?_, (hmeant ta tb ta' tb').trans ?_⟩
    ⟨_, (hread ua ub ua' ub').trans ?_, (hmeant ua ub ua' ub').trans ?_⟩
    ⟨_, (hread ua ub ua' tb').trans ?_, (hmeant ua ub ua' tb').trans ?_⟩
  · simp only [comparisons_and, comparisons_or, List.append_assoc]
  · rw [ha, hb, ha', hb']
    rfl
  · rw [ha, hb, ha', hb']
    rfl
  · rw [na, nb, na', nb']
    rfl
  · rw [na, nb, na', nb']
    rfl
  · rw [na, nb, na', hb']
    rfl
  · rw [na, nb, na', hb']
    rfl

theorem foldl_and {α : Type} {m : α → Condition} {f : α → Bool} {ls : List α}
    {cs : List Condition} (h : Rendered c d x)
    (hs : List.Forall₂ (fun l c => Rendered c (m l) (f l)) ls cs) :
    Rendered (cs.foldl .and c) ((ls.map m).foldl .and d) (x || ls.any f) := by
  induction hs generalizing c d x with
  | nil =>
    rw [List.any_nil, Bool.or_false]
    exact h
  | cons hl _ ih =>
    rw [List.any_cons, ← Bool.or_assoc]
    exact ih (h.and hl)

end Rendered

end DocStore
