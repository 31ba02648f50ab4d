import DocStore.Proofs.Predicate.Lowering
import DocStore.Query.Basic
import Mathlib.Data.List.Forall2

/-!
# Several filters

The predicates that are added to a query one after another stand in groups joined by `and`. Where
every predicate on its own is read as a condition, their sequence is read as the conjunction of the
conditions (`foldlM_filter`).
-/

namespace DocStore

/-- The sequence is read as the condition when nothing stands around it. -/
def Whole (s : List Node) (c : Condition) : Prop :=
  ∃ f, Reads s f ∧ (f {}).close = some c

namespace Whole

open Condition

variable {s t : List Node} {c d : Condition}

theorem ofNodes?_eq (h : Whole s c) : ofNodes? s = some c := by
  obtain ⟨f, hf, hc⟩ := h
  exact hf.ofNodes?_eq hc

theorem ne_nil (h : Whole s c) : s ≠ [] := by
  rintro rfl
  have hc := h.ofNodes?_eq
  cases hc

theorem conjoin (hs : Whole s c) (ht : Whole t d) :
    Whole (Query.conjoin s t) (.and c d) := by
  obtain ⟨f, hf, hc⟩ := hs
  obtain ⟨g, hg, hd⟩ := ht
  have hs : s.isEmpty = false := List.isEmpty_eq_false_iff.2 (ne_nil ⟨f, hf, hc⟩)
  have hr := (hf.group hc).and (hg.group hd)
  refine ⟨fun p => (p.push c).push d, ?_, rfl⟩
  simpa only [Query.conjoin, hs, Bool.false_eq_true, if_false, List.append_assoc,
    List.cons_append, List.nil_append] using hr

end Whole

def Truth.all (truths : List Truth) : Truth :=
  truths.foldr .and .yes

theorem Condition.truth_foldl_and (I : Interpretation) (values : String → Value) (c : Condition)
    (cs : List Condition) :
    (cs.foldl .and c).truth I values = (c.truth I values).and (.all (cs.map (truth I values))) := by
  induction cs generalizing c with
  | nil => simp [Truth.all]
  | cons d cs ih =>
    rw [List.foldl_cons, ih, truth, Truth.and_assoc]
    rfl

namespace Query.Builder

variable {b : Builder} {l : Lambda} {ls : List Lambda} {c : Condition} {cs : List Condition}

def Accepts (b : Builder) (l : Lambda) (c : Condition) : Prop :=
  ∃ nodes, Predicate.ofLambda b.schema b.bindings b.mode l = .ok nodes ∧ Whole nodes c

theorem filter_eq {nodes : List Node}
    (h : Predicate.ofLambda b.schema b.bindings b.mode l = .ok nodes) :
    b.filter l =
      .ok { b with query := { b.query with predicate := conjoin b.query.predicate nodes } } := by
  rw [filter, h]
  rfl

theorem foldlM_filter_of_whole (hb : Whole b.query.predicate c)
    (h : List.Forall₂ b.Accepts ls cs) :
    ∃ b', ls.foldlM filter b = .ok b' ∧ Whole b'.query.predicate (cs.foldl .and c) := by
  induction ls generalizing b c cs with
  | nil =>
    cases h
    exact ⟨b, rfl, hb⟩
  | cons l ls ih =>
    cases h with
    | cons hl hls =>
      obtain ⟨nodes, hn, hw⟩ := hl
      rw [List.foldlM_cons, filter_eq hn, List.foldl_cons]
      exact ih (hb.conjoin hw) hls

/-- Filters of a query without a predicate are read as the conjunction of their conditions. -/
theorem foldlM_filter (hb : b.query.predicate = [])
    (h : List.Forall₂ b.Accepts (l :: ls) (c :: cs)) :
    ∃ b', (l :: ls).foldlM filter b = .ok b' ∧
      Whole b'.query.predicate (cs.foldl .and c) := by
  obtain ⟨⟨nodes, hn, hw⟩, hls⟩ := List.forall₂_cons.1 h
  rw [List.foldlM_cons, filter_eq hn]
  refine foldlM_filter_of_whole ?_ hls
  simpa only [hb, conjoin, List.isEmpty_nil, if_true] using hw

end Query.Builder

theorem Predicate.Lowered.accepts {b : Query.Builder} {l : Lambda} {s : List Node}
    {f : Condition.Pending → Condition.Pending} {c : Condition}
    (h : Lowered b.schema b.bindings l.param b.mode l.body s f) (hc : (f {}).close = some c) :
    b.Accepts l c :=
  ⟨complete b.mode s, h.ofLambda_eq, f, h.reads, hc⟩

end DocStore
