import DocStore.Proofs.Predicate.Completion

/-!
# Completed sequences

Each pass leaves a sequence in which it finds nothing to do: no boolean member stands alone behind
the first, no check for a value is left behind the second. Neither pass changes what the other one
looks at, so their order does not matter.
-/

namespace DocStore.Predicate

variable {mode : HasValueMode} {compared : Bool} {s : List Node}

/-- A boolean member that is no check for a value stands on neither side of a comparison. -/
def HasLoneBoolean (s : List Node) : Prop :=
  ∃ before n after, s = before ++ n :: after ∧ isPlainBoolean n = true ∧
    endsWithComparison before = false ∧ startsWithComparison after = false

def loneBooleanFrom (compared : Bool) : List Node → Bool
  | [] => false
  | n :: rest =>
    isPlainBoolean n && !startsWithComparison rest && !compared ||
      loneBooleanFrom n.isComparison rest

theorem loneBooleanFrom_iff (first : Node) (s : List Node) :
    loneBooleanFrom first.isComparison s = true ↔
      ∃ before n after, s = before ++ n :: after ∧ isPlainBoolean n = true ∧
        endsWithComparison (first :: before) = false ∧ startsWithComparison after = false := by
  induction s generalizing first with
  | nil =>
    refine iff_of_false nofun ?_
    rintro ⟨before, n, after, hs, -⟩
    exact List.append_ne_nil_of_right_ne_nil before (List.cons_ne_nil n after) hs.symm
  | cons k rest ih =>
    simp only [loneBooleanFrom, Bool.or_eq_true, Bool.and_eq_true, Bool.not_eq_true', ih k]
    constructor
    · rintro (⟨⟨hk, hrest⟩, hfirst⟩ | ⟨before, n, after, rfl, hn, hbefore, hafter⟩)
      · exact ⟨[], k, rest, rfl, hk, hfirst, hrest⟩
      · exact ⟨k :: before, n, after, rfl, hn, hbefore, hafter⟩
    · rintro ⟨before, n, after, hs, hn, hbefore, hafter⟩
      cases before with
      | nil =>
        obtain ⟨rfl, rfl⟩ := List.cons.inj hs
        exact .inl ⟨⟨hn, hafter⟩, hbefore⟩
      | cons m before =>
        obtain ⟨rfl, rfl⟩ := List.cons.inj hs
        exact .inr ⟨before, n, after, rfl, hn, hbefore, hafter⟩

theorem hasLoneBoolean_iff : HasLoneBoolean s ↔ loneBooleanFrom false s = true := by
  have hends (before : List Node) :
      endsWithComparison (.startGroup :: before) = endsWithComparison before := by
    cases before <;> rfl
  have h := loneBooleanFrom_iff .startGroup s
  simp only [hends] at h
  exact h.symm

theorem completeBooleansFrom_of_loneBooleanFrom (h : loneBooleanFrom compared s = false) :
    completeBooleansFrom compared s = s := by
  induction s generalizing compared with
  | nil => rfl
  | cons n rest ih =>
    obtain ⟨hn, hrest⟩ := Bool.or_eq_false_iff.1 h
    rw [completeBooleansFrom, hn, if_neg Bool.false_ne_true, ih hrest]

/-- A member that was alone stands before a comparison operator afterwards. -/
theorem loneBooleanFrom_completeBooleansFrom (compared : Bool) (s : List Node) :
    loneBooleanFrom compared (completeBooleansFrom compared s) = false := by
  induction s generalizing compared with
  | nil => rfl
  | cons n rest ih =>
    rw [completeBooleansFrom]
    split
    · have hstarts : startsWithComparison
          (.operator .equal :: .value (.boolean true) :: completeBooleansFrom false rest) = true :=
        rfl
      rw [loneBooleanFrom, hstarts, Bool.not_true, Bool.and_false, Bool.false_and, Bool.false_or]
      exact ih false
    · next hn =>
      rw [loneBooleanFrom, startsWithComparison_completeBooleansFrom, ih, Bool.or_false]
      exact eq_false_of_ne_true hn

theorem not_hasLoneBoolean_completeBooleans (s : List Node) :
    ¬ HasLoneBoolean (completeBooleans s) := by
  rw [hasLoneBoolean_iff, completeBooleans, loneBooleanFrom_completeBooleansFrom]
  exact Bool.false_ne_true

/-- The first pass changes exactly the sequences in which a boolean member stands alone. -/
theorem completeBooleans_eq_self_iff : completeBooleans s = s ↔ ¬ HasLoneBoolean s := by
  constructor
  · intro h
    rw [← h]
    exact not_hasLoneBoolean_completeBooleans s
  · intro h
    exact completeBooleansFrom_of_loneBooleanFrom
      (eq_false_of_ne_true (mt hasLoneBoolean_iff.2 h))

theorem isPlain_of_mem_nullCheck {m : MemberRef} {isNull : Bool} :
    ∀ n ∈ nullCheck m isNull, IsPlain n := by
  intro n hn
  simp only [nullCheck, List.mem_cons, List.not_mem_nil, or_false] at hn
  obtain rfl | rfl | rfl := hn
  · rfl
  · trivial
  · trivial

theorem completeHasValue_of_isPlain (h : ∀ n ∈ s, IsPlain n) : completeHasValue mode s = s := by
  induction s with
  | nil => rfl
  | cons n rest ih =>
    obtain ⟨hn, hrest⟩ := List.forall_mem_cons.1 h
    rw [completeHasValue_cons hn, ih hrest]

theorem isPlain_of_mem_completeHasValue (mode : HasValueMode) (s : List Node) :
    ∀ n ∈ completeHasValue mode s, IsPlain n := by
  induction s using completeHasValue_induction with
  | nil => exact List.forall_mem_nil _
  | plain n s hn ih =>
    rw [completeHasValue_cons hn]
    exact List.forall_mem_cons.2 ⟨hn, ih⟩
  | flag m op flag s hm hop ih =>
    rw [completeHasValue_flag hm hop]
    exact List.forall_mem_append.2 ⟨isPlain_of_mem_nullCheck, ih⟩
  | check m s hm hs ih =>
    rw [completeHasValue_check hm hs]
    exact List.forall_mem_append.2 ⟨isPlain_of_mem_nullCheck, ih⟩

/-- The second pass changes exactly the sequences with a check for a value. -/
theorem completeHasValue_eq_self_iff : completeHasValue mode s = s ↔ ∀ n ∈ s, IsPlain n :=
  ⟨fun h => h ▸ isPlain_of_mem_completeHasValue mode s, completeHasValue_of_isPlain⟩

theorem startsWithComparison_completeHasValue (mode : HasValueMode) (s : List Node) :
    startsWithComparison (completeHasValue mode s) = startsWithComparison s := by
  induction s using completeHasValue_induction with
  | nil => rfl
  | plain n s hn ih =>
    rw [completeHasValue_cons hn]
    rfl
  | flag m op flag s hm hop ih =>
    rw [completeHasValue_flag hm hop]
    rfl
  | check m s hm hs ih =>
    rw [completeHasValue_check hm hs]
    rfl

/-- A check is not completed, and what follows it is completed as at the beginning of a sequence. -/
theorem completeBooleansFrom_check {m : MemberRef} (hm : m.hasValue = true) (compared : Bool)
    (s : List Node) :
    completeBooleansFrom compared (.member m :: s) = .member m :: completeBooleans s := by
  simp [completeBooleansFrom, completeBooleans, isPlainBoolean, Node.isComparison, hm]

/-- The member of a comparison with null is not alone. -/
theorem completeBooleansFrom_nullCheck (compared : Bool) (m : MemberRef) (isNull : Bool)
    (s : List Node) :
    completeBooleansFrom compared (nullCheck m isNull ++ s) =
      nullCheck m isNull ++ completeBooleans s := by
  have hop : (if isNull then Operator.is else .isNot).isComparison = true := by
    cases isNull <;> rfl
  simp [nullCheck, completeBooleansFrom, completeBooleans, isPlainBoolean, startsWithComparison,
    Node.isComparison, hop]

theorem completeHasValue_completeBooleansFrom (mode : HasValueMode) (compared : Bool)
    (s : List Node) :
    completeHasValue mode (completeBooleansFrom compared s) =
      completeBooleansFrom compared (completeHasValue mode s) := by
  induction s using completeHasValue_induction generalizing compared with
  | nil => rfl
  | plain n s hn ih =>
    rw [completeHasValue_cons hn, completeBooleansFrom, completeBooleansFrom,
      startsWithComparison_completeHasValue]
    split
    · rw [completeHasValue_cons hn, completeHasValue_cons (n := .operator .equal) trivial,
        completeHasValue_cons (n := .value _) trivial, ih]
    · rw [completeHasValue_cons hn, ih]
  | flag m op flag s hm hop ih =>
    rw [completeBooleansFrom_check hm, completeHasValue_flag hm hop,
      completeBooleansFrom_nullCheck]
    exact (completeHasValue_flag hm hop flag _).trans (congrArg _ (ih false))
  | check m s hm hs ih =>
    have hflag := (startsWithFlag_completeBooleans s).trans hs
    rw [completeBooleansFrom_check hm, completeHasValue_check hm hflag,
      completeHasValue_check hm hs, completeBooleansFrom_nullCheck]
    exact congrArg _ (ih false)

/-- Either pass has nothing left to do behind itself, in whatever mode, and the two passes may be
exchanged. What the first one has to do are boolean members that stand alone, and what the second
one has to do are checks for a value. -/
theorem passes_idempotent_and_commute (mode again : HasValueMode) (s : List Node) :
    completeBooleans (completeBooleans s) = completeBooleans s ∧
      completeHasValue again (completeHasValue mode s) = completeHasValue mode s ∧
      completeHasValue mode (completeBooleans s) = completeBooleans (completeHasValue mode s) ∧
      (completeBooleans s = s ↔ ¬ HasLoneBoolean s) ∧
      (completeHasValue mode s = s ↔ ∀ n ∈ s, IsPlain n) :=
  ⟨completeBooleans_eq_self_iff.2 (not_hasLoneBoolean_completeBooleans s),
    completeHasValue_eq_self_iff.2 (isPlain_of_mem_completeHasValue mode s),
    completeHasValue_completeBooleansFrom mode false s,
    completeBooleans_eq_self_iff, completeHasValue_eq_self_iff⟩

end DocStore.Predicate
