import DocStore.Predicate.Completion

/-!
# Completing pieces of a sequence

Both passes look at neighbouring nodes only, and only comparison operators join a member to its
neighbours. Where no member stands beside a comparison operator at the border of two sequences, each
is completed on its own (`complete_append`).
-/

namespace DocStore.Predicate

def endsWithComparison : List Node → Bool
  | [] => false
  | [n] => n.isComparison
  | _ :: n :: rest => endsWithComparison (n :: rest)

def endsWithMember : List Node → Bool
  | [] => false
  | [n] => n.isMember
  | _ :: n :: rest => endsWithMember (n :: rest)

/-- Two sequences at whose border no member stands beside a comparison operator. -/
structure Apart (s t : List Node) : Prop where
  ends : endsWithComparison s = false
  border : startsWithComparison t = false ∨ endsWithMember s = false

structure Enclosed (s : List Node) : Prop where
  starts : startsWithComparison s = false
  ends : endsWithComparison s = false

theorem startsWithComparison_append {s t : List Node} (ht : startsWithComparison t = false) :
    startsWithComparison (s ++ t) = startsWithComparison s := by
  cases s with
  | nil => exact ht
  | cons n rest => rfl

theorem endsWithComparison_append {s t : List Node} (hs : endsWithComparison s = false) :
    endsWithComparison (s ++ t) = endsWithComparison t := by
  induction s with
  | nil => rfl
  | cons n rest ih =>
    cases rest with
    | nil =>
      cases t with
      | nil => exact hs
      | cons m t => rfl
    | cons m rest => exact ih hs

namespace Enclosed

variable {s t : List Node}

theorem append (hs : Enclosed s) (ht : Enclosed t) : Enclosed (s ++ t) :=
  ⟨(startsWithComparison_append ht.starts).trans hs.starts,
    (endsWithComparison_append hs.ends).trans ht.ends⟩

theorem cons {n : Node} (hn : n.isComparison = false) (hs : Enclosed s) : Enclosed (n :: s) :=
  append (s := [n]) ⟨hn, hn⟩ hs

theorem group (hs : Enclosed s) : Enclosed (.startGroup :: s ++ [.endGroup]) :=
  (cons (n := .startGroup) rfl hs).append ⟨rfl, rfl⟩

theorem joined (hs : Enclosed s) {op : Operator} (hop : op.isComparison = false)
    (ht : Enclosed t) : Enclosed (s ++ .operator op :: t) :=
  hs.append (cons (n := .operator op) hop ht)

end Enclosed

theorem Apart.tail {n : Node} {s t : List Node} (h : Apart (n :: s) t) : Apart s t := by
  cases s with
  | nil => exact ⟨rfl, .inr rfl⟩
  | cons k rest => exact ⟨h.ends, h.border⟩

/-- Whether a boolean member is followed by a comparison operator is not changed behind the
border. -/
theorem Apart.isPlainBoolean_and {n : Node} {s t : List Node} (h : Apart (n :: s) t) :
    (isPlainBoolean n && !startsWithComparison (s ++ t)) =
      (isPlainBoolean n && !startsWithComparison s) := by
  cases s with
  | nil =>
    rcases h.border with ht | hn
    · rw [List.nil_append, ht]
      rfl
    · have hboolean : isPlainBoolean n = false := by
        cases n with
        | member m => cases hn
        | _ => rfl
      rw [hboolean, Bool.false_and, Bool.false_and]
  | cons k rest => rfl

theorem completeBooleansFrom_append {s t : List Node} {compared : Bool} (h : Apart s t)
    (hc : s = [] → compared = false) :
    completeBooleansFrom compared (s ++ t) =
      completeBooleansFrom compared s ++ completeBooleansFrom false t := by
  induction s generalizing compared with
  | nil => rw [hc rfl]; rfl
  | cons n rest ih =>
    have hlast : rest = [] → n.isComparison = false := by
      rintro rfl
      exact h.ends
    simp only [List.cons_append, completeBooleansFrom, h.isPlainBoolean_and,
      ih h.tail (fun _ => rfl), ih h.tail hlast]
    split <;> rfl

theorem startsWithComparison_completeBooleansFrom (compared : Bool) (s : List Node) :
    startsWithComparison (completeBooleansFrom compared s) = startsWithComparison s := by
  cases s with
  | nil => rfl
  | cons n rest =>
    simp only [completeBooleansFrom]
    split <;> rfl

theorem endsWithComparison_cons {n m : Node} {s : List Node} :
    endsWithComparison (n :: m :: s) = endsWithComparison (m :: s) := rfl

theorem completeBooleansFrom_ne_nil (compared : Bool) (n : Node) (s : List Node) :
    ∃ m t, completeBooleansFrom compared (n :: s) = m :: t := by
  simp only [completeBooleansFrom]
  split <;> exact ⟨_, _, rfl⟩

theorem endsWithComparison_completeBooleansFrom (compared : Bool) (s : List Node) :
    endsWithComparison (completeBooleansFrom compared s) = endsWithComparison s := by
  induction s generalizing compared with
  | nil => rfl
  | cons n rest ih =>
    cases rest with
    | nil =>
      simp only [completeBooleansFrom]
      split
      · next h => cases n <;> simp_all [isPlainBoolean, endsWithComparison, Node.isComparison]
      · rfl
    | cons m rest =>
      rw [endsWithComparison_cons, ← ih false, completeBooleansFrom]
      obtain ⟨k, t, hk⟩ := completeBooleansFrom_ne_nil false m rest
      obtain ⟨k', t', hk'⟩ := completeBooleansFrom_ne_nil n.isComparison m rest
      split
      · simp only [hk, endsWithComparison_cons]
      · rw [hk', endsWithComparison_cons, ← hk', ih, ← ih false]

theorem endsWithMember_completeBooleansFrom (compared : Bool) {s : List Node}
    (h : endsWithMember s = false) : endsWithMember (completeBooleansFrom compared s) = false := by
  induction s generalizing compared with
  | nil => rfl
  | cons n rest ih =>
    cases rest with
    | nil =>
      cases n with
      | member m => cases h
      | _ => exact h
    | cons m rest =>
      obtain ⟨k, t, hk⟩ := completeBooleansFrom_ne_nil false m rest
      obtain ⟨k', t', hk'⟩ := completeBooleansFrom_ne_nil n.isComparison m rest
      rw [completeBooleansFrom]
      split
      · have hrest := ih false h
        rw [hk] at hrest ⊢
        exact hrest
      · have hrest := ih n.isComparison h
        rw [hk'] at hrest ⊢
        exact hrest

theorem Apart.completeBooleans {s t : List Node} (h : Apart s t) :
    Apart (completeBooleans s) (completeBooleans t) where
  ends := (endsWithComparison_completeBooleansFrom false s).trans h.ends
  border := h.border.imp (startsWithComparison_completeBooleansFrom false t).trans
    (endsWithMember_completeBooleansFrom false)

theorem completeBooleans_append {s t : List Node} (h : Apart s t) :
    completeBooleans (s ++ t) = completeBooleans s ++ completeBooleans t :=
  completeBooleansFrom_append h fun _ => rfl

variable {mode : HasValueMode}

def IsPlain : Node → Prop
  | .member m => m.hasValue = false
  | _ => True

/-- The sequence begins with what a check for a value takes in. -/
def startsWithFlag : List Node → Bool
  | .operator op :: .value (.boolean _) :: _ => op = .equal ∨ op = .notEqual
  | _ => false

theorem completeHasValue_of_not_member {n : Node} (h : n.isMember = false) (s : List Node) :
    completeHasValue mode (n :: s) = n :: completeHasValue mode s := by
  cases n with
  | member m => cases h
  | _ => rfl

theorem completeHasValue_cons {n : Node} (h : IsPlain n) (s : List Node) :
    completeHasValue mode (n :: s) = n :: completeHasValue mode s := by
  cases n with
  | member m =>
    have hm : m.hasValue = false := h
    rw [completeHasValue.eq_def]
    split
    · next he => cases he
    · next he =>
      cases he
      simp only [hm, Bool.false_eq_true, if_false]
      rw [completeHasValue_of_not_member rfl, completeHasValue_of_not_member rfl]
    · next he =>
      cases he
      simp only [hm, Bool.false_eq_true, if_false]
  | _ => rfl

theorem completeHasValue_flag {m : MemberRef} (h : m.hasValue = true) {op : Operator}
    (hop : op = .equal ∨ op = .notEqual) (flag : Bool) (s : List Node) :
    completeHasValue mode (.member m :: .operator op :: .value (.boolean flag) :: s) =
      nullCheck m (mode.meansNull op flag) ++ completeHasValue mode s := by
  rw [completeHasValue, if_pos h, if_pos hop]

theorem completeHasValue_check {m : MemberRef} {s : List Node} (h : m.hasValue = true)
    (hs : startsWithFlag s = false) :
    completeHasValue mode (.member m :: s) = nullCheck m false ++ completeHasValue mode s := by
  rw [completeHasValue.eq_def]
  split
  · next he => cases he
  · next m' op flag rest he =>
    cases he
    have hop : ¬ (op = .equal ∨ op = .notEqual) := by simpa [startsWithFlag] using hs
    simp only [h, if_true, hop, if_false]
    rw [completeHasValue_of_not_member rfl, completeHasValue_of_not_member rfl]
  · next he =>
    cases he
    simp only [h, if_true]

theorem startsWithFlag_of_startsWithComparison {s : List Node}
    (h : startsWithComparison s = false) : startsWithFlag s = false := by
  unfold startsWithFlag
  split
  · next op flag rest =>
    have hop : op.isComparison = false := h
    cases op <;> simp_all [Operator.isComparison]
  · rfl

theorem Apart.startsWithFlag_append {m : MemberRef} {s t : List Node}
    (h : Apart (.member m :: s) t) : startsWithFlag (s ++ t) = startsWithFlag s := by
  cases s with
  | nil => exact startsWithFlag_of_startsWithComparison (h.border.resolve_right nofun)
  | cons n s =>
    cases s with
    | nil =>
      have h : startsWithComparison ([n] ++ t) = false := h.ends
      rw [startsWithFlag_of_startsWithComparison h]
      cases n <;> rfl
    | cons k rest =>
      cases n with
      | operator op =>
        cases k with
        | value v => cases v <;> rfl
        | _ => rfl
      | _ => rfl

/-- A sequence that begins so is a comparison operator, a boolean and the rest. -/
theorem exists_of_startsWithFlag {s : List Node} (h : startsWithFlag s = true) :
    ∃ op flag rest, s = .operator op :: .value (.boolean flag) :: rest ∧
      (op = .equal ∨ op = .notEqual) := by
  unfold startsWithFlag at h
  split at h
  · exact ⟨_, _, _, rfl, by simpa using h⟩
  · cases h

/-- Induction by what the pass takes in at once: a node that stays, a check with the boolean it is
compared with, or a check on its own. -/
@[elab_as_elim]
theorem completeHasValue_induction {motive : List Node → Prop} (nil : motive [])
    (plain : ∀ n s, IsPlain n → motive s → motive (n :: s))
    (flag : ∀ m op flag s, m.hasValue = true → (op = .equal ∨ op = .notEqual) → motive s →
      motive (.member m :: .operator op :: .value (.boolean flag) :: s))
    (check : ∀ m s, m.hasValue = true → startsWithFlag s = false → motive s →
      motive (.member m :: s))
    (s : List Node) : motive s :=
  match s with
  | [] => nil
  | n :: rest => by
    by_cases hp : IsPlain n
    · exact plain n rest hp (completeHasValue_induction nil plain flag check rest)
    · obtain ⟨m, rfl, hm⟩ : ∃ m, n = .member m ∧ m.hasValue = true := by
        cases n <;> simp_all [IsPlain]
      cases hf : startsWithFlag rest with
      | true =>
        obtain ⟨op, b, tail, rfl, hop⟩ := exists_of_startsWithFlag hf
        exact flag m op b tail hm hop (completeHasValue_induction nil plain flag check tail)
      | false => exact check m rest hm hf (completeHasValue_induction nil plain flag check rest)
  termination_by s.length

theorem completeHasValue_append {s t : List Node} (h : Apart s t) :
    completeHasValue mode (s ++ t) = completeHasValue mode s ++ completeHasValue mode t := by
  induction s using completeHasValue_induction with
  | nil => rfl
  | plain n s hn ih =>
    rw [List.cons_append, completeHasValue_cons hn, completeHasValue_cons hn, ih h.tail,
      List.cons_append]
  | flag m op b s hm hop ih =>
    simp only [List.cons_append, completeHasValue_flag hm hop, ih h.tail.tail.tail,
      List.append_assoc]
  | check m s hm hs ih =>
    rw [List.cons_append, completeHasValue_check hm hs,
      completeHasValue_check hm (h.startsWithFlag_append.trans hs), ih h.tail, List.append_assoc]

theorem completeHasValue_ne_nil (n : Node) (s : List Node) :
    completeHasValue mode (n :: s) ≠ [] := by
  rw [completeHasValue.eq_def]
  split
  · next h => cases h
  all_goals (split <;> (try split) <;> exact nofun)

theorem complete_ne_nil {s : List Node} (h : s ≠ []) : complete mode s ≠ [] := by
  cases s with
  | nil => exact absurd rfl h
  | cons n rest =>
    obtain ⟨m, t, ht⟩ := completeBooleansFrom_ne_nil false n rest
    rw [complete, completeBooleans, ht]
    exact completeHasValue_ne_nil m t

theorem complete_append {s t : List Node} (h : Apart s t) :
    complete mode (s ++ t) = complete mode s ++ complete mode t := by
  rw [complete, completeBooleans_append h, completeHasValue_append h.completeBooleans]
  rfl

theorem complete_cons {n : Node} (hn : n.isMember = false) (hc : n.isComparison = false)
    {s : List Node} (hs : startsWithComparison s = false) :
    complete mode (n :: s) = n :: complete mode s := by
  have h : complete mode [n] = [n] := by
    cases n with
    | member m => cases hn
    | _ => rfl
  have happart : Apart [n] s := ⟨hc, .inl hs⟩
  rw [← List.singleton_append, complete_append happart, h, List.singleton_append]

theorem complete_joined {s t : List Node} (hs : Enclosed s) {op : Operator}
    (hop : op.isComparison = false) (ht : Enclosed t) :
    complete mode (s ++ .operator op :: t) =
      complete mode s ++ .operator op :: complete mode t := by
  have happart : Apart s (.operator op :: t) := ⟨hs.ends, .inl hop⟩
  rw [complete_append happart, complete_cons (n := .operator op) rfl hop ht.starts]

theorem complete_group {s : List Node} (hs : Enclosed s) :
    complete mode (.startGroup :: s ++ [.endGroup]) =
      .startGroup :: complete mode s ++ [.endGroup] := by
  have hc : Enclosed (.startGroup :: s) := hs.cons rfl
  have happart : Apart (.startGroup :: s) [.endGroup] := ⟨hc.ends, .inl rfl⟩
  rw [complete_append happart, complete_cons rfl rfl hs.starts]
  rfl

theorem complete_not_group {s : List Node} (hs : Enclosed s) :
    complete mode (.operator .not :: .startGroup :: s ++ [.endGroup]) =
      .operator .not :: .startGroup :: complete mode s ++ [.endGroup] := by
  rw [List.cons_append, complete_cons rfl rfl rfl, complete_group hs]
  rfl

/-- A member that is compared with something stays as it is. -/
theorem complete_triple {m : MemberRef} {op : Operator} {n : Node} (hm : m.hasValue = false)
    (hop : op.isComparison = true) (hn : IsPlain n) :
    complete mode [.member m, .operator op, n] = [.member m, .operator op, n] := by
  have hb : completeBooleans [.member m, .operator op, n] = [.member m, .operator op, n] := by
    simp [completeBooleans, completeBooleansFrom, startsWithComparison, Node.isComparison, hop,
      isPlainBoolean]
  rw [complete, hb, completeHasValue_cons (n := .member m) hm,
    completeHasValue_cons (n := .operator op) trivial, completeHasValue_cons hn]
  rfl

theorem complete_boolean {m : MemberRef} (hb : m.isBoolean = true) (hm : m.hasValue = false) :
    complete mode [.member m] = [.member m, .operator .equal, .value (.boolean true)] := by
  have hc : completeBooleans [.member m] =
      [.member m, .operator .equal, .value (.boolean true)] := by
    simp [completeBooleans, completeBooleansFrom, isPlainBoolean, hb, hm, startsWithComparison]
  rw [complete, hc, completeHasValue_cons (n := .member m) hm]
  rfl

theorem complete_check {m : MemberRef} (hm : m.hasValue = true) :
    complete mode [.member m] = nullCheck m false := by
  have hc : completeBooleans [.member m] = [.member m] := by
    simp [completeBooleans, completeBooleansFrom, isPlainBoolean, hm]
  rw [complete, hc, completeHasValue_check hm rfl]
  rfl

theorem complete_flag {m : MemberRef} {op : Operator} (hm : m.hasValue = true)
    (hop : op = .equal ∨ op = .notEqual) (flag : Bool) :
    complete mode [.member m, .operator op, .value (.boolean flag)] =
      nullCheck m (mode.meansNull op flag) := by
  have hc : completeBooleans [.member m, .operator op, .value (.boolean flag)] =
      [.member m, .operator op, .value (.boolean flag)] := by
    simp [completeBooleans, completeBooleansFrom, isPlainBoolean, hm]
  rw [complete, hc, completeHasValue_flag hm hop]
  rfl

/-- The sequence begins with a group, a negation, or a member that is compared with something. -/
def startsWithCondition : List Node → Bool
  | .startGroup :: _ | .operator .not :: _ => true
  | .member _ :: rest => startsWithComparison rest
  | _ => false

/-- Sequences that are completed on their own beside comparison operators, too. -/
structure Compound (s : List Node) : Prop where
  enclosed : Enclosed s
  first : startsWithCondition s = true
  last : endsWithMember s = false

theorem endsWithMember_append {s t : List Node} (ht : t ≠ []) :
    endsWithMember (s ++ t) = endsWithMember t := by
  induction s with
  | nil => rfl
  | cons n rest ih =>
    cases hrest : rest ++ t with
    | nil => exact absurd (List.append_eq_nil_iff.1 hrest).2 ht
    | cons m others =>
      rw [hrest] at ih
      rw [List.cons_append, hrest]
      exact ih

namespace Compound

variable {s t : List Node}

theorem group (hs : Enclosed s) : Compound (.startGroup :: s ++ [.endGroup]) :=
  ⟨hs.group, rfl, endsWithMember_append (List.cons_ne_nil _ _)⟩

theorem not_group (hs : Enclosed s) :
    Compound (.operator .not :: .startGroup :: s ++ [.endGroup]) :=
  ⟨hs.group.cons rfl, rfl, endsWithMember_append (List.cons_ne_nil _ _)⟩

theorem triple {m : MemberRef} {op : Operator} {n : Node} (hop : op.isComparison = true)
    (hm : n.isMember = false) (hn : n.isComparison = false) :
    Compound [.member m, .operator op, n] :=
  ⟨⟨rfl, hn⟩, hop, hm⟩

theorem joined (hs : Compound s) {op : Operator} (hop : op.isComparison = false)
    (ht : Compound t) : Compound (s ++ .operator op :: t) where
  enclosed := hs.enclosed.joined hop ht.enclosed
  first := by
    cases s with
    | nil => exact absurd hs.first nofun
    | cons n rest =>
      cases n with
      | member m =>
        cases rest with
        | nil => exact absurd hs.first nofun
        | cons k rest => exact hs.first
      | operator o => cases o <;> first | rfl | exact absurd hs.first nofun
      | _ => exact hs.first
  last := by
    rw [endsWithMember_append (List.cons_ne_nil _ _)]
    cases t with
    | nil => rfl
    | cons n rest => exact ht.last

/-- Nothing changes in front of a comparison operator. -/
theorem complete_append (hs : Compound s) (t : List Node) :
    complete mode (s ++ t) = complete mode s ++ complete mode t :=
  Predicate.complete_append ⟨hs.enclosed.ends, .inr hs.last⟩

/-- Nothing changes behind a comparison operator. -/
theorem complete_cons (hs : Compound s) {op : Operator} (hop : op.isComparison = true) :
    complete mode (.operator op :: s) = .operator op :: complete mode s := by
  have hcompared : completeBooleansFrom true s = completeBooleansFrom false s := by
    cases s with
    | nil => rfl
    | cons n rest =>
      cases n with
      | member m =>
        have hrest : startsWithComparison rest = true := hs.first
        simp only [completeBooleansFrom, hrest, Bool.not_true, Bool.and_false, Bool.false_and]
      | _ => rfl
  have hbooleans : completeBooleans (.operator op :: s) = .operator op :: completeBooleans s := by
    change .operator op :: completeBooleansFrom op.isComparison s = _
    rw [hop, hcompared]
    rfl
  rw [complete, hbooleans]
  rfl

end Compound

/-- What a member completes to in front of a comparison operator, unless it takes that in. -/
def completeMember (m : MemberRef) : List Node :=
  if m.hasValue then nullCheck m false else [.member m]

theorem startsWithFlag_completeBooleans (s : List Node) :
    startsWithFlag (completeBooleans s) = startsWithFlag s := by
  cases s with
  | nil => rfl
  | cons n rest =>
    cases n with
    | operator op =>
      cases rest with
      | nil => rfl
      | cons k rest =>
        cases k with
        | member m =>
          change startsWithFlag (.operator op :: completeBooleansFrom _ (.member m :: rest)) = _
          rw [completeBooleansFrom]
          split <;> rfl
        | value v => cases v <;> rfl
        | _ => rfl
    | member m =>
      rw [completeBooleans, completeBooleansFrom]
      split <;> rfl
    | _ => rfl

theorem complete_member {m : MemberRef} {s : List Node} (hs : startsWithComparison s = true)
    (h : m.hasValue = true → startsWithFlag s = false) :
    complete mode (.member m :: s) = completeMember m ++ complete mode s := by
  have hb : completeBooleans (.member m :: s) = .member m :: completeBooleans s := by
    rw [completeBooleans, completeBooleansFrom, hs, Bool.not_true, Bool.and_false, Bool.false_and]
    rfl
  rw [complete, hb]
  cases hm : m.hasValue with
  | true =>
    have hflag := (startsWithFlag_completeBooleans s).trans (h hm)
    rw [completeHasValue_check hm hflag, completeMember, if_pos hm]
    rfl
  | false =>
    rw [completeHasValue_cons (n := .member m) hm, completeMember, hm]
    rfl

theorem complete_compared {m : MemberRef} {op : Operator} (hop : op.isComparison = true) :
    complete mode [.operator op, .member m] = .operator op :: completeMember m := by
  have hb : completeBooleans [.operator op, .member m] = [.operator op, .member m] := by
    simp [completeBooleans, completeBooleansFrom, isPlainBoolean, Node.isComparison, hop]
  rw [complete, hb, completeHasValue_cons (n := .operator op) trivial]
  cases hm : m.hasValue with
  | true =>
    rw [completeHasValue_check hm rfl, completeMember, if_pos hm]
    rfl
  | false =>
    rw [completeHasValue_cons (n := .member m) hm, completeMember, hm]
    rfl

/-- What follows a comparison operator is not taken in by a check for a value in front of it. -/
theorem Compound.startsWithFlag_cons {s : List Node} (hs : Compound s) (op : Operator) :
    startsWithFlag (.operator op :: s) = false := by
  cases s with
  | nil => rfl
  | cons n rest =>
    cases n with
    | value v => exact absurd hs.first nofun
    | _ => rfl

end DocStore.Predicate
