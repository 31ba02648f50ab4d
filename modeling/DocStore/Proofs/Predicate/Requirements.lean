import DocStore.Proofs.Predicate.Grammar

/-!
# What conditions require

A sequence with its own parentheses is a condition only if its parts are: both sides of `and` and
`or`, and what is negated. What ends a condition is no operand, not even in a group, so a comparison
has no condition on either side (`Side.related`, `Side.followed`).
-/

namespace DocStore

namespace Grammar

open Reading

variable {s t : List Terminal} {p p' : Prop} {op : Operator} {a : Terminal} {q : Reading}

/-- The sequence is a condition, where one may begin, only if `p` holds. -/
def Requires (s : List Terminal) (p : Prop) : Prop :=
  ∃ f, Effect s f ∧ ∀ q, Expects q → f q = done → p

/-- The sequence is a condition or nothing, and is no operand of a comparison. -/
def NoOperand (s : List Terminal) : Prop :=
  ∃ f, Effect s f ∧ f related = failed ∧ ∀ q, Expects q → f q = done ∨ f q = failed

theorem Derivable.requires (h : Derivable s) (hp : p) : Requires s p := by
  obtain ⟨f, hf, -⟩ := h.effect
  exact ⟨f, hf, fun _ _ _ => hp⟩

theorem Derivable.noOperand (h : Derivable s) : NoOperand s := by
  obtain ⟨f, hf, hc⟩ := h.effect
  refine ⟨f, hf, hc.related, ?_⟩
  rintro q (rfl | rfl)
  · exact .inl hc.start
  · exact .inl hc.next

/-- What has been read behind `and` or `or`, which stand behind conditions only. -/
theorem step_logical (hop : op = .and ∨ op = .or) (q : Reading) :
    q.step (.operator op) = failed ∨ q = done ∧ q.step (.operator op) = next := by
  rcases hop with rfl | rfl <;> cases q <;> first | exact .inl rfl | exact .inr ⟨rfl, rfl⟩

theorem close_eq_done {inner : Reading} (hq : Expects q) (h : inner.close q = done) :
    inner = done := by
  rcases hq with rfl | rfl
  all_goals
    cases inner with
    | done => rfl
    | operand column whole => cases whole <;> cases h
    | _ => cases h

theorem behind_step_operator (q : Reading) (op : Operator) : Behind (q.step (.operator op)) := by
  cases q with
  | operand column whole => cases op <;> cases column <;> exact ⟨nofun, nofun⟩
  | _ => cases op <;> exact ⟨nofun, nofun⟩

namespace Requires

theorem of_derivable (h : Requires s p) (hd : Derivable s) : p := by
  obtain ⟨f, hf, hp⟩ := h
  obtain ⟨g, hg, hc⟩ := hd.effect
  obtain rfl := hf.unique hg
  exact hp start (.inl rfl) hc.start

theorem mono (h : Requires s p) (hp : p → p') : Requires s p' := by
  obtain ⟨f, hf, h⟩ := h
  exact ⟨f, hf, fun q hq hdone => hp (h q hq hdone)⟩

/-- No token alone is a condition. -/
theorem single (ho : a ≠ .opening) (hc : a ≠ .closing) : Requires [a] p := by
  refine ⟨_, .single ho hc, ?_⟩
  rintro q (rfl | rfl) h
  all_goals
    cases a with
    | operator op => cases op <;> cases h
    | _ => cases h

theorem group (h : Requires s p) : Requires (.opening :: s ++ [.closing]) p := by
  obtain ⟨f, hf, hp⟩ := h
  exact ⟨_, hf.group, fun q hq hdone => hp start (.inl rfl) (close_eq_done hq hdone)⟩

theorem not_group (h : Requires s p) :
    Requires (.operator .not :: .opening :: s ++ [.closing]) p := by
  obtain ⟨f, hf, hp⟩ := h
  refine ⟨_, hf.group.cons nofun nofun, fun q hq hdone => hp start (.inl rfl) ?_⟩
  have hnegated : q.step (.operator .not) = negated := by
    rcases hq with rfl | rfl <;> rfl
  simp only [hnegated] at hdone
  change (if f start = done then done else failed) = done at hdone
  split at hdone
  · assumption
  · cases hdone

theorem joined (hop : op = .and ∨ op = .or) (hs : Requires s p) (ht : Requires t p') :
    Requires (s ++ .operator op :: t) (p ∧ p') := by
  obtain ⟨f, hf, hp⟩ := hs
  obtain ⟨g, hg, hp'⟩ := ht
  refine ⟨_, hf.joined hg op, fun q hq hdone => ?_⟩
  obtain hfailed | ⟨hfirst, hnext⟩ := step_logical hop (f q)
  · rw [hfailed, hg.failed_eq] at hdone
    cases hdone
  · rw [hnext] at hdone
    exact ⟨hp q hq hfirst, hp' next (.inr rfl) hdone⟩

end Requires

namespace NoOperand

/-- Behind an operator nothing is an operand that is all of its group. -/
theorem group {f g : Reading → Reading} (hf : Effect s f) (hg : Effect t g) (op : Operator) :
    NoOperand (.opening :: (s ++ .operator op :: t) ++ [.closing]) := by
  refine ⟨_, (hf.joined hg op).group, ?_, ?_⟩
  all_goals
    obtain ⟨-, hwhole⟩ := hg.behind (behind_step_operator (f start) op)
    generalize g ((f start).step (.operator op)) = inner at hwhole ⊢
  · cases inner with
    | operand column whole =>
      cases whole with
      | true => exact absurd rfl (hwhole column)
      | false => rfl
    | _ => rfl
  · rintro q (rfl | rfl)
    all_goals
      cases inner with
      | done => exact .inl rfl
      | operand column whole =>
        cases whole with
        | true => exact absurd rfl (hwhole column)
        | false => exact .inr rfl
      | _ => exact .inr rfl

theorem not_group {f : Reading → Reading} (hf : Effect s f) :
    NoOperand (.operator .not :: .opening :: s ++ [.closing]) := by
  refine ⟨_, hf.group.cons nofun nofun, rfl, ?_⟩
  rintro q (rfl | rfl)
  all_goals
    change (if f start = done then done else failed) = done ∨
      (if f start = done then done else failed) = failed
    split
    · exact .inl rfl
    · exact .inr rfl

end NoOperand

inductive Side (p : Prop) : List Terminal → Prop
  | column (hp : p) : Side p [.column]
  | other {s : List Terminal} (h : NoOperand s) : Side p s

namespace Side

theorem effect (h : Side p s) : ∃ f, Effect s f := by
  cases h with
  | column => exact ⟨_, .single nofun nofun⟩
  | other h =>
    obtain ⟨f, hf, -⟩ := h
    exact ⟨f, hf⟩

/-- What is no operand has no reading in front of a comparison operator. -/
theorem step_failed_of_other {f : Reading → Reading} (hop : op.isComparison = true)
    (hf : f q = done ∨ f q = failed) : (f q).step (.operator op) = failed := by
  rcases hf with h | h
  · rw [h, done_step hop]
  · rw [h, step_failed]

theorem single_column : Effect [.column] (·.step .column) :=
  .single nofun nofun

theorem step_column (hq : Expects q) (op : Operator) :
    (q.step .column).step (.operator op) = relate op true := by
  rcases hq with rfl | rfl <;> rfl

/-- A comparison of two sides requires columns. -/
theorem related (hop : relates op = true) (hs : Side p s) (ht : Side p' t) :
    Requires (s ++ .operator op :: t) (p ∧ p') := by
  cases hs with
  | other hs =>
    obtain ⟨f, hf, -, hexpects⟩ := hs
    obtain ⟨g, hg⟩ := ht.effect
    refine ⟨_, hf.joined hg op, fun q hq hdone => ?_⟩
    rw [step_failed_of_other (isComparison_of_relates hop) (hexpects q hq),
      hg.failed_eq] at hdone
    cases hdone
  | column hp =>
    cases ht with
    | column hp' => exact ⟨_, single_column.joined single_column op, fun _ _ _ => ⟨hp, hp'⟩⟩
    | other ht =>
      obtain ⟨g, hg, hrelated, -⟩ := ht
      refine ⟨_, single_column.joined hg op, fun q hq hdone => ?_⟩
      have hrelate : relate op true = Reading.related := if_pos hop
      rw [step_column hq, hrelate, hrelated] at hdone
      cases hdone

/-- Only a column is followed by a comparison operator and by what fits it. -/
theorem followed (hop : op.isComparison = true) (ho : a ≠ .opening) (hc : a ≠ .closing)
    (hs : Side p s) :
    ∃ f, Effect (s ++ [.operator op, a]) f ∧ f Reading.related = failed ∧
      ∀ q, Expects q → f q = failed ∨ f q = done ∧ p ∧ (relate op true).step a = done := by
  have ha : Effect [a] (·.step a) := .single ho hc
  cases hs with
  | other hs =>
    obtain ⟨f, hf, hrelated, hexpects⟩ := hs
    refine ⟨_, hf.joined ha op, ?_, fun q hq => .inl ?_⟩
    · rw [hrelated, step_failed, step_failed]
    · rw [step_failed_of_other hop (hexpects q hq), step_failed]
  | column hp =>
    refine ⟨_, single_column.joined ha op, ?_, fun q hq => ?_⟩
    · change (done.step (.operator op)).step a = failed
      rw [done_step hop, step_failed]
    · rw [step_column hq]
      have hdone : (relate op true).step a = failed ∨ (relate op true).step a = done := by
        cases op <;> cases a <;> first | exact .inl rfl | exact .inr rfl
      exact hdone.imp_right fun h => ⟨h, hp, h⟩

theorem requires (hop : op.isComparison = true) (ho : a ≠ .opening) (hc : a ≠ .closing)
    (hs : Side p s) : Requires (s ++ [.operator op, a]) (p ∧ (relate op true).step a = done) := by
  obtain ⟨f, hf, -, hexpects⟩ := hs.followed hop ho hc
  refine ⟨f, hf, fun q hq hdone => ?_⟩
  obtain hfailed | ⟨-, h⟩ := hexpects q hq
  · rw [hfailed] at hdone
    cases hdone
  · exact h

theorem noOperand (hop : op.isComparison = true) (ho : a ≠ .opening) (hc : a ≠ .closing)
    (hs : Side p s) : NoOperand (s ++ [.operator op, a]) := by
  obtain ⟨f, hf, hrelated, hexpects⟩ := hs.followed hop ho hc
  exact ⟨f, hf, hrelated, fun q hq => (hexpects q hq).symm.imp_left And.left⟩

end Side

end Grammar

end DocStore
