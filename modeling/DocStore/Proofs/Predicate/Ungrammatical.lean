import DocStore.Proofs.Predicate.Grammatical
import DocStore.Proofs.Predicate.Requirements

/-!
# Predicates outside the grammar

The nodes of an accepted predicate are in the grammar only if the predicate is grammatical. The walk
of the predicate is followed by induction. Beside what a sequence requires as a condition, each step
keeps what its nodes are as a side of a comparison: a member, or a sequence that is completed on its
own and is no operand. A check for a value, a method, a negation and a group are of the second kind.
-/

namespace DocStore.Predicate

open Grammar

variable {schema : Schema} {bindings : Bindings} {parameter : String} {mode : HasValueMode}
  {e l r side : Expr} {m : MemberRef} {v : Value} {op : BinaryOp} {o : Operator} {n : Node}
  {s t : List Node} {p p' : Prop}

inductive IsConstant : Node → Prop
  | value (v : Value) : IsConstant (.value v)
  | null : IsConstant .null

namespace IsConstant

theorem ofValue (v : Value) : IsConstant (.ofValue v) := by
  unfold Node.ofValue
  split
  · exact .null
  · exact .value v

theorem isMember_eq (h : IsConstant n) : n.isMember = false := by
  cases h <;> rfl

theorem isComparison_eq (h : IsConstant n) : n.isComparison = false := by
  cases h <;> rfl

theorem terminal_ne (h : IsConstant n) : n.terminal ≠ .opening ∧ n.terminal ≠ .closing := by
  cases h with
  | value v => cases v <;> exact ⟨nofun, nofun⟩
  | null => exact ⟨nofun, nofun⟩

theorem complete_eq (h : IsConstant n) : complete mode [n] = [n] :=
  complete_cons h.isMember_eq h.isComparison_eq rfl

theorem complete_pair (h : IsConstant n) (o : Operator) :
    complete mode [.operator o, n] = [.operator o, n] := by
  cases h <;> rfl

end IsConstant

/-- What holds of the nodes of a binary expression: they are a condition only if `p` holds, and no
operand in a group. -/
structure Judged (mode : HasValueMode) (s : List Node) (p : Prop) : Prop where
  enclosed : Enclosed s
  requires : Requires (terminals (complete mode s)) p
  grouped : NoOperand (.opening :: terminals (complete mode s) ++ [.closing])

theorem Wellformed.judged (h : Wellformed mode s) (hp : p) : Judged mode s p :=
  ⟨h.enclosed, h.derivable.requires hp, (h.derivable.group).noOperand⟩

theorem Judged.joined {logical : Operator} (ho : logical? op = some logical) (hs : Enclosed s)
    (hrs : Requires (terminals (complete mode s)) p) (ht : Enclosed t)
    (hrt : Requires (terminals (complete mode t)) p') :
    Judged mode (s ++ .operator logical :: t) (p ∧ p') := by
  have hop : logical = .and ∨ logical = .or := by
    cases op <;> cases ho
    · exact .inl rfl
    · exact .inr rfl
  have hc : terminals (complete mode (s ++ .operator logical :: t)) =
      terminals (complete mode s) ++ .operator logical :: terminals (complete mode t) := by
    rw [complete_joined hs (isComparison_of_logical? ho) ht, terminals_joined]
  refine ⟨hs.joined (isComparison_of_logical? ho) ht, ?_, ?_⟩
  · rw [hc]
    exact hrs.joined hop hrt
  · obtain ⟨f, hf, -⟩ := hrs
    obtain ⟨g, hg, -⟩ := hrt
    rw [hc]
    exact .group hf hg logical

/-- The nodes of an expression that depends on the item: a member, or a sequence that is completed
on its own beside a comparison operator and is no operand. -/
inductive SideNodes (schema : Schema) (parameter : String) (mode : HasValueMode) (e : Expr) :
    List Node → Prop
  | member {m : MemberRef} (he : MemberRef.ofExpr schema parameter e = .ok m) :
    SideNodes schema parameter mode e [.member m]
  | compound {s : List Node} (hc : Compound (operand e s))
    (hn : NoOperand (terminals (complete mode (operand e s)))) : SideNodes schema parameter mode e s

theorem side_completeMember (he : MemberRef.ofExpr schema parameter e = .ok m) :
    Side (IsMember schema parameter e) (terminals (completeMember m)) := by
  unfold completeMember
  cases hm : m.hasValue with
  | true => exact .other (derivable_nullCheck m false).noOperand
  | false => exact .column ⟨m, he, hm⟩

namespace SideNodes

variable (h : SideNodes schema parameter mode e s)

include h

theorem operand_ne_nil : operand e s ≠ [] := by
  cases h with
  | member he =>
    rw [operand_of_ofExpr he]
    exact List.cons_ne_nil _ _
  | compound hc =>
    intro hnil
    have hfirst := hc.first
    rw [hnil] at hfirst
    cases hfirst

theorem enclosed : Enclosed (operand e s) := by
  cases h with
  | member he =>
    rw [operand_of_ofExpr he]
    exact ⟨rfl, rfl⟩
  | compound hc => exact hc.enclosed

/-- Nothing that depends on the item begins with a boolean. -/
theorem startsWithFlag_cons (o : Operator) :
    startsWithFlag (.operator o :: operand e s) = false := by
  cases h with
  | member he =>
    rw [operand_of_ofExpr he]
    rfl
  | compound hc => exact hc.startsWithFlag_cons o

theorem complete_append (ht : startsWithComparison t = true)
    (hf : IsCheck schema parameter e → startsWithFlag t = false) :
    ∃ s', complete mode (operand e s ++ t) = s' ++ complete mode t ∧
      Side (IsMember schema parameter e) (terminals s') := by
  cases h with
  | @member m he =>
    rw [operand_of_ofExpr he]
    exact ⟨_, complete_member ht fun hm => hf ⟨m, he, hm⟩, side_completeMember he⟩
  | compound hc hn => exact ⟨_, hc.complete_append t, .other hn⟩

theorem complete_cons (ho : o.isComparison = true) :
    ∃ s', complete mode (.operator o :: operand e s) = .operator o :: s' ∧
      Side (IsMember schema parameter e) (terminals s') := by
  cases h with
  | member he =>
    rw [operand_of_ofExpr he]
    exact ⟨_, complete_compared ho, side_completeMember he⟩
  | compound hc hn => exact ⟨_, hc.complete_cons ho, .other hn⟩

end SideNodes

/-- A binary expression is a side of a comparison as a group. -/
theorem Judged.sideNodes (h : Judged mode s p) (he : e.isBinary = true) :
    SideNodes schema parameter mode e s := by
  have hoperand : operand e s = .startGroup :: s ++ [.endGroup] := if_pos he
  refine .compound ?_ ?_
  · rw [hoperand]
    exact .group h.enclosed
  · rw [hoperand, complete_group h.enclosed, terminals_group]
    exact h.grouped

theorem Enclosed.related (hs : Enclosed s) (hns : s ≠ []) (ht : Enclosed t) (hnt : t ≠ [])
    (o : Operator) : Enclosed (s ++ .operator o :: t) where
  starts := by
    cases s with
    | nil => exact absurd rfl hns
    | cons n s => exact hs.starts
  ends := by
    rw [endsWithComparison_append hs.ends]
    cases t with
    | nil => exact absurd rfl hnt
    | cons n t => exact ht.ends

/-- A comparison of two expressions that depend on the item requires members. -/
theorem Judged.related (ho : comparison? op = some o)
    (hl : SideNodes schema parameter mode l s) (hr : SideNodes schema parameter mode r t) :
    Judged mode (operand l s ++ .operator o :: operand r t)
      (IsMember schema parameter l ∧ IsMember schema parameter r) := by
  have hcomparison := isComparison_of_comparison? ho
  obtain ⟨s', hs', hside⟩ := hl.complete_append (t := .operator o :: operand r t) hcomparison
    fun _ => hr.startsWithFlag_cons o
  obtain ⟨t', ht', hside'⟩ := hr.complete_cons hcomparison
  have hc : terminals (complete mode (operand l s ++ .operator o :: operand r t)) =
      terminals s' ++ .operator o :: terminals t' := by
    rw [hs', ht', terminals_joined]
  refine ⟨hl.enclosed.related hl.operand_ne_nil hr.enclosed hr.operand_ne_nil o, ?_, ?_⟩
  · rw [hc]
    exact hside.related (relates_of_comparison? ho) hside'
  · obtain ⟨f, hf⟩ := hside.effect
    obtain ⟨g, hg⟩ := hside'.effect
    rw [hc]
    exact .group hf hg o

/-- A comparison with a value or null requires a member and that they fit. -/
theorem Judged.followed (hs : SideNodes schema parameter mode side s)
    (ho : o.isComparison = true) (hn : IsConstant n)
    (hf : IsCheck schema parameter side → startsWithFlag [.operator o, n] = false) :
    Judged mode (operand side s ++ [.operator o, n])
      (IsMember schema parameter side ∧ (Reading.relate o true).step n.terminal = .done) := by
  obtain ⟨s', hs', hside⟩ := hs.complete_append (t := [.operator o, n]) ho hf
  have hc : terminals (complete mode (operand side s ++ [.operator o, n])) =
      terminals s' ++ [.operator o, n.terminal] := by
    rw [hs', hn.complete_pair, terminals_joined]
    rfl
  have henclosed : Enclosed [n] := ⟨hn.isComparison_eq, hn.isComparison_eq⟩
  obtain ⟨hopening, hclosing⟩ := hn.terminal_ne
  refine ⟨hs.enclosed.related hs.operand_ne_nil henclosed nofun o, ?_, ?_⟩
  · rw [hc]
    exact hside.requires ho hopening hclosing
  · obtain ⟨f, hf⟩ := hside.effect
    rw [hc]
    exact .group hf (.single hopening hclosing) o

theorem Grammatical.wellformed (h : Grammatical schema bindings parameter e)
    (hv : visit schema bindings parameter e = .ok s) : Wellformed mode s := by
  obtain ⟨s', hs', hw⟩ := h.lowersTo mode
  rw [hv] at hs'
  cases hs'
  exact hw

theorem fold_of_constant? (h : constant? bindings e = .ok (some v)) : e.fold bindings = .ok v := by
  unfold constant? at h
  split at h
  · next hv =>
    cases h
    exact hv
  · cases h
  · cases h

/-- What a member is compared with, if it is a constant. -/
theorem comparedWith_cases (h : comparedWith e op v = .ok t) :
    (v = .null ∧ (op = .equal ∨ op = .notEqual) ∧
      t = [.operator (if op = .equal then .is else .isNot), .null]) ∨
    v ≠ .null ∧ ∃ o, comparison? op = some o ∧ t = [.operator o, .value v] := by
  unfold comparedWith at h
  split at h
  · next hv =>
    obtain rfl := (Value.isNull_iff v).1 hv
    split at h
    · cases h
      exact .inl ⟨rfl, .inl rfl, rfl⟩
    · cases h
      exact .inl ⟨rfl, .inr rfl, rfl⟩
    · cases h
  · next hv =>
    refine .inr ⟨fun hnull => hv ((Value.isNull_iff v).2 hnull), ?_⟩
    split at h
    · next o ho =>
      cases h
      exact ⟨o, ho, rfl⟩
    · cases h

/-- Only a list does not fit an operator that relates operands. -/
theorem ne_list_of_step (ho : relates o = true)
    (h : (Reading.relate o true).step (Node.value v).terminal = .done) :
    ∀ items, v ≠ .list items := by
  rintro items rfl
  have hrelate : Reading.relate o true = .related := if_pos ho
  rw [hrelate] at h
  cases h

theorem Judged.mono (h : Judged mode s p) (hp : p → p') : Judged mode s p' :=
  ⟨h.enclosed, h.requires.mono hp, h.grouped⟩

/-- A comparison of a side with a constant. The comparison of a check for a value with a boolean is
completed as a whole, so what it means is asked for apart (`hflag`, `hwellformed`). -/
theorem judged_constant (hs : SideNodes schema parameter mode side s)
    (hc : comparedWith e op v = .ok t)
    (hnull : v = .null → op = .equal ∨ op = .notEqual → IsMember schema parameter side → p)
    (hvalue : v ≠ .null → (∀ items, v ≠ .list items) → IsMember schema parameter side → p)
    (hflag : ∀ b, v = .boolean b → op = .equal ∨ op = .notEqual →
      IsCheck schema parameter side → p)
    (hwellformed : p → Wellformed mode (operand side s ++ t)) :
    Judged mode (operand side s ++ t) p := by
  by_cases hp : p
  · exact (hwellformed hp).judged hp
  · obtain ⟨rfl, hop, rfl⟩ | ⟨hv, o, ho, rfl⟩ := comparedWith_cases hc
    · refine (Judged.followed hs isComparison_nullTest .null fun _ => rfl).mono ?_
      exact fun h => hnull rfl hop h.1
    · refine (Judged.followed hs (isComparison_of_comparison? ho) (.value v) ?_).mono ?_
      · intro hcheck
        cases hf : startsWithFlag [.operator o, .value v] with
        | false => rfl
        | true =>
          obtain ⟨o', b, rest, heq, ho'⟩ := exists_of_startsWithFlag hf
          cases heq
          refine absurd (hflag b rfl ?_ hcheck) hp
          cases op <;> cases ho <;> simp_all
      · exact fun h => hvalue hv (ne_list_of_step (relates_of_comparison? ho) h.2) h.1

theorem swapped_equality (h : op.swapped = .equal ∨ op.swapped = .notEqual) :
    op = .equal ∨ op = .notEqual := by
  cases op <;> first | exact .inl rfl | exact .inr rfl | (rcases h with h | h <;> cases h)

theorem judged_compare (hop : (comparison? op).isSome) (hl : SideNodes schema parameter mode l s)
    (hr : r.fold bindings = .ok v) (hc : comparedWith (.binary op l r) op v = .ok t)
    (hv : visit schema bindings parameter (.binary op l r) = .ok (operand l s ++ t)) :
    Judged mode (operand l s ++ t) (Grammatical schema bindings parameter (.binary op l r)) := by
  refine judged_constant hl hc ?_ ?_ ?_ fun h => h.wellformed hv
  · rintro rfl heq hm
    exact .atom (.null heq hm hr)
  · exact fun hne hlist hm => .atom (.compare hop hm hr hne hlist)
  · rintro b rfl heq hcheck
    exact .flag heq hcheck hr

theorem judged_compare_left (hop : (comparison? op).isSome) (hl : l.fold bindings = .ok v)
    (hr : SideNodes schema parameter mode r s)
    (hc : comparedWith (.binary op l r) op.swapped v = .ok t)
    (hv : visit schema bindings parameter (.binary op l r) = .ok (operand r s ++ t)) :
    Judged mode (operand r s ++ t) (Grammatical schema bindings parameter (.binary op l r)) := by
  refine judged_constant hr hc ?_ ?_ ?_ fun h => h.wellformed hv
  · rintro rfl heq hm
    exact .atom (.nullLeft (swapped_equality heq) hl hm)
  · exact fun hne hlist hm => .atom (.compareLeft hop hl hm hne hlist)
  · rintro b rfl heq hcheck
    exact .flagLeft (swapped_equality heq) hl hcheck

inductive CallNodes (schema : Schema) (bindings : Bindings) (parameter : String) (e : Expr) :
    List Node → Prop
  | any {s : List Node} (hc : Compound s) (hg : Grammatical schema bindings parameter e) :
    CallNodes schema bindings parameter e s
  | method {target : Expr} {m : MemberRef} {o : Operator} {n : Node}
    (ht : MemberRef.ofExpr schema parameter target = .ok m) (ho : o.isComparison = true)
    (hn : IsConstant n) (hf : startsWithFlag [.operator o, n] = false)
    (hg : IsMember schema parameter target → Grammatical schema bindings parameter e) :
    CallNodes schema bindings parameter e [.member m, .operator o, n]

section

variable {target arg body : Expr} {method text element : String} {args : List Expr}

theorem fold_of_stringArgument (h : stringArgument bindings e arg = .ok text) :
    arg.fold bindings = .ok (.string text) := by
  obtain ⟨found, hfound, h⟩ := bind_eq_ok.1 h
  split at h
  · cases h
    exact fold_of_constant? hfound
  · cases h

theorem callNodes_of_matchCall (hm : method ∈ ["StartsWith", "EndsWith", "Contains", "Like"])
    (h : matchCall schema bindings parameter target method arg = .ok s) :
    CallNodes schema bindings parameter (.methodCall target method [arg]) s := by
  obtain ⟨m, ht, h⟩ := bind_eq_ok.1 h
  obtain ⟨text, htext, h⟩ := bind_eq_ok.1 h
  cases h
  exact .method ht rfl (.value _) rfl fun hmember =>
    .atom (.matching hm hmember (fold_of_stringArgument htext))

theorem callNodes_of_listCall (hm : method = "In" ∨ method = "NotIn")
    (h : listCall schema bindings parameter target method arg = .ok s) :
    CallNodes schema bindings parameter (.methodCall target method [arg]) s := by
  obtain ⟨m, ht, hrest⟩ := bind_eq_ok.1 h
  obtain ⟨found, hfound, hrest⟩ := bind_eq_ok.1 hrest
  obtain ⟨v, hv⟩ : ∃ v, arg.fold bindings = .ok v := by
    cases found with
    | none => cases hrest
    | some v => exact ⟨v, fold_of_constant? hfound⟩
  rw [listCall_eq method ht hv] at h
  cases h
  refine .method ht ?_ (.value _) ?_ fun hmember => .atom (.listed hm hmember hv)
  · split <;> rfl
  · split <;> rfl

theorem callNodes_of_anyCall (h : anyCall schema parameter target = .ok s) :
    CallNodes schema bindings parameter (.methodCall target "Any" []) s := by
  obtain ⟨m, ht, h⟩ := bind_eq_ok.1 h
  cases h
  exact .method ht rfl .null rfl fun hmember => .atom (.any hmember)

theorem callNodes_of_quantifiedCall
    (h : quantifiedCall schema bindings parameter target element body = .ok s) :
    CallNodes schema bindings parameter (.methodCall target "Any" [.lambda element body]) s := by
  unfold quantifiedCall at h
  split at h
  · next collection ht =>
    exact .any (wellformed_quantified h .eitherForm).1 (.any ht h)
  · cases h

theorem callNodes_of_memberCall
    (h : memberCall schema bindings parameter target method args = .ok s) :
    CallNodes schema bindings parameter (.methodCall target method args) s := by
  unfold memberCall at h
  split at h
  · split at h
    · next hm =>
      subst hm
      exact callNodes_of_anyCall h
    · cases h
  · split at h
    · next hm => exact callNodes_of_matchCall hm h
    · split at h
      · next hm => exact callNodes_of_listCall hm h
      · split at h
        · next hm =>
          subst hm
          split at h
          · exact callNodes_of_quantifiedCall h
          · cases h
        · cases h
  · cases h

end

/-- What is kept of an expression and its nodes along the walk. -/
structure Analysed (schema : Schema) (bindings : Bindings) (parameter : String)
    (mode : HasValueMode) (e : Expr) (s : List Node) : Prop where
  enclosed : Enclosed s
  requires : Requires (terminals (complete mode s)) (Grammatical schema bindings parameter e)
  side : constant? bindings e = .ok none → SideNodes schema parameter mode e s

namespace Analysed

theorem of_judged (h : Judged mode s (Grammatical schema bindings parameter e))
    (he : e.isBinary = true) : Analysed schema bindings parameter mode e s :=
  ⟨h.enclosed, h.requires, fun _ => h.sideNodes he⟩

/-- An operand of `and`, `or` or a negation. -/
theorem operand_requires (h : Analysed schema bindings parameter mode e s) :
    Enclosed (operand e s) ∧
      Requires (terminals (complete mode (operand e s)))
        (Grammatical schema bindings parameter e) := by
  unfold operand
  split
  · refine ⟨h.enclosed.group, ?_⟩
    rw [complete_group h.enclosed, terminals_group]
    exact h.requires.group
  · exact ⟨h.enclosed, h.requires⟩

theorem constant (h : constantNodes bindings e = .ok s) :
    Analysed schema bindings parameter mode e s := by
  obtain ⟨found, hfound, h⟩ := bind_eq_ok.1 h
  cases found with
  | none => cases h
  | some v =>
    cases h
    have hv := IsConstant.ofValue v
    refine ⟨⟨hv.isComparison_eq, hv.isComparison_eq⟩, ?_, fun hnone => ?_⟩
    · rw [hv.complete_eq]
      exact .single hv.terminal_ne.1 hv.terminal_ne.2
    · rw [hfound] at hnone
      cases hnone

theorem ofExpr (he : MemberRef.ofExpr schema parameter e = .ok m) :
    Analysed schema bindings parameter mode e [.member m] := by
  refine ⟨⟨rfl, rfl⟩, ?_, fun _ => .member he⟩
  by_cases hg : Grammatical schema bindings parameter e
  · exact (hg.wellformed (visit_of_ofExpr he)).derivable.requires hg
  · have hm : m.hasValue = false := by
      cases hm : m.hasValue with
      | false => rfl
      | true => exact absurd (.atom (.check ⟨m, he, hm⟩)) hg
    have hb : m.isBoolean = false := by
      cases hb : m.isBoolean with
      | false => rfl
      | true => exact absurd (.atom (.boolean he hb hm)) hg
    have hc : complete mode [.member m] = [.member m] := by
      have hbooleans : completeBooleans [.member m] = [.member m] := by
        simp [completeBooleans, completeBooleansFrom, isPlainBoolean, hb]
      rw [complete, hbooleans, completeHasValue_cons (n := .member m) hm]
      rfl
    rw [hc]
    exact Requires.single (a := .column) (by decide) (by decide)

theorem memberNodes (h : memberNodes schema bindings parameter e = .ok s) :
    Analysed schema bindings parameter mode e s := by
  obtain ⟨found, hfound, h⟩ := bind_eq_ok.1 h
  cases found with
  | none =>
    obtain ⟨m, he, h⟩ := bind_eq_ok.1 h
    cases h
    exact .ofExpr he
  | some v =>
    cases h
    refine .constant ?_
    rw [constantNodes, hfound]
    rfl

theorem logical {logical : Operator} (ho : logical? op = some logical)
    (hl : Analysed schema bindings parameter mode l s)
    (hr : Analysed schema bindings parameter mode r t) :
    Analysed schema bindings parameter mode (.binary op l r)
      (operand l s ++ .operator logical :: operand r t) := by
  obtain ⟨hs, hrs⟩ := hl.operand_requires
  obtain ⟨ht, hrt⟩ := hr.operand_requires
  refine of_judged ((Judged.joined ho hs hrs ht hrt).mono ?_) rfl
  rintro ⟨hgl, hgr⟩
  cases op <;> cases ho
  · exact .and hgl hgr
  · exact .or hgl hgr

theorem not (h : Analysed schema bindings parameter mode e s) :
    Analysed schema bindings parameter mode (.unary .not e)
      (.operator .not :: .startGroup :: s ++ [.endGroup]) := by
  have hc : terminals (complete mode (.operator .not :: .startGroup :: s ++ [.endGroup])) =
      .operator .not :: .opening :: terminals (complete mode s) ++ [.closing] := by
    rw [complete_not_group h.enclosed, terminals_not_group]
  refine ⟨h.enclosed.group.cons rfl, ?_, fun _ => .compound (.not_group h.enclosed) ?_⟩
  · rw [hc]
    exact h.requires.not_group.mono .not
  · obtain ⟨f, hf, -⟩ := h.requires
    change NoOperand (terminals (complete mode (.operator .not :: .startGroup :: s ++ [.endGroup])))
    rw [hc]
    exact .not_group hf

theorem of_grammatical (hg : Grammatical schema bindings parameter e)
    (hv : visit schema bindings parameter e = .ok s) (hc : Compound s) (he : e.isBinary = false) :
    Analysed schema bindings parameter mode e s := by
  have hw : Wellformed mode s := hg.wellformed hv
  have hoperand : operand e s = s := if_neg (by simp [he])
  refine ⟨hw.enclosed, hw.derivable.requires hg, fun _ => .compound ?_ ?_⟩
  · rw [hoperand]
    exact hc
  · rw [hoperand]
    exact hw.derivable.noOperand

/-- A member of which a method is called is followed by a comparison operator, too. -/
theorem methodCall {target : Expr} {method : String} {args : List Expr}
    (h : memberCall schema bindings parameter target method args = .ok s)
    (ht : target.referencesParam = true) :
    Analysed schema bindings parameter mode (.methodCall target method args) s := by
  have hv : visit schema bindings parameter (.methodCall target method args) = .ok s := by
    rw [visit, if_pos ht]
    exact h
  cases callNodes_of_memberCall h with
  | any hc hg => exact .of_grammatical hg hv hc rfl
  | @method receiver m o n hr ho hn hf hg =>
    have hs : SideNodes schema parameter mode receiver [.member m] := .member hr
    have hc := Compound.triple (m := m) ho hn.isMember_eq hn.isComparison_eq
    have hjudged := Judged.followed hs ho hn fun _ => hf
    rw [operand_of_ofExpr hr] at hjudged
    refine ⟨hc.enclosed, hjudged.requires.mono fun h => hg h.1, fun _ => .compound hc ?_⟩
    obtain ⟨s', hs', hside⟩ := hs.complete_append (t := [.operator o, n]) ho fun _ => hf
    rw [operand_of_ofExpr hr, hn.complete_pair] at hs'
    change NoOperand (terminals (complete mode ([.member m] ++ [.operator o, n])))
    rw [hs', terminals_joined]
    exact hside.noOperand ho hn.terminal_ne.1 hn.terminal_ne.2

/-- A comparison, whose sides are walked unless they are constant. -/
theorem comparison (ho : comparison? op = some o)
    (hl : ∀ s, visit schema bindings parameter l = .ok s →
      Analysed schema bindings parameter mode l s)
    (hr : ∀ s, visit schema bindings parameter r = .ok s →
      Analysed schema bindings parameter mode r s)
    (h : visit schema bindings parameter (.binary op l r) = .ok s) :
    Analysed schema bindings parameter mode (.binary op l r) s := by
  have hop : (comparison? op).isSome := Option.isSome_iff_exists.2 ⟨o, ho⟩
  have hv := h
  simp only [visit, logical?_of_comparison? ho, ho] at h
  obtain ⟨leftValue, hleft, h⟩ := bind_eq_ok.1 h
  obtain ⟨rightValue, hright, h⟩ := bind_eq_ok.1 h
  refine of_judged ?_ rfl
  cases leftValue with
  | some v =>
    cases rightValue with
    | some _ => cases h
    | none =>
      obtain ⟨nodes, hnodes, h⟩ := bind_eq_ok.1 h
      obtain ⟨compared, hcompared, h⟩ := bind_eq_ok.1 h
      cases h
      exact judged_compare_left hop (fold_of_constant? hleft) ((hr _ hnodes).side hright)
        hcompared hv
  | none =>
    cases rightValue with
    | some v =>
      obtain ⟨nodes, hnodes, h⟩ := bind_eq_ok.1 h
      obtain ⟨compared, hcompared, h⟩ := bind_eq_ok.1 h
      cases h
      exact judged_compare hop ((hl _ hnodes).side hleft) (fold_of_constant? hright) hcompared hv
    | none =>
      obtain ⟨left, hnodes, h⟩ := bind_eq_ok.1 h
      obtain ⟨right, hnodes', h⟩ := bind_eq_ok.1 h
      cases h
      refine (Judged.related ho ((hl _ hnodes).side hleft) ((hr _ hnodes').side hright)).mono ?_
      exact fun h => .atom (.members hop h.1 h.2)

end Analysed

/-- Only boolean members and checks for a value are compared with false when they are negated. -/
theorem grammatical_of_negatedMember? (bindings : Bindings)
    (h : negatedMember? schema parameter e = .ok (some m)) :
    Grammatical schema bindings parameter e := by
  cases e with
  | member target name =>
    simp only [negatedMember?] at h
    split at h
    · obtain ⟨m', he, h⟩ := bind_eq_ok.1 h
      cases hv : m'.hasValue with
      | true => exact .atom (.check ⟨m', he, hv⟩)
      | false =>
        cases hb : m'.isBoolean with
        | true => exact .atom (.boolean he hb hv)
        | false =>
          rw [hb, hv] at h
          cases h
    · cases h
  | _ => cases h

theorem analysed_of_visit (h : visit schema bindings parameter e = .ok s) (mode : HasValueMode) :
    Analysed schema bindings parameter mode e s := by
  fun_induction visit schema bindings parameter e generalizing s with
  | case1 op l r logical hop ihl ihr =>
    obtain ⟨nodes, hl, h⟩ := bind_eq_ok.1 h
    obtain ⟨nodes', hr, h⟩ := bind_eq_ok.1 h
    cases h
    exact .logical hop (ihl hl) (ihr hr)
  | case2 op l r hlogical o ho _ ihr =>
    rename_i ihl
    refine .comparison ho (fun _ => ihl) (fun _ => ihr) ?_
    simp only [visit, hlogical, ho]
    exact h
  | case4 e ih =>
    have hv : visit schema bindings parameter (.unary .not e) = .ok s := by
      rw [visit]
      exact h
    obtain ⟨found, hfound, h⟩ := bind_eq_ok.1 h
    cases found with
    | some m =>
      cases h
      have hg := grammatical_of_negatedMember? bindings hfound
      exact .of_grammatical (.not hg) hv (.triple rfl rfl rfl) rfl
    | none =>
      obtain ⟨nodes, hnodes, h⟩ := bind_eq_ok.1 h
      cases h
      exact (ih hnodes).not
  | case6 | case7 => exact .memberNodes h
  | case8 target method args ht => exact .methodCall h ht
  | case3 | case5 | case9 | case10 => exact .constant h

end DocStore.Predicate
