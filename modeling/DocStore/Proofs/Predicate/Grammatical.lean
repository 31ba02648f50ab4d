import DocStore.Proofs.Predicate.Grammar
import DocStore.Proofs.Predicate.Quantified

/-!
# Grammatical predicates

`Grammatical` are the predicates built by `&&`, `||` and `!` from atoms, from checks for a value
that are compared with a boolean, and from quantified predicates. Each of them is accepted, and the
nodes that it lowers to are in the grammar of predicates.
-/

namespace DocStore

def Node.terminal : Node → Terminal
  | member _ => .column
  | operator op => .operator op
  | value (.list _) => .list
  | value _ => .parameter
  | null => .null
  | startGroup => .opening
  | endGroup => .closing
  | sorting _ | inclusion _ => .misplaced

abbrev terminals (s : List Node) : List Terminal :=
  s.map Node.terminal

namespace Predicate

open Grammar

section

variable (schema : Schema) (bindings : Bindings) (parameter : String)

inductive Grammatical : Expr → Prop where
  | and {l r : Expr} : Grammatical l → Grammatical r → Grammatical (.binary .and l r)
  | or {l r : Expr} : Grammatical l → Grammatical r → Grammatical (.binary .or l r)
  | not {e : Expr} : Grammatical e → Grammatical (.unary .not e)
  | atom {e : Expr} : IsAtom schema bindings parameter e → Grammatical e
  | flag {op : BinaryOp} {l r : Expr} {b : Bool} (hop : op = .equal ∨ op = .notEqual)
    (hl : IsCheck schema parameter l) (hr : r.fold bindings = .ok (.boolean b)) :
    Grammatical (.binary op l r)
  | flagLeft {op : BinaryOp} {l r : Expr} {b : Bool} (hop : op = .equal ∨ op = .notEqual)
    (hl : l.fold bindings = .ok (.boolean b)) (hr : IsCheck schema parameter r) :
    Grammatical (.binary op l r)
  | any {target body : Expr} {collection element : String} {s : List Node}
    (ht : target.memberPath? parameter = some collection)
    (hb : quantified schema bindings collection element body = .ok s) :
    Grammatical (.methodCall target "Any" [.lambda element body])

end

variable {schema : Schema} {bindings : Bindings} {parameter : String} {mode : HasValueMode}
  {e l r : Expr} {m : MemberRef} {v : Value} {op : BinaryOp} {o : Operator} {n : Node}
  {s t : List Node}

/-- The nodes refer to a member, and once completed they are in the grammar. -/
structure Wellformed (mode : HasValueMode) (s : List Node) : Prop where
  member : s.any Node.isMember = true
  enclosed : Enclosed s
  derivable : Derivable (terminals (complete mode s))

theorem terminals_group (s : List Node) :
    terminals (.startGroup :: s ++ [.endGroup]) = .opening :: terminals s ++ [.closing] := by
  simp [Node.terminal]

theorem terminals_not_group (s : List Node) :
    terminals (.operator .not :: .startGroup :: s ++ [.endGroup]) =
      .operator .not :: .opening :: terminals s ++ [.closing] := by
  simp [Node.terminal]

theorem terminals_joined (s : List Node) (op : Operator) (t : List Node) :
    terminals (s ++ .operator op :: t) = terminals s ++ .operator op :: terminals t := by
  simp [Node.terminal]

theorem derivable_group (h : Derivable (terminals s)) :
    Derivable (terminals (.startGroup :: s ++ [.endGroup])) := by
  rw [terminals_group]
  exact .group h

theorem derivable_not (h : Derivable (terminals s)) :
    Derivable (terminals (.operator .not :: .startGroup :: s ++ [.endGroup])) := by
  rw [terminals_not_group]
  exact .not h

theorem derivable_joined {logical : Operator} (ho : logical? op = some logical)
    (hs : Derivable (terminals s)) (ht : Derivable (terminals t)) :
    Derivable (terminals (s ++ .operator logical :: t)) := by
  rw [terminals_joined]
  cases op <;> cases ho
  · exact .and hs ht
  · exact .or hs ht

theorem derivable_nullCheck (m : MemberRef) (isNull : Bool) :
    Derivable (terminals (nullCheck m isNull)) := by
  cases isNull
  · exact .isNotNull
  · exact .isNull

theorem relates_of_comparison? (h : comparison? op = some o) : relates o = true := by
  cases op <;> cases h <;> rfl

/-- A column related to an operand. -/
theorem derivable_relation (ho : relates o = true) {a : Terminal} (ha : Grammar.Operand [a]) :
    Derivable [.column, .operator o, a] :=
  .compare ho .column ha

theorem isComparison_of_logical? {logical : Operator} (h : logical? op = some logical) :
    logical.isComparison = false := by
  cases op <;> cases h <;> rfl

namespace Wellformed

theorem group (h : Wellformed mode s) : Wellformed mode (.startGroup :: s ++ [.endGroup]) where
  member := by simp [h.member]
  enclosed := h.enclosed.group
  derivable := by
    rw [complete_group h.enclosed]
    exact derivable_group h.derivable

theorem operand (h : Wellformed mode s) (e : Expr) : Wellformed mode (operand e s) := by
  unfold Predicate.operand
  split
  · exact h.group
  · exact h

theorem joined {logical : Operator} (ho : logical? op = some logical) (hs : Wellformed mode s)
    (ht : Wellformed mode t) : Wellformed mode (s ++ .operator logical :: t) where
  member := by rw [List.any_append, hs.member, Bool.true_or]
  enclosed := hs.enclosed.joined (isComparison_of_logical? ho) ht.enclosed
  derivable := by
    rw [complete_joined hs.enclosed (isComparison_of_logical? ho) ht.enclosed]
    exact derivable_joined ho hs.derivable ht.derivable

theorem not_group (h : Wellformed mode s) :
    Wellformed mode (.operator .not :: .startGroup :: s ++ [.endGroup]) where
  member := by simp [h.member]
  enclosed := h.enclosed.group.cons rfl
  derivable := by
    rw [complete_not_group h.enclosed]
    exact derivable_not h.derivable

theorem triple (hm : m.hasValue = false) (ho : o.isComparison = true) (hp : IsPlain n)
    (hn : n.isComparison = false) (hd : Derivable [.column, .operator o, n.terminal]) :
    Wellformed mode [.member m, .operator o, n] where
  member := rfl
  enclosed := ⟨rfl, hn⟩
  derivable := by
    rw [complete_triple hm ho hp]
    exact hd

theorem boolean (hb : m.isBoolean = true) (hm : m.hasValue = false) :
    Wellformed mode [.member m] where
  member := rfl
  enclosed := ⟨rfl, rfl⟩
  derivable := by
    rw [complete_boolean hb hm]
    exact derivable_relation rfl .parameter

theorem check (hm : m.hasValue = true) : Wellformed mode [.member m] where
  member := rfl
  enclosed := ⟨rfl, rfl⟩
  derivable := by
    rw [complete_check hm]
    exact derivable_nullCheck m false

theorem flag {b : Bool} (hm : m.hasValue = true) (ho : o = .equal ∨ o = .notEqual) :
    Wellformed mode [.member m, .operator o, .value (.boolean b)] where
  member := rfl
  enclosed := ⟨rfl, rfl⟩
  derivable := by
    rw [complete_flag hm ho]
    exact derivable_nullCheck m _

end Wellformed

section

variable {collection element : String} {body : Expr}

theorem ElementNodes.wellformed (h : ElementNodes s) : Compound s ∧ Wellformed mode s := by
  cases h with
  | like hm => exact ⟨.triple rfl rfl rfl, .triple hm rfl trivial rfl .like⟩
  | @differs m text hm =>
    have hnull : Wellformed mode [.member m, .operator .isNot, .null] :=
      .triple hm rfl trivial rfl .isNotNull
    have hne : Wellformed mode [.member m, .operator .notEqual,
        .value (.string (Composite.element text))] :=
      .triple hm rfl trivial rfl (derivable_relation rfl .parameter)
    have hand : logical? .and = some .and := rfl
    have hboth := Wellformed.joined hand hnull.group hne.group
    exact ⟨.group hboth.enclosed, hboth.group⟩

theorem compound_operand (hs : Compound s) (e : Expr) : Compound (operand e s) := by
  unfold operand
  split
  · exact .group hs.enclosed
  · exact hs

theorem wellformed_quantified
    (h : quantified schema bindings collection element body = .ok s) (mode : HasValueMode) :
    Compound s ∧ Wellformed mode s := by
  fun_induction quantified schema bindings collection element body generalizing s with
  | case1 op l r logical hop ihl ihr =>
    obtain ⟨sl, hl, h⟩ := bind_eq_ok.1 h
    obtain ⟨sr, hr, h⟩ := bind_eq_ok.1 h
    obtain rfl := Except.ok.inj h
    obtain ⟨hcl, hwl⟩ := ihl hl
    obtain ⟨hcr, hwr⟩ := ihr hr
    exact ⟨(compound_operand hcl l).joined (isComparison_of_logical? hop) (compound_operand hcr r),
      .joined hop (hwl.operand l) (hwr.operand r)⟩
  | case2 => exact (elementNodes_of_comparison h).wellformed
  | case3 => cases h
  | case4 => exact (elementNodes_of_call h).wellformed
  | case5 => cases h

end

def LowersTo (schema : Schema) (bindings : Bindings) (parameter : String) (mode : HasValueMode)
    (e : Expr) : Prop :=
  ∃ s, visit schema bindings parameter e = .ok s ∧ Wellformed mode s

theorem lowersTo_triple (hv : visit schema bindings parameter e = .ok [.member m, .operator o, n])
    (hm : m.hasValue = false) (ho : o.isComparison = true) (hp : IsPlain n)
    (hn : n.isComparison = false) (hd : Derivable [.column, .operator o, n.terminal]) :
    LowersTo schema bindings parameter mode e :=
  ⟨_, hv, .triple hm ho hp hn hd⟩

theorem terminal_value (h : ∀ items, v ≠ .list items) : (Node.value v).terminal = .parameter := by
  cases v with
  | list items => exact absurd rfl (h items)
  | _ => rfl

theorem derivable_value (ho : comparison? op = some o) (hv : ∀ items, v ≠ .list items) :
    Derivable [.column, .operator o, (Node.value v).terminal] := by
  rw [terminal_value hv]
  exact derivable_relation (relates_of_comparison? ho) .parameter

theorem derivable_nullTest :
    Derivable [.column, .operator (if op = .equal then .is else .isNot), .null] := by
  split
  · exact .isNull
  · exact .isNotNull

theorem IsAtom.lowersTo (h : IsAtom schema bindings parameter e) (mode : HasValueMode) :
    LowersTo schema bindings parameter mode e := by
  cases h with
  | compare hop hl hr hv hlist =>
    obtain ⟨o, ho⟩ := Option.isSome_iff_exists.1 hop
    obtain ⟨m, hl, hm⟩ := hl
    exact lowersTo_triple (visit_compare ho hl hr (comparedWith_of_ne_null ho hv)) hm
      (isComparison_of_comparison? ho) trivial rfl (derivable_value ho hlist)
  | compareLeft hop hl hr hv hlist =>
    obtain ⟨o, ho⟩ := Option.isSome_iff_exists.1 hop
    obtain ⟨o', ho'⟩ := comparison?_swapped ho
    obtain ⟨m, hr, hm⟩ := hr
    exact lowersTo_triple (visit_compare_left ho hr hl (comparedWith_of_ne_null ho' hv)) hm
      (isComparison_of_comparison? ho') trivial rfl (derivable_value ho' hlist)
  | null hop hl hr =>
    obtain ⟨o, ho, -⟩ := comparison?_of_equality hop
    obtain ⟨m, hl, hm⟩ := hl
    exact lowersTo_triple (visit_compare ho hl hr (comparedWith_null hop)) hm
      isComparison_nullTest trivial rfl derivable_nullTest
  | @nullLeft op l r hop hl hr =>
    obtain ⟨o, ho, -⟩ := comparison?_of_equality hop
    obtain ⟨m, hr, hm⟩ := hr
    have hc : comparedWith (.binary op l r) op.swapped .null =
        .ok [.operator (if op = .equal then .is else .isNot), .null] := by
      rw [swapped_of_equality hop, comparedWith_null hop]
    exact lowersTo_triple (visit_compare_left ho hr hl hc) hm isComparison_nullTest trivial rfl
      derivable_nullTest
  | members hop hl hr =>
    obtain ⟨o, ho⟩ := Option.isSome_iff_exists.1 hop
    obtain ⟨m, hl, hm⟩ := hl
    obtain ⟨m', hr, hm'⟩ := hr
    exact lowersTo_triple (visit_compare_members ho hl hr) hm (isComparison_of_comparison? ho) hm'
      rfl (derivable_relation (relates_of_comparison? ho) .column)
  | boolean he hb hm => exact ⟨_, visit_of_ofExpr he, .boolean hb hm⟩
  | check he =>
    obtain ⟨m, he, hm⟩ := he
    exact ⟨_, visit_of_ofExpr he, .check hm⟩
  | matching hm ht ha =>
    obtain ⟨m, ht, hv⟩ := ht
    obtain ⟨pattern, hvisit, -⟩ := visit_matching hm ht ha
    exact lowersTo_triple hvisit hv rfl trivial rfl .like
  | listed hm ht ha =>
    obtain ⟨m, ht, hv⟩ := ht
    rcases hm with rfl | rfl
    · exact lowersTo_triple (visit_listed (.inl rfl) ht ha) hv rfl trivial rfl .inList
    · exact lowersTo_triple (visit_listed (.inr rfl) ht ha) hv rfl trivial rfl .notInList
  | any ht =>
    obtain ⟨m, ht, hv⟩ := ht
    exact lowersTo_triple (visit_any ht) hv rfl trivial rfl .isNotNull

/-- Of the atoms, only boolean members and checks for a value are members. -/
theorem IsAtom.ofExpr_or_ne (h : IsAtom schema bindings parameter e) :
    (∃ m, MemberRef.ofExpr schema parameter e = .ok m ∧
      (m.isBoolean = true ∨ m.hasValue = true)) ∨ ∀ target name, e ≠ .member target name := by
  cases h with
  | boolean he hb hm => exact .inl ⟨_, he, .inl hb⟩
  | check he =>
    obtain ⟨m, he, hm⟩ := he
    exact .inl ⟨m, he, .inr hm⟩
  | _ => exact .inr nofun

namespace LowersTo

theorem logical {logical : Operator} (ho : logical? op = some logical)
    (hl : LowersTo schema bindings parameter mode l)
    (hr : LowersTo schema bindings parameter mode r) :
    LowersTo schema bindings parameter mode (.binary op l r) := by
  obtain ⟨s, hs, hws⟩ := hl
  obtain ⟨t, ht, hwt⟩ := hr
  refine ⟨operand l s ++ .operator logical :: operand r t, ?_,
    .joined ho (hws.operand l) (hwt.operand r)⟩
  simp only [visit, ho, hs, ht]
  rfl

theorem not (he : LowersTo schema bindings parameter mode e)
    (hn : negatedMember? schema parameter e = .ok none) :
    LowersTo schema bindings parameter mode (.unary .not e) := by
  obtain ⟨s, hs, hws⟩ := he
  refine ⟨_, ?_, hws.not_group⟩
  simp only [visit, hn, hs]
  rfl

/-- The negation of a boolean member or of a check for a value is a comparison with false. -/
theorem not_member (he : MemberRef.ofExpr schema parameter e = .ok m)
    (hm : m.isBoolean = true ∨ m.hasValue = true) :
    LowersTo schema bindings parameter mode (.unary .not e) := by
  refine ⟨_, visit_not_member he hm, ?_⟩
  cases hv : m.hasValue with
  | true => exact .flag hv (.inl rfl)
  | false => exact .triple hv rfl trivial rfl (derivable_relation rfl .parameter)

end LowersTo

theorem Grammatical.lowersTo (h : Grammatical schema bindings parameter e) (mode : HasValueMode) :
    LowersTo schema bindings parameter mode e := by
  induction h with
  | and _ _ ihl ihr => exact .logical rfl ihl ihr
  | or _ _ ihl ihr => exact .logical rfl ihl ihr
  | not he ih =>
    cases he with
    | atom ha =>
      obtain ⟨m, he, hm⟩ | hne := ha.ofExpr_or_ne
      · exact .not_member he hm
      · exact ih.not (negatedMember?_of_ne_member hne)
    | _ => exact ih.not rfl
  | atom ha => exact ha.lowersTo mode
  | flag hop hl hr =>
    obtain ⟨o, ho, ho'⟩ := comparison?_of_equality hop
    obtain ⟨m, hl, hm⟩ := hl
    exact ⟨_, visit_compare ho hl hr (comparedWith_of_ne_null ho nofun), .flag hm ho'⟩
  | @flagLeft op l r b hop hl hr =>
    obtain ⟨o, ho, ho'⟩ := comparison?_of_equality hop
    obtain ⟨m, hr, hm⟩ := hr
    have hb : Value.boolean b ≠ .null := nofun
    have hc : comparedWith (.binary op l r) op.swapped (.boolean b) =
        .ok [.operator o, .value (.boolean b)] := by
      rw [swapped_of_equality hop, comparedWith_of_ne_null ho hb]
    exact ⟨_, visit_compare_left ho hr hl hc, .flag hm ho'⟩
  | any ht hb => exact ⟨_, visit_quantified ht hb, (wellformed_quantified hb mode).2⟩

end Predicate

end DocStore
