import DocStore.Proofs.Predicate.Meaning

/-!
# Lowering preserves meaning

Every unquantified predicate lowers to nodes that are read as one condition, alone and as an
operand, and that condition has the value of the predicate. By induction over the predicate, the
groups of the sequence give back the tree; by induction over the filters, a query has the value of
all of them together.
-/

namespace DocStore

theorem MemberRef.resolve_path (schema : Schema) (path : String) :
    ofPath schema path =
      resolve schema (ofPath schema path).path (ofPath schema path).hasValue := by
  unfold ofPath
  split
  · rfl
  · split
    · dsimp only
      split <;> rfl
    · rfl

namespace Predicate

open Condition

variable {schema : Schema} {bindings : Bindings} {parameter : String} {e l r : Expr}
  {m : MemberRef} {v : Value} {op : BinaryOp} {o : Operator} (I : Interpretation)
  (values : MemberValues schema)

theorem ofPath_of_ofExpr (h : MemberRef.ofExpr schema parameter e = .ok m) :
    ∃ path, m = MemberRef.ofPath schema path := by
  unfold MemberRef.ofExpr at h
  split at h
  · split at h
    · cases h
    · exact ⟨_, (Except.ok.inj h).symm⟩
  · cases h

theorem value_of_isBoolean (h : MemberRef.ofExpr schema parameter e = .ok m)
    (hb : m.isBoolean = true) :
    values.value m.path = .null ∨ ∃ b, values.value m.path = .boolean b := by
  obtain ⟨path, rfl⟩ := ofPath_of_ofExpr h
  apply values.boolean
  rw [MemberRef.resolve_path] at hb
  exact hb

theorem sideValue_of_fold (h : e.fold bindings = .ok v) :
    sideValue schema bindings parameter values e = v := by
  rw [sideValue, h]

theorem sideValue_of_ofExpr (h : MemberRef.ofExpr schema parameter e = .ok m) :
    sideValue schema bindings parameter values e =
      if m.hasValue then .boolean !(values.value m.path).isNull else values.value m.path := by
  rw [sideValue, Expr.fold_of_referencesParam (referencesParam_of_ofExpr h)]
  simp only [h]

theorem isNullConstant_of_fold (h : e.fold bindings = .ok v) :
    isNullConstant bindings e = v.isNull := by
  rw [isNullConstant, h]

theorem isNullConstant_of_ofExpr (h : MemberRef.ofExpr schema parameter e = .ok m) :
    isNullConstant bindings e = false := by
  rw [isNullConstant, Expr.fold_of_referencesParam (referencesParam_of_ofExpr h)]

theorem truth_comparison (hop : comparison? op = some o) :
    truth schema bindings parameter I values (.binary op l r) =
      comparisonTruth schema bindings parameter I values op l r := by
  cases op <;> first | rfl | cases hop

theorem relate_eq_compare (hop : comparison? op = some o) (a b : Value) :
    I.relate o a b = I.compare op a b := by
  cases op <;> cases hop <;> rfl

/-- Exchanging the sides of a comparison changes the operator and not the truth. -/
theorem compare_swapped (a b : Value) : I.compare op.swapped b a = I.compare op a b := by
  cases op <;> simp only [Interpretation.compare, BinaryOp.swapped, Bool.or_comm b.isNull,
    I.equal_comm b a]

theorem isNull_eq_false (hv : v ≠ .null) : v.isNull = false :=
  Bool.eq_false_iff.2 fun h => hv ((Value.isNull_iff v).1 h)

theorem negatedMember?_of_ne_member (h : ∀ target name, e ≠ .member target name) :
    negatedMember? schema parameter e = .ok none := by
  cases e with
  | member target name => exact absurd rfl (h target name)
  | _ => rfl

theorem visit_not_member (he : MemberRef.ofExpr schema parameter e = .ok m)
    (hm : m.isBoolean = true ∨ m.hasValue = true) :
    visit schema bindings parameter (.unary .not e) =
      .ok [.member m, .operator .equal, .value (.boolean false)] := by
  obtain ⟨target, name, _, rfl, _⟩ := eq_member_of_ofExpr he
  have hn : negatedMember? schema parameter (.member target name) = .ok (some m) := by
    have h : (m.isBoolean || m.hasValue) = true := by simpa using hm
    simp only [negatedMember?, referencesParam_of_ofExpr he, he, if_true, bind, Except.bind, h]
  simp only [visit, hn, bind, Except.bind]

section

variable (I : Interpretation) (values : MemberValues schema)

theorem flagTruth_eq_relate (he : MemberRef.ofExpr schema parameter e = .ok m)
    (hb : m.isBoolean = true) (b : Bool) :
    I.relate .equal (values.value m.path) (.boolean b) =
      if b then flagTruth (values.value m.path) else (flagTruth (values.value m.path)).not := by
  obtain hv | ⟨a, hv⟩ := value_of_isBoolean values he hb
  · rw [hv]
    cases b <;> rfl
  · rw [hv]
    have hr : I.relate .equal (.boolean a) (.boolean b) = .ofBool (a == b) := I.equal_boolean a b
    rw [hr]
    cases a <;> cases b <;> rfl

theorem truth_of_ofExpr (he : MemberRef.ofExpr schema parameter e = .ok m) :
    truth schema bindings parameter I values e =
      flagTruth (sideValue schema bindings parameter values e) := by
  obtain ⟨target, name, _, rfl, _⟩ := eq_member_of_ofExpr he
  rfl

theorem comparisonTruth_of_fold (hl : MemberRef.ofExpr schema parameter l = .ok m)
    (hr : r.fold bindings = .ok v) (hv : v ≠ .null) :
    comparisonTruth schema bindings parameter I values op l r =
      I.compare op (sideValue schema bindings parameter values l) v := by
  simp only [comparisonTruth, isNullConstant_of_ofExpr hl, isNullConstant_of_fold hr,
    isNull_eq_false hv, sideValue_of_fold values hr, Bool.false_eq_true, if_false]

theorem comparisonTruth_of_fold_left (hl : l.fold bindings = .ok v)
    (hr : MemberRef.ofExpr schema parameter r = .ok m) (hv : v ≠ .null) :
    comparisonTruth schema bindings parameter I values op l r =
      I.compare op.swapped (sideValue schema bindings parameter values r) v := by
  simp only [comparisonTruth, isNullConstant_of_ofExpr hr, isNullConstant_of_fold hl,
    isNull_eq_false hv, sideValue_of_fold values hl, Bool.false_eq_true, if_false,
    compare_swapped]

theorem nullTest_eq_relate (hop : op = .equal ∨ op = .notEqual) :
    nullTest op v = I.relate (if op = .equal then .is else .isNot) v .null := by
  rcases hop with rfl | rfl <;> rfl

theorem compare_boolean (hop : op = .equal ∨ op = .notEqual) (a b : Bool) :
    I.compare op (.boolean a) (.boolean b) =
      .ofBool (if op = .equal then a == b else !(a == b)) := by
  have he := I.equal_boolean a b
  rcases hop with rfl | rfl
  · exact he
  · change (I.equal (.boolean a) (.boolean b)).not = _
    rw [he, Truth.not_ofBool]
    rfl

/-- A check for a value that is compared with a boolean asks whether the value is null. -/
theorem compare_check (hop : op = .equal ∨ op = .notEqual) (hc : comparison? op = some o)
    (b : Bool) :
    I.compare op (.boolean !v.isNull) (.boolean b) =
      I.relate (if HasValueMode.eitherForm.meansNull o b then .is else .isNot) v .null := by
  rw [compare_boolean I hop]
  generalize hn : v.isNull = n
  rcases hop with rfl | rfl <;> cases hc <;> cases b <;> cases n <;>
    simp [Interpretation.relate, HasValueMode.meansNull, hn]

end

theorem fits_of_comparison? (hop : comparison? op = some o) (right : Operand) :
    right.fits o = true := by
  cases op <;> cases hop <;> rfl

theorem comparison?_of_equality (hop : op = .equal ∨ op = .notEqual) :
    ∃ o, comparison? op = some o ∧ (o = .equal ∨ o = .notEqual) := by
  rcases hop with rfl | rfl
  · exact ⟨_, rfl, .inl rfl⟩
  · exact ⟨_, rfl, .inr rfl⟩

theorem swapped_of_equality (hop : op = .equal ∨ op = .notEqual) : op.swapped = op := by
  rcases hop with rfl | rfl <;> rfl

theorem isComparison_nullTest :
    (if op = .equal then Operator.is else .isNot).isComparison = true := by
  split <;> rfl

theorem fits_nullTest : Operand.null.fits (if op = .equal then .is else .isNot) = true := by
  split <;> rfl

theorem visit_matching {target arg : Expr} {method text : String}
    (hm : method ∈ ["StartsWith", "EndsWith", "Contains", "Like"])
    (ht : MemberRef.ofExpr schema parameter target = .ok m)
    (ha : arg.fold bindings = .ok (.string text)) :
    ∃ pattern, visit schema bindings parameter (.methodCall target method [arg]) =
        .ok (likeNodes m pattern) ∧
      Interpretation.pattern? (isCollection schema parameter target) method text =
        some pattern := by
  have hs : stringArgument bindings (.methodCall target method [arg]) arg = .ok text := by
    rw [stringArgument, constant?_of_fold ha]
    rfl
  rw [visit_methodCall ht, memberCall_of_matching hm]
  simp only [matchCall, ht, hs, bind, Except.bind, isCollection, Except.ok.injEq]
  simp only [List.mem_cons, List.not_mem_nil, or_false] at hm
  refine ⟨_, rfl, ?_⟩
  rcases hm with rfl | rfl | rfl | rfl <;> simp [Interpretation.pattern?]

theorem listCall_eq {target arg : Expr} (method : String)
    (ht : MemberRef.ofExpr schema parameter target = .ok m) (ha : arg.fold bindings = .ok v) :
    listCall schema bindings parameter target method arg =
      .ok [.member m, .operator (if method = "In" then .inList else .notInList),
        .value (.list (Interpretation.items v))] := by
  rw [listCall, constant?_of_fold ha]
  simp only [ht, bind, Except.bind]
  cases v <;> rfl

theorem visit_listed {target arg : Expr} {method : String}
    (hm : method = "In" ∨ method = "NotIn")
    (ht : MemberRef.ofExpr schema parameter target = .ok m) (ha : arg.fold bindings = .ok v) :
    visit schema bindings parameter (.methodCall target method [arg]) =
      .ok [.member m, .operator (if method = "In" then .inList else .notInList),
        .value (.list (Interpretation.items v))] := by
  rw [visit_methodCall ht, memberCall_of_listed hm, listCall_eq method ht ha]

def Atomic (schema : Schema) (bindings : Bindings) (parameter : String) (mode : HasValueMode)
    (e : Expr) : Prop :=
  ∃ s c, Lowered schema bindings parameter mode e s (·.push c) ∧
    ∀ I (values : MemberValues schema),
      c.truth I values.value = truth schema bindings parameter I values e

namespace Atomic

variable {mode : HasValueMode}

theorem triple {n : Node} {right : Operand}
    (hv : visit schema bindings parameter e = .ok [.member m, .operator o, n])
    (hm : m.hasValue = false) (ho : o.isComparison = true) (hn : IsPlain n)
    (hr : n.operand? = some right) (hf : right.fits o = true)
    (ht : ∀ I (values : MemberValues schema),
      I.relate o (values.value m.path) (right.valueIn values.value) =
        truth schema bindings parameter I values e) :
    Atomic schema bindings parameter mode e := by
  refine ⟨_, .compare (.member m.path) o right, .triple hv hm ho hn ?_, ht⟩
  rw [compare?, hr]
  exact if_pos hf

theorem compare (hop : comparison? op = some o) (hl : IsMember schema parameter l)
    (hr : r.fold bindings = .ok v) (hv : v ≠ .null) :
    Atomic schema bindings parameter mode (.binary op l r) := by
  obtain ⟨m, hl, hm⟩ := hl
  refine triple (visit_compare hop hl hr (comparedWith_of_ne_null hop hv)) hm
    (isComparison_of_comparison? hop) trivial rfl (fits_of_comparison? hop _) ?_
  intro I values
  rw [truth_comparison I values hop, comparisonTruth_of_fold I values hl hr hv,
    sideValue_of_ofExpr values hl, hm, relate_eq_compare I hop]
  rfl

theorem compareLeft (hop : comparison? op = some o) (hl : l.fold bindings = .ok v)
    (hr : IsMember schema parameter r) (hv : v ≠ .null) :
    Atomic schema bindings parameter mode (.binary op l r) := by
  obtain ⟨m, hr, hm⟩ := hr
  obtain ⟨o', ho'⟩ := comparison?_swapped hop
  refine triple (visit_compare_left hop hr hl (comparedWith_of_ne_null ho' hv)) hm
    (isComparison_of_comparison? ho') trivial rfl (fits_of_comparison? ho' _) ?_
  intro I values
  rw [truth_comparison I values hop, comparisonTruth_of_fold_left I values hl hr hv,
    sideValue_of_ofExpr values hr, hm, relate_eq_compare I ho']
  rfl

theorem members (hop : comparison? op = some o) (hl : IsMember schema parameter l)
    (hr : IsMember schema parameter r) :
    Atomic schema bindings parameter mode (.binary op l r) := by
  obtain ⟨m, hl, hm⟩ := hl
  obtain ⟨m', hr, hm'⟩ := hr
  refine triple (visit_compare_members hop hl hr) hm (isComparison_of_comparison? hop) hm' rfl
    (fits_of_comparison? hop _) ?_
  intro I values
  rw [truth_comparison I values hop, comparisonTruth, isNullConstant_of_ofExpr hl,
    isNullConstant_of_ofExpr hr, sideValue_of_ofExpr values hl, sideValue_of_ofExpr values hr, hm,
    hm', relate_eq_compare I hop]
  rfl

theorem null (hop : op = .equal ∨ op = .notEqual) (hl : IsMember schema parameter l)
    (hr : r.fold bindings = .ok .null) :
    Atomic schema bindings parameter mode (.binary op l r) := by
  obtain ⟨m, hl, hm⟩ := hl
  obtain ⟨o, ho, ho'⟩ := comparison?_of_equality hop
  refine triple (visit_compare ho hl hr (comparedWith_null hop)) hm isComparison_nullTest
    trivial rfl fits_nullTest ?_
  intro I values
  rw [truth_comparison I values ho, comparisonTruth, isNullConstant_of_ofExpr hl,
    isNullConstant_of_fold hr, sideValue_of_ofExpr values hl, hm]
  exact (nullTest_eq_relate I hop).symm

theorem nullLeft (hop : op = .equal ∨ op = .notEqual) (hl : l.fold bindings = .ok .null)
    (hr : IsMember schema parameter r) :
    Atomic schema bindings parameter mode (.binary op l r) := by
  obtain ⟨m, hr, hm⟩ := hr
  obtain ⟨o, ho, ho'⟩ := comparison?_of_equality hop
  have hc : comparedWith (.binary op l r) op.swapped .null =
      .ok [.operator (if op = .equal then .is else .isNot), .null] := by
    rw [swapped_of_equality hop, comparedWith_null hop]
  refine triple (visit_compare_left ho hr hl hc) hm isComparison_nullTest
    trivial rfl fits_nullTest ?_
  intro I values
  rw [truth_comparison I values ho, comparisonTruth, isNullConstant_of_fold hl,
    sideValue_of_ofExpr values hr, hm]
  exact (nullTest_eq_relate I hop).symm

theorem boolean (he : MemberRef.ofExpr schema parameter e = .ok m) (hb : m.isBoolean = true)
    (hm : m.hasValue = false) : Atomic schema bindings parameter mode e := by
  refine ⟨_, _, .boolean he hb hm, ?_⟩
  intro I values
  rw [truth_of_ofExpr I values he, sideValue_of_ofExpr values he, hm]
  exact flagTruth_eq_relate I values he hb true

theorem check (he : IsCheck schema parameter e) : Atomic schema bindings parameter mode e := by
  obtain ⟨m, he, hm⟩ := he
  refine ⟨_, _, .check he hm, ?_⟩
  intro I values
  rw [truth_of_ofExpr I values he, sideValue_of_ofExpr values he, hm]
  rfl

theorem flag {b : Bool} (hop : op = .equal ∨ op = .notEqual) (hl : IsCheck schema parameter l)
    (hr : r.fold bindings = .ok (.boolean b)) :
    Atomic schema bindings parameter .eitherForm (.binary op l r) := by
  obtain ⟨m, hl, hm⟩ := hl
  obtain ⟨o, ho, ho'⟩ := comparison?_of_equality hop
  refine ⟨_, _, .flag (visit_compare ho hl hr (comparedWith_of_ne_null ho nofun)) hm ho', ?_⟩
  intro I values
  rw [truth_comparison I values ho, comparisonTruth_of_fold I values hl hr nofun,
    sideValue_of_ofExpr values hl, hm]
  exact (compare_check I hop ho b).symm

theorem flagLeft {b : Bool} (hop : op = .equal ∨ op = .notEqual)
    (hl : l.fold bindings = .ok (.boolean b)) (hr : IsCheck schema parameter r) :
    Atomic schema bindings parameter .eitherForm (.binary op l r) := by
  obtain ⟨m, hr, hm⟩ := hr
  obtain ⟨o, ho, ho'⟩ := comparison?_of_equality hop
  have hs := swapped_of_equality hop
  have hc : comparedWith (.binary op l r) op.swapped (.boolean b) =
      .ok [.operator o, .value (.boolean b)] := by
    have hb : Value.boolean b ≠ .null := nofun
    rw [hs, comparedWith_of_ne_null ho hb]
  refine ⟨_, _, .flag (visit_compare_left ho hr hl hc) hm ho', ?_⟩
  intro I values
  rw [truth_comparison I values ho, comparisonTruth_of_fold_left I values hl hr nofun, hs,
    sideValue_of_ofExpr values hr, hm]
  exact (compare_check I hop ho b).symm

theorem matching {target arg : Expr} {method text : String}
    (hm : method ∈ ["StartsWith", "EndsWith", "Contains", "Like"])
    (ht : IsMember schema parameter target) (ha : arg.fold bindings = .ok (.string text)) :
    Atomic schema bindings parameter mode (.methodCall target method [arg]) := by
  obtain ⟨m, ht, hv⟩ := ht
  have hn : ¬(method = "In" ∨ method = "NotIn") := by
    rintro (rfl | rfl) <;> revert hm <;> decide
  obtain ⟨pattern, hvisit, hp⟩ := visit_matching hm ht ha
  refine triple hvisit hv rfl trivial rfl rfl ?_
  intro I values
  simp only [truth, callTruth, ha, if_neg hn, Interpretation.matching, hp,
    sideValue_of_ofExpr values ht, hv]
  simp [Interpretation.relate, Operand.valueIn, Value.isNull]

theorem listed {target arg : Expr} {method : String} (hm : method = "In" ∨ method = "NotIn")
    (ht : IsMember schema parameter target) (ha : arg.fold bindings = .ok v) :
    Atomic schema bindings parameter mode (.methodCall target method [arg]) := by
  obtain ⟨m, ht, hv⟩ := ht
  have ho : (if method = "In" then Operator.inList else .notInList).isComparison = true := by
    split <;> rfl
  refine triple (visit_listed hm ht ha) hv ho trivial rfl (by split <;> rfl) ?_
  intro I values
  simp only [truth, callTruth, ha, if_pos hm, Interpretation.oneOf,
    sideValue_of_ofExpr values ht, hv]
  rcases hm with rfl | rfl <;> rfl

theorem any {target : Expr} (ht : IsMember schema parameter target) :
    Atomic schema bindings parameter mode (.methodCall target "Any" []) := by
  obtain ⟨m, ht, hv⟩ := ht
  refine triple (visit_any ht) hv rfl trivial rfl rfl ?_
  intro I values
  simp only [truth, callTruth, if_true, sideValue_of_ofExpr values ht, hv]
  rfl

/-- The negation of a boolean member compares it with false. -/
theorem not_boolean (he : MemberRef.ofExpr schema parameter e = .ok m) (hb : m.isBoolean = true)
    (hm : m.hasValue = false) : Atomic schema bindings parameter mode (.unary .not e) := by
  refine triple (visit_not_member he (.inl hb)) hm rfl trivial rfl rfl ?_
  intro I values
  rw [truth, truth_of_ofExpr I values he, sideValue_of_ofExpr values he, hm]
  exact flagTruth_eq_relate I values he hb false

/-- The negation of a check for a value asks for null. -/
theorem not_check (he : MemberRef.ofExpr schema parameter e = .ok m) (hm : m.hasValue = true) :
    Atomic schema bindings parameter mode (.unary .not e) := by
  refine ⟨_, _, .flag (visit_not_member he (.inr hm)) hm (.inl rfl), ?_⟩
  intro I values
  rw [truth, truth_of_ofExpr I values he, sideValue_of_ofExpr values he, hm, if_pos rfl]
  change _ = (Truth.ofBool !(values.value m.path).isNull).not
  rw [Truth.not_ofBool, Bool.not_not]
  rfl

end Atomic

/-- The predicate is read as a condition, alone and as an operand, that always has its truth. -/
def Preserved (schema : Schema) (bindings : Bindings) (parameter : String) (e : Expr) : Prop :=
  ∃ s f c, Lowered schema bindings parameter .eitherForm e s f ∧ (f {}).close = some c ∧
    (e.isBinary = false → f = (·.push c)) ∧
    ∀ I (values : MemberValues schema),
      c.truth I values.value = truth schema bindings parameter I values e

theorem Atomic.preserved (h : Atomic schema bindings parameter .eitherForm e) :
    Preserved schema bindings parameter e := by
  obtain ⟨s, c, hs, ht⟩ := h
  exact ⟨s, _, c, hs, rfl, fun _ => rfl, ht⟩

namespace Preserved

theorem and (hl : Preserved schema bindings parameter l)
    (hr : Preserved schema bindings parameter r) :
    Preserved schema bindings parameter (.binary .and l r) := by
  obtain ⟨s, f, c, hs, hc, hf, htc⟩ := hl
  obtain ⟨t, g, d, ht, hd, hg, htd⟩ := hr
  refine ⟨_, _, .and c d, hs.and ht hc hd, ?_, nofun, ?_⟩
  · rw [operandReading_eq hf, operandReading_eq hg]
    rfl
  · intro I values
    rw [Condition.truth, htc, htd]
    rfl

theorem or (hl : Preserved schema bindings parameter l)
    (hr : Preserved schema bindings parameter r) :
    Preserved schema bindings parameter (.binary .or l r) := by
  obtain ⟨s, f, c, hs, hc, hf, htc⟩ := hl
  obtain ⟨t, g, d, ht, hd, hg, htd⟩ := hr
  refine ⟨_, _, .or c d, hs.or ht hc hd, ?_, nofun, ?_⟩
  · rw [operandReading_eq hf, operandReading_eq hg]
    rfl
  · intro I values
    rw [Condition.truth, htc, htd]
    rfl

theorem not (he : Preserved schema bindings parameter e)
    (hn : negatedMember? schema parameter e = .ok none) :
    Preserved schema bindings parameter (.unary .not e) := by
  obtain ⟨s, f, c, hs, hc, _, ht⟩ := he
  refine ⟨_, _, .not c, hs.not hn hc, rfl, fun _ => rfl, ?_⟩
  intro I values
  rw [Condition.truth, ht]
  rfl

end Preserved

theorem IsAtom.atomic (h : IsAtom schema bindings parameter e) (mode : HasValueMode) :
    Atomic schema bindings parameter mode e := by
  cases h with
  | compare hop hl hr hv =>
    obtain ⟨o, hop⟩ := Option.isSome_iff_exists.1 hop
    exact .compare hop hl hr hv
  | compareLeft hop hl hr hv =>
    obtain ⟨o, hop⟩ := Option.isSome_iff_exists.1 hop
    exact .compareLeft hop hl hr hv
  | null hop hl hr => exact .null hop hl hr
  | nullLeft hop hl hr => exact .nullLeft hop hl hr
  | members hop hl hr =>
    obtain ⟨o, hop⟩ := Option.isSome_iff_exists.1 hop
    exact .members hop hl hr
  | boolean he hb hm => exact .boolean he hb hm
  | check he => exact .check he
  | matching hm ht ha => exact .matching hm ht ha
  | listed hm ht ha => exact .listed hm ht ha
  | any ht => exact .any ht

/-- Of the atoms, the boolean members and checks for a value are members, and their negations are
read as one condition. -/
theorem IsAtom.negation (h : IsAtom schema bindings parameter e) (mode : HasValueMode) :
    ((∃ target name, e = .member target name) ∧
      Atomic schema bindings parameter mode (.unary .not e)) ∨
    ∀ target name, e ≠ .member target name := by
  cases h with
  | boolean he hb hm =>
    obtain ⟨target, name, _, rfl, _⟩ := eq_member_of_ofExpr he
    exact .inl ⟨⟨target, name, rfl⟩, .not_boolean he hb hm⟩
  | check he =>
    obtain ⟨m, he, hm⟩ := he
    obtain ⟨target, name, _, rfl, _⟩ := eq_member_of_ofExpr he
    exact .inl ⟨⟨target, name, rfl⟩, .not_check he hm⟩
  | _ => exact .inr nofun

theorem Unquantified.preserved (h : Unquantified schema bindings parameter e) :
    Preserved schema bindings parameter e := by
  induction h with
  | and _ _ ihl ihr => exact ihl.and ihr
  | or _ _ ihl ihr => exact ihl.or ihr
  | not he ih =>
    cases he with
    | atom ha =>
      obtain ⟨_, h⟩ | hn := ha.negation .eitherForm
      · exact h.preserved
      · exact ih.not (negatedMember?_of_ne_member hn)
    | _ => exact ih.not rfl
  | atom ha => exact (ha.atomic _).preserved
  | flag hop hl hr => exact (Atomic.flag hop hl hr).preserved
  | flagLeft hop hl hr => exact (Atomic.flagLeft hop hl hr).preserved

end Predicate

namespace Query.Builder

variable {b : Builder} {l : Lambda} {ls : List Lambda}

/-- Every filter has a condition that the builder accepts and that has its truth. -/
theorem exists_accepts (hmode : b.mode = .eitherForm)
    (h : ∀ l ∈ ls, Predicate.Unquantified b.schema b.bindings l.param l.body) :
    ∃ cs, List.Forall₂ b.Accepts ls cs ∧ ∀ I (values : MemberValues b.schema),
      cs.map (Condition.truth I values.value) =
        ls.map fun l => Predicate.truth b.schema b.bindings l.param I values l.body := by
  induction ls with
  | nil => exact ⟨[], .nil, fun _ _ => rfl⟩
  | cons l ls ih =>
    rw [List.forall_mem_cons] at h
    obtain ⟨s, f, c, hs, hc, _, ht⟩ := h.1.preserved
    obtain ⟨cs, hcs, hts⟩ := ih h.2
    refine ⟨c :: cs, .cons ((hmode ▸ hs).accepts hc) hcs, ?_⟩
    intro I values
    rw [List.map_cons, List.map_cons, ht, hts]

/-- Filters that do not look into collections are accepted, and their query is read as a condition
that has the truth of all of them together. -/
theorem filters_preserve_truth (schema : Schema) (bindings : Bindings) (l : Lambda)
    (ls : List Lambda)
    (h : ∀ k ∈ l :: ls, Predicate.Unquantified schema bindings k.param k.body) :
    ∃ b, (l :: ls).foldlM filter { ofSchema schema .eitherForm with bindings } = .ok b ∧
      ∃ c, Condition.ofNodes? b.query.predicate = some c ∧
        ∀ I (values : MemberValues schema), c.truth I values.value =
          .all ((l :: ls).map fun k =>
            Predicate.truth schema bindings k.param I values k.body) := by
  obtain ⟨cs, hcs, ht⟩ :=
    exists_accepts (b := { ofSchema schema .eitherForm with bindings }) rfl h
  cases hcs with
  | @cons _ c _ cs hc hcs =>
    obtain ⟨b, hb, hw⟩ := foldlM_filter rfl (.cons hc hcs)
    refine ⟨b, hb, _, hw.ofNodes?_eq, ?_⟩
    intro I values
    rw [Condition.truth_foldl_and]
    exact congrArg Truth.all (ht I values)

/-- Two filters, `i => !(i.Paid && i.Total.HasValue == false) || 3 < i.Total` and
`i => !i.Paid && i.Names.Contains("a")`, on a schema that indexes all three members. -/
theorem filters_preserve_truth_of_orders :
    let schema : Schema := ⟨"Order", ⟨"Id", .guid⟩,
      [⟨"Paid", .boolean, none, false, false⟩, ⟨"Total", .integer, none, false, false⟩,
        ⟨"Names", .string, none, true, false⟩]⟩
    let member := fun name => Expr.member (.param "i") name
    let first : Lambda := ⟨"i", .binary .or
      (.unary .not (.binary .and (member "Paid")
        (.binary .equal (.member (member "Total") "HasValue") (.constant (.boolean false)))))
      (.binary .lessThan (.constant (.integer 3)) (member "Total"))⟩
    let second : Lambda := ⟨"i", .binary .and (.unary .not (member "Paid"))
      (.methodCall (member "Names") "Contains" [.constant (.string "a")])⟩
    ∃ b, [first, second].foldlM filter { ofSchema schema .eitherForm with bindings := [] } =
        .ok b ∧
      ∃ c, Condition.ofNodes? b.query.predicate = some c ∧
        ∀ I (values : MemberValues schema), c.truth I values.value =
          .all ([first, second].map fun k =>
            Predicate.truth schema [] k.param I values k.body) := by
  intro schema member first second
  have hpaid : MemberRef.ofExpr schema "i" (member "Paid") =
      .ok ⟨"Paid", none, some .boolean, false, false⟩ := by decide +kernel
  have htotal : Predicate.IsMember schema "i" (member "Total") :=
    ⟨⟨"Total", none, some .integer, false, false⟩, by decide +kernel, rfl⟩
  have hcheck : Predicate.IsCheck schema "i" (.member (member "Total") "HasValue") :=
    ⟨⟨"Total", none, some .integer, false, true⟩, by decide +kernel, rfl⟩
  have hnames : Predicate.IsMember schema "i" (member "Names") :=
    ⟨⟨"Names", none, some .string, false, false⟩, by decide +kernel, rfl⟩
  have hb : Predicate.Unquantified schema [] "i" (member "Paid") :=
    .atom (.boolean hpaid rfl rfl)
  refine filters_preserve_truth schema [] first [second] ?_
  intro k hk
  rcases List.mem_pair.1 hk with rfl | rfl
  · exact .or (.not (.and hb (.flag (.inl rfl) hcheck rfl)))
      (.atom (.compareLeft rfl rfl htotal nofun nofun))
  · exact .and (.not hb) (.atom (.matching (by decide) hnames rfl))

end Query.Builder

end DocStore
