import DocStore.Proofs.Predicate.Quantified

/-!
# Quantified predicates among others

Among other operands, the nodes of `xs.Any(e => p)` are read as the whole of `p` except where `p` is
an `||` and the quantified predicate is an operand of `&&`: the `and` then takes one side of the
`||`. `Renders` says so of one predicate with any number of quantified ones; lists of such filters
follow from it.
-/

namespace DocStore

namespace Predicate

open Condition

section

variable (schema : Schema) (bindings : Bindings) (parameter : String) (mode : HasValueMode)

def alone (e : Expr) : Condition :=
  match ofLambda schema bindings mode ⟨parameter, e⟩ with
  | .ok nodes => (ofNodes? nodes).getD default
  | .error _ => default

/-- The condition that is meant: the operators of the predicate, with the conditions of their
operands on their own. A negated member is an operand of its own. -/
def meant : Expr → Condition
  | .binary op l r =>
    match op with
    | .and => .and (meant l) (meant r)
    | .or => .or (meant l) (meant r)
    | op => alone schema bindings parameter mode (.binary op l r)
  | .unary .not e =>
    match e with
    | .member target name =>
      alone schema bindings parameter mode (.unary .not (.member target name))
    | e => .not (meant e)
  | e => alone schema bindings parameter mode e

def isQuantified : Expr → Bool
  | .methodCall _ "Any" [.lambda _ _] => true
  | _ => false

/-- The truth of a predicate by its structure, where a quantified predicate has the truth of its
own nodes. -/
def quantifiedTruth (I : Interpretation) (values : MemberValues schema) : Expr → Truth
  | .binary op l r =>
    match op with
    | .and => (quantifiedTruth I values l).and (quantifiedTruth I values r)
    | .or => (quantifiedTruth I values l).or (quantifiedTruth I values r)
    | op => truth schema bindings parameter I values (.binary op l r)
  | .unary .not e => (quantifiedTruth I values e).not
  | e =>
    if isQuantified e then (alone schema bindings parameter mode e).truth I values.value
    else truth schema bindings parameter I values e

/-- A quantified predicate with an `||`. -/
def isAlternative : Expr → Bool
  | .methodCall _ "Any" [.lambda _ body] => isDisjunction body
  | _ => false

/-- Some `&&` has a quantified predicate with an `||` as an operand. -/
def misgrouped : Expr → Bool
  | .binary .and l r => isAlternative l || isAlternative r || (misgrouped l || misgrouped r)
  | .binary .or l r => misgrouped l || misgrouped r
  | .unary .not e => misgrouped e
  | _ => false

/-- Predicates built from atoms and from quantified predicates. -/
inductive Quantifying : Expr → Prop where
  | and {l r : Expr} : Quantifying l → Quantifying r → Quantifying (.binary .and l r)
  | or {l r : Expr} : Quantifying l → Quantifying r → Quantifying (.binary .or l r)
  | not {e : Expr} : Quantifying e → Quantifying (.unary .not e)
  | atom {e : Expr} : IsAtom schema bindings parameter e → Quantifying e
  | any {target body : Expr} {collection element : String} {nodes : List Node}
    (ht : target.memberPath? parameter = some collection)
    (hb : quantified schema bindings collection element body = .ok nodes) :
    Quantifying (.methodCall target "Any" [.lambda element body])

end

variable {schema : Schema} {bindings : Bindings} {parameter : String} {mode : HasValueMode}
  {e l r : Expr} {s t : List Node} {f g : Pending → Pending} {c : Condition} {S T : Shape}

theorem Lowered.alone_eq (h : Lowered schema bindings parameter mode e s f)
    (hc : (f {}).close = some c) : alone schema bindings parameter mode e = c := by
  simp only [alone, h.ofLambda_eq, h.reads.ofNodes?_eq hc, Option.getD_some]

/-- The expression lowers to nodes that are read as the shape `S` where it is an operand, and whose
reading is what is meant unless it is misgrouped. -/
structure Renders (schema : Schema) (bindings : Bindings) (parameter : String)
    (mode : HasValueMode) (e : Expr) (s : List Node) (f : Pending → Pending) (S : Shape) : Prop
    extends Lowered schema bindings parameter mode e s f where
  close : (f {}).close = some S.condition
  operand_eq : operandReading e S.condition f = S.reading
  isEither : S.isEither = isAlternative e
  meant_eq : S.isEither = true → meant schema bindings parameter mode e = S.condition
  rendered : Rendered S.condition (meant schema bindings parameter mode e) (misgrouped e)
  truth_eq : ∀ I (values : MemberValues schema),
    (meant schema bindings parameter mode e).truth I values.value =
      quantifiedTruth schema bindings parameter mode I values e

namespace Renders

theorem single (h : Lowered schema bindings parameter mode e s f)
    (hc : (f {}).close = some c) (hf : e.isBinary = false → f = (·.push c))
    (ha : isAlternative e = false)
    (hr : Rendered c (meant schema bindings parameter mode e) (misgrouped e))
    (ht : ∀ I (values : MemberValues schema),
      (meant schema bindings parameter mode e).truth I values.value =
        quantifiedTruth schema bindings parameter mode I values e) :
    Renders schema bindings parameter mode e s f (.single c) where
  toLowered := h
  close := hc
  operand_eq := operandReading_eq hf
  isEither := ha.symm
  meant_eq := nofun
  rendered := hr
  truth_eq := ht

theorem and (hl : Renders schema bindings parameter mode l s f S)
    (hr : Renders schema bindings parameter mode r t g T) :
    ∃ s f S, Renders schema bindings parameter mode (.binary .and l r) s f S := by
  obtain ⟨c, hc, hrendered⟩ :=
    Shape.rendered_and hl.rendered hr.rendered hl.meant_eq hr.meant_eq
  have h := hl.toLowered.and hr.toLowered hl.close hr.close
  rw [hl.operand_eq, hr.operand_eq] at h
  rw [hl.isEither, hr.isEither] at hrendered
  refine ⟨_, _, _, single h hc nofun rfl hrendered ?_⟩
  intro I values
  rw [meant, Condition.truth, hl.truth_eq, hr.truth_eq, quantifiedTruth]

theorem or (hl : Renders schema bindings parameter mode l s f S)
    (hr : Renders schema bindings parameter mode r t g T) :
    ∃ s f S, Renders schema bindings parameter mode (.binary .or l r) s f S := by
  obtain ⟨c, hc, hrendered⟩ := Shape.rendered_or hl.rendered hr.rendered
  have h := hl.toLowered.or hr.toLowered hl.close hr.close
  rw [hl.operand_eq, hr.operand_eq] at h
  refine ⟨_, _, _, single h hc nofun rfl hrendered ?_⟩
  intro I values
  rw [meant, Condition.truth, hl.truth_eq, hr.truth_eq, quantifiedTruth]

theorem not (he : Renders schema bindings parameter mode e s f S)
    (hm : ∀ target name, e ≠ .member target name) :
    ∃ s f S, Renders schema bindings parameter mode (.unary .not e) s f S := by
  have h := he.toLowered.not (negatedMember?_of_ne_member hm) he.close
  have hmeant : meant schema bindings parameter mode (.unary .not e) =
      .not (meant schema bindings parameter mode e) := by
    cases e <;> first | rfl | exact absurd rfl (hm _ _)
  refine ⟨_, _, _, single h rfl (fun _ => rfl) rfl ?_ ?_⟩
  · rw [hmeant]
    exact he.rendered.not
  · intro I values
    rw [hmeant, Condition.truth, he.truth_eq, quantifiedTruth]

end Renders

theorem quantifiedTruth_methodCall (I : Interpretation) (values : MemberValues schema)
    (target : Expr) (method : String) (args : List Expr) :
    quantifiedTruth schema bindings parameter mode I values (.methodCall target method args) =
      if isQuantified (.methodCall target method args) then
        (alone schema bindings parameter mode (.methodCall target method args)).truth I values.value
      else truth schema bindings parameter I values (.methodCall target method args) := rfl

theorem isQuantified_of_method {target : Expr} {method : String} {args : List Expr}
    (h : method ≠ "Any") : isQuantified (.methodCall target method args) = false ∧
      isAlternative (.methodCall target method args) = false := by
  unfold isQuantified isAlternative
  constructor <;> split <;> first | rfl | simp_all

theorem IsAtom.isQuantified_eq (h : IsAtom schema bindings parameter e) :
    isQuantified e = false ∧ isAlternative e = false := by
  cases h with
  | boolean he =>
    obtain ⟨target, name, _, rfl, _⟩ := eq_member_of_ofExpr he
    exact ⟨rfl, rfl⟩
  | check he =>
    obtain ⟨m, he, _⟩ := he
    obtain ⟨target, name, _, rfl, _⟩ := eq_member_of_ofExpr he
    exact ⟨rfl, rfl⟩
  | matching hm => exact isQuantified_of_method (by rintro rfl; revert hm; decide)
  | listed hm => exact isQuantified_of_method (by rintro rfl; revert hm; decide)
  | _ => exact ⟨rfl, rfl⟩

theorem comparison?_of_equality_isSome {op : BinaryOp} (h : op = .equal ∨ op = .notEqual) :
    (comparison? op).isSome := by
  rcases h with rfl | rfl <;> rfl

/-- Atoms are not put together from others. -/
theorem IsAtom.meant_eq (h : IsAtom schema bindings parameter e) (mode : HasValueMode) :
    meant schema bindings parameter mode e = alone schema bindings parameter mode e ∧
      misgrouped e = false ∧ ∀ I (values : MemberValues schema),
        quantifiedTruth schema bindings parameter mode I values e =
          truth schema bindings parameter I values e := by
  have hq := h.isQuantified_eq.1
  have hbinary : ∀ {op : BinaryOp} {l r : Expr}, (comparison? op).isSome →
      meant schema bindings parameter mode (.binary op l r) =
          alone schema bindings parameter mode (.binary op l r) ∧
        misgrouped (.binary op l r) = false ∧ ∀ I (values : MemberValues schema),
          quantifiedTruth schema bindings parameter mode I values (.binary op l r) =
            truth schema bindings parameter I values (.binary op l r) := by
    intro op l r hop
    cases op <;> first | exact ⟨rfl, rfl, fun _ _ => rfl⟩ | cases hop
  cases h with
  | compare hop => exact hbinary hop
  | compareLeft hop => exact hbinary hop
  | members hop => exact hbinary hop
  | null hop => exact hbinary (comparison?_of_equality_isSome hop)
  | nullLeft hop => exact hbinary (comparison?_of_equality_isSome hop)
  | boolean he =>
    obtain ⟨target, name, _, rfl, _⟩ := eq_member_of_ofExpr he
    exact ⟨rfl, rfl, fun _ _ => rfl⟩
  | check he =>
    obtain ⟨m, he, _⟩ := he
    obtain ⟨target, name, _, rfl, _⟩ := eq_member_of_ofExpr he
    exact ⟨rfl, rfl, fun _ _ => rfl⟩
  | matching => exact ⟨rfl, rfl, fun _ _ => by rw [quantifiedTruth_methodCall, hq]; rfl⟩
  | listed => exact ⟨rfl, rfl, fun _ _ => by rw [quantifiedTruth_methodCall, hq]; rfl⟩
  | any => exact ⟨rfl, rfl, fun _ _ => rfl⟩

theorem IsAtom.renders (h : IsAtom schema bindings parameter e) (mode : HasValueMode) :
    ∃ s f S, Renders schema bindings parameter mode e s f S := by
  obtain ⟨s, c, hs, ht⟩ := h.atomic mode
  obtain ⟨hmeant, hmis, htruth⟩ := h.meant_eq mode
  have hc : meant schema bindings parameter mode e = c := hmeant.trans (hs.alone_eq rfl)
  refine ⟨s, _, _, .single hs rfl (fun _ => rfl) h.isQuantified_eq.2 ?_ ?_⟩
  · rw [hc, hmis]
    exact .refl c
  · intro I values
    rw [hc, ht, htruth]

theorem renders_not_member {target : Expr} {name : String}
    (h : IsAtom schema bindings parameter (.member target name))
    (ha : Atomic schema bindings parameter mode (.unary .not (.member target name))) :
    ∃ s f S, Renders schema bindings parameter mode (.unary .not (.member target name)) s f S := by
  obtain ⟨s, c, hs, ht⟩ := ha
  have hc : meant schema bindings parameter mode (.unary .not (.member target name)) = c :=
    hs.alone_eq rfl
  refine ⟨s, _, _, .single hs rfl (fun _ => rfl) rfl ?_ ?_⟩
  · rw [hc]
    exact .refl c
  · intro I values
    rw [hc, ht, truth, quantifiedTruth, (h.meant_eq mode).2.2]

theorem renders_any {target body : Expr} {collection element : String} {nodes : List Node}
    (ht : target.memberPath? parameter = some collection)
    (hb : quantified schema bindings collection element body = .ok nodes) :
    ∃ s f S, Renders schema bindings parameter mode
      (.methodCall target "Any" [.lambda element body]) s f S := by
  obtain ⟨S, hS, _, hd⟩ := exists_shape hb mode
  have h : Lowered schema bindings parameter mode _ nodes S.reading := ⟨hS, visit_quantified ht hb⟩
  have hc : meant schema bindings parameter mode
      (.methodCall target "Any" [.lambda element body]) = S.condition :=
    h.alone_eq S.close_reading
  refine ⟨nodes, _, S, h, S.close_reading, rfl, hd, fun _ => hc, ?_, ?_⟩
  · rw [hc]
    exact .refl _
  · intro I values
    rw [quantifiedTruth_methodCall]
    rfl

theorem Quantifying.renders (h : Quantifying schema bindings parameter e) (mode : HasValueMode) :
    ∃ s f S, Renders schema bindings parameter mode e s f S := by
  induction h with
  | and _ _ ihl ihr =>
    obtain ⟨_, _, _, hl⟩ := ihl
    obtain ⟨_, _, _, hr⟩ := ihr
    exact hl.and hr
  | or _ _ ihl ihr =>
    obtain ⟨_, _, _, hl⟩ := ihl
    obtain ⟨_, _, _, hr⟩ := ihr
    exact hl.or hr
  | not he ih =>
    obtain ⟨_, _, _, hs⟩ := ih
    cases he with
    | atom ha =>
      obtain ⟨⟨target, name, rfl⟩, h⟩ | hm := ha.negation mode
      · exact renders_not_member ha h
      · exact hs.not hm
    | _ => exact hs.not nofun
  | atom ha => exact ha.renders mode
  | any ht hb => exact renders_any ht hb

def meantByAll (schema : Schema) (bindings : Bindings) (mode : HasValueMode) (l : Lambda)
    (ls : List Lambda) : Condition :=
  (ls.map fun k => meant schema bindings k.param mode k.body).foldl .and
    (meant schema bindings l.param mode l.body)

end Predicate

namespace Query.Builder

open Predicate

variable {b : Builder} {ls : List Lambda}

theorem exists_rendered
    (h : ∀ k ∈ ls, Quantifying b.schema b.bindings k.param k.body) :
    ∃ cs, List.Forall₂ b.Accepts ls cs ∧
      List.Forall₂ (fun k c => Rendered c (meant b.schema b.bindings k.param b.mode k.body)
        (misgrouped k.body)) ls cs ∧
      ∀ I (values : MemberValues b.schema),
        (ls.map fun k => meant b.schema b.bindings k.param b.mode k.body).map
            (Condition.truth I values.value) =
          ls.map fun k => quantifiedTruth b.schema b.bindings k.param b.mode I values k.body := by
  induction ls with
  | nil => exact ⟨[], .nil, .nil, fun _ _ => rfl⟩
  | cons k ls ih =>
    rw [List.forall_mem_cons] at h
    obtain ⟨s, f, S, hk⟩ := h.1.renders b.mode
    obtain ⟨cs, hcs, hrs, hts⟩ := ih h.2
    refine ⟨S.condition :: cs, .cons (hk.toLowered.accepts hk.close) hcs,
      .cons hk.rendered hrs, ?_⟩
    intro I values
    rw [List.map_cons, List.map_cons, List.map_cons, hk.truth_eq, hts]

/-- Filters with quantified predicates are accepted, and their query is read as a condition with
the comparisons of the one that is meant. The two agree for all truths of the comparisons exactly
when no `&&` has a quantified predicate with an `||` as an operand; the query then has the truth of
all filters together. -/
theorem filters_quantified (schema : Schema) (bindings : Bindings) (mode : HasValueMode)
    (l : Lambda) (ls : List Lambda)
    (h : ∀ k ∈ l :: ls, Quantifying schema bindings k.param k.body) :
    ∃ b c, (l :: ls).foldlM filter { ofSchema schema mode with bindings } = .ok b ∧
      Condition.ofNodes? b.query.predicate = some c ∧
      c.comparisons = (meantByAll schema bindings mode l ls).comparisons ∧
      (∀ I (values : MemberValues schema),
        (meantByAll schema bindings mode l ls).truth I values.value =
          .all ((l :: ls).map fun k =>
            quantifiedTruth schema bindings k.param mode I values k.body)) ∧
      ((∀ t, c.holds t = (meantByAll schema bindings mode l ls).holds t) ↔
        ∀ k ∈ l :: ls, misgrouped k.body = false) ∧
      ((∀ k ∈ l :: ls, misgrouped k.body = false) → ∀ I (values : MemberValues schema),
        c.truth I values.value =
          .all ((l :: ls).map fun k =>
            quantifiedTruth schema bindings k.param mode I values k.body)) := by
  obtain ⟨cs, hcs, hrs, hts⟩ :=
    exists_rendered (b := { ofSchema schema mode with bindings }) h
  cases hcs with
  | @cons _ c _ cs hc hcs =>
    obtain ⟨b, hb, hw⟩ := foldlM_filter rfl (.cons hc hcs)
    obtain ⟨hl, hls⟩ := List.forall₂_cons.1 hrs
    have hr : Rendered (cs.foldl .and c) (meantByAll schema bindings mode l ls)
        ((l :: ls).any fun k => misgrouped k.body) := hl.foldl_and hls
    have hmis : ((l :: ls).any fun k => misgrouped k.body) = false ↔
        ∀ k ∈ l :: ls, misgrouped k.body = false := by
      simp only [List.any_eq_false, Bool.not_eq_true]
    have htruth : ∀ I (values : MemberValues schema),
        (meantByAll schema bindings mode l ls).truth I values.value =
          .all ((l :: ls).map fun k =>
            quantifiedTruth schema bindings k.param mode I values k.body) := by
      intro I values
      rw [meantByAll, Condition.truth_foldl_and]
      exact congrArg Truth.all (hts I values)
    refine ⟨b, _, hb, hw.ofNodes?_eq, hr.comparisons_eq, htruth, ⟨?_, ?_⟩, ?_⟩
    · intro hagree
      rw [← hmis, Bool.eq_false_iff]
      intro hx
      obtain ⟨t, ht⟩ := hr.differ hx
      exact ht (hagree t)
    · intro hx
      exact hr.agree (hmis.2 hx)
    · intro hx I values
      rw [← htruth]
      exact Condition.truth_eq_of_holds_eq I _ hr.comparisons_eq (hr.agree (hmis.2 hx))

/-- The filters `i => i.Bool1 || i.Tags.Any(t => t == "x" || t == "y")` and
`i => i.Tags.Any(t => t == "x" || t == "y")` have the truth of both together. -/
theorem filters_quantified_of_tags :
    let schema : Schema := ⟨"Item", ⟨"Id", .guid⟩,
      [⟨"Bool1", .boolean, none, false, false⟩, ⟨"Tags", .string, none, true, false⟩]⟩
    let tagged := fun text => Expr.binary .equal (.param "t") (.constant (.string text))
    let any := Expr.methodCall (.member (.param "i") "Tags") "Any"
      [.lambda "t" (.binary .or (tagged "x") (tagged "y"))]
    let first : Lambda := ⟨"i", .binary .or (.member (.param "i") "Bool1") any⟩
    let second : Lambda := ⟨"i", any⟩
    ∃ b c, [first, second].foldlM filter { ofSchema schema .eitherForm with bindings := [] } =
        .ok b ∧ Condition.ofNodes? b.query.predicate = some c ∧
      ∀ I (values : MemberValues schema), c.truth I values.value =
        .all ([first, second].map fun k =>
          quantifiedTruth schema [] k.param .eitherForm I values k.body) := by
  intro schema tagged any first second
  have hflag : MemberRef.ofExpr schema "i" (.member (.param "i") "Bool1") =
      .ok ⟨"Bool1", none, some .boolean, false, false⟩ := by decide +kernel
  have hbody : quantified schema [] "Tags" "t" (.binary .or (tagged "x") (tagged "y")) =
      .ok (.startGroup ::
        likeNodes ⟨"Tags", none, some .string, false, false⟩ (Pattern.hasElement "x") ++
        .endGroup :: .operator .or :: .startGroup ::
        likeNodes ⟨"Tags", none, some .string, false, false⟩ (Pattern.hasElement "y") ++
        [.endGroup]) := by decide +kernel
  have hany : Quantifying schema [] "i" any := .any rfl hbody
  have h : ∀ k ∈ [first, second], Quantifying schema [] k.param k.body := by
    intro k hk
    rcases List.mem_pair.1 hk with rfl | rfl
    · exact .or (.atom (.boolean hflag rfl rfl)) hany
    · exact hany
  obtain ⟨b, c, hb, hc, -, -, -, htruth⟩ :=
    filters_quantified schema [] .eitherForm first [second] h
  exact ⟨b, c, hb, hc, htruth (by decide)⟩

/-- The filter `i => i.Bool1 && i.Tags.Any(t => t == "x" || t == "y")` is read as true of an item
whose `Bool1` is false. -/
theorem filter_and_alternative_misread :
    let schema : Schema := ⟨"Item", ⟨"Id", .guid⟩,
      [⟨"Bool1", .boolean, none, false, false⟩, ⟨"Tags", .string, none, true, false⟩]⟩
    let tagged := fun text => Expr.binary .equal (.param "t") (.constant (.string text))
    let l : Lambda := ⟨"i", .binary .and (.member (.param "i") "Bool1")
      (.methodCall (.member (.param "i") "Tags") "Any"
        [.lambda "t" (.binary .or (tagged "x") (tagged "y"))])⟩
    ∃ b c, (ofSchema schema .eitherForm).filter l = .ok b ∧
      Condition.ofNodes? b.query.predicate = some c ∧
      ∃ I, ∃ values : MemberValues schema, c.truth I values.value = .yes ∧
        quantifiedTruth schema [] l.param .eitherForm I values l.body = .no := by
  intro schema tagged l
  let tag : MemberRef := ⟨"Tags", none, some .string, false, false⟩
  let flag : MemberRef := ⟨"Bool1", none, some .boolean, false, false⟩
  let like := fun text =>
    Condition.compare (.member "Tags") .like (.value (.string (Pattern.hasElement text)))
  have hflag : MemberRef.ofExpr schema "i" (.member (.param "i") "Bool1") = .ok flag := by
    decide +kernel
  have hnodes : ofLambda schema [] .eitherForm l =
      .ok ([.member flag, .operator .equal, .value (.boolean true), .operator .and, .startGroup] ++
        likeNodes tag (Pattern.hasElement "x") ++ [.endGroup, .operator .or, .startGroup] ++
        likeNodes tag (Pattern.hasElement "y") ++ [.endGroup]) := by decide +kernel
  let I : Interpretation := {
    equal := fun a b => .ofBool (decide (a = b))
    less := fun _ _ => .no
    atMost := fun _ _ => .no
    like := fun _ pattern => if pattern = .string (Pattern.hasElement "y") then .yes else .no
    within := fun _ _ => .no
    equal_comm := by
      intro a b
      rw [decide_eq_decide.2 eq_comm]
    equal_boolean := by
      intro a b
      cases a <;> cases b <;> rfl }
  let values : MemberValues schema := {
    value := fun path =>
      if path = "Bool1" then .boolean false
      else if path = "Tags" then .string (Composite.element "y") else .null
    boolean := by
      intro path hb
      by_cases hf : path = "Bool1"
      · exact .inr ⟨false, if_pos hf⟩
      · by_cases ht : path = "Tags"
        · subst ht
          revert hb
          decide
        · exact .inl ((if_neg hf).trans (if_neg ht)) }
  refine ⟨_, .or (.and (.compare (.member "Bool1") .equal (.value (.boolean true))) (like "x"))
    (like "y"), filter_eq hnodes, rfl, I, values, by decide +kernel, ?_⟩
  have hside : sideValue schema [] "i" values (.member (.param "i") "Bool1") = .boolean false := by
    rw [sideValue_of_ofExpr values hflag]
    rfl
  simp only [l, quantifiedTruth, truth, hside, isQuantified]
  rfl

end Query.Builder

end DocStore
