import DocStore.Predicate.Lowering
import DocStore.Proofs.Expr.Substitution

/-!
# Captured values in predicates

Every reader of a predicate takes a bound name for the constant of its value: with constants in the
place of the names the nodes are the same, or the same kind of error is reported.
-/

namespace DocStore

variable {schema : Schema} {bindings : Bindings} {parameter collection element method : String}
  {e e' body target member arg left right : Expr} {args : List Expr} {op : BinaryOp}

namespace Expr

theorem memberPath?_substitute (bindings : Bindings) (parameter : String) :
    ∀ e : Expr, (e.substitute bindings).memberPath? parameter = e.memberPath? parameter
  | member target name => by
    rw [substitute, memberPath?, memberPath?, memberPath?_substitute bindings parameter target]
  | captured _ => apply_substitute_captured (memberPath? · parameter) fun _ => rfl
  | param _ | constant _ | binary _ _ _ | unary _ _ | call _ _ | methodCall _ _ _ | lambda _ _
  | array _ => rfl

end Expr

open DocStore.Expr (substitute substituteList)

/-- What a report shows does not change its kind. -/
theorem mapError_unsupported {α : Type} (shown shown' reason : String) :
    (Except.error (Error.unsupported shown reason) : Except Error α).mapError Error.kind =
      (Except.error (Error.unsupported shown' reason)).mapError Error.kind :=
  rfl

theorem MemberRef.mapError_ofExpr_substitute (schema : Schema) (bindings : Bindings)
    (parameter : String) (e : Expr) :
    (ofExpr schema parameter (e.substitute bindings)).mapError Error.kind =
      (ofExpr schema parameter e).mapError Error.kind := by
  rw [ofExpr, ofExpr, Expr.memberPath?_substitute]
  cases e.memberPath? parameter with
  | none => exact mapError_unsupported ..
  | some path =>
    dsimp only
    split
    · exact mapError_unsupported ..
    · rfl

namespace Predicate

theorem mapError_constant?_of_fold
    (h : (e.fold bindings).mapError FoldError.kind? = (e'.fold bindings).mapError FoldError.kind?) :
    (constant? bindings e).mapError Error.kind = (constant? bindings e').mapError Error.kind := by
  rw [constant?, constant?]
  cases hx : e.fold bindings with
  | ok v =>
    cases hy : e'.fold bindings with
    | ok w =>
      rw [hx, hy] at h
      obtain rfl : v = w := Except.ok.inj h
      rfl
    | error f =>
      rw [hx, hy] at h
      cases h
  | error f =>
    cases hy : e'.fold bindings with
    | ok w =>
      rw [hx, hy] at h
      cases h
    | error g =>
      rw [hx, hy] at h
      have hkind : f.kind? = g.kind? := Except.error.inj h
      cases f <;> cases g
      · rfl
      · cases hkind
      · cases hkind
      · exact congrArg Except.error (Option.some.inj hkind)

theorem mapError_constant?_substitute :
    (constant? bindings (e.substitute bindings)).mapError Error.kind =
      (constant? bindings e).mapError Error.kind :=
  mapError_constant?_of_fold (Expr.mapError_fold_substitute bindings e)

theorem mapError_stringArgument_substitute :
    (stringArgument bindings e (arg.substitute bindings)).mapError Error.kind =
      (stringArgument bindings e' arg).mapError Error.kind := by
  refine mapError_bind_congr mapError_constant?_substitute fun v => ?_
  split
  · rfl
  · exact mapError_unsupported ..

theorem mapError_constantNodes_substitute (bindings : Bindings) (e : Expr) :
    (constantNodes bindings (e.substitute bindings)).mapError Error.kind =
      (constantNodes bindings e).mapError Error.kind := by
  refine mapError_bind_congr mapError_constant?_substitute fun v => ?_
  cases v with
  | none => exact mapError_unsupported ..
  | some v => rfl

theorem mapError_memberNodes_substitute (schema : Schema) (bindings : Bindings)
    (parameter : String) (e : Expr) :
    (memberNodes schema bindings parameter (e.substitute bindings)).mapError Error.kind =
      (memberNodes schema bindings parameter e).mapError Error.kind := by
  refine mapError_bind_congr mapError_constant?_substitute fun v => ?_
  cases v with
  | none => exact mapError_bind_congr (MemberRef.mapError_ofExpr_substitute ..) fun _ => rfl
  | some v => rfl

theorem mapError_comparedWith (e e' : Expr) (op : BinaryOp) (v : Value) :
    (comparedWith e op v).mapError Error.kind = (comparedWith e' op v).mapError Error.kind := by
  unfold comparedWith
  split
  · split
    · rfl
    · rfl
    · exact mapError_unsupported ..
  · cases comparison? op with
    | none => exact mapError_unsupported ..
    | some operator => rfl

theorem operand_substitute (e : Expr) (nodes : List Node) :
    operand (e.substitute bindings) nodes = operand e nodes := by
  rw [operand, operand, Expr.isBinary_substitute]

theorem mapError_elementMember_substitute :
    (elementMember schema collection element e (member.substitute bindings)).mapError Error.kind =
      (elementMember schema collection element e' member).mapError Error.kind := by
  rw [elementMember, elementMember, Expr.memberPath?_substitute]
  cases member.memberPath? element with
  | none => exact mapError_unsupported ..
  | some suffix => rfl

/-- Which side is the element is told by the other one, so it does not change. -/
theorem mapError_elementComparison_substitute :
    (elementComparison schema bindings collection element op (left.substitute bindings)
        (right.substitute bindings)).mapError Error.kind =
      (elementComparison schema bindings collection element op left right).mapError Error.kind := by
  refine mapError_bind_congr mapError_constant?_substitute fun l =>
    mapError_bind_congr mapError_constant?_substitute fun r => ?_
  cases l with
  | none =>
    cases r with
    | none => exact mapError_unsupported ..
    | some v =>
      simp only [bind, Except.bind]
      cases v.text? with
      | none => exact mapError_unsupported ..
      | some text => exact mapError_bind_congr mapError_elementMember_substitute fun m => rfl
  | some v =>
    cases r with
    | some w => exact mapError_unsupported ..
    | none =>
      simp only [bind, Except.bind]
      cases v.text? with
      | none => exact mapError_unsupported ..
      | some text => exact mapError_bind_congr mapError_elementMember_substitute fun m => rfl

theorem mapError_elementCall_substitute :
    (elementCall schema bindings collection element (target.substitute bindings) method
        (arg.substitute bindings)).mapError Error.kind =
      (elementCall schema bindings collection element target method arg).mapError Error.kind := by
  refine mapError_bind_congr mapError_stringArgument_substitute fun text => ?_
  have hmember : ∀ pattern, (elementMember schema collection element
      ((target.methodCall method [arg]).substitute bindings) (target.substitute bindings) >>=
        fun m => .ok (likeNodes m pattern)).mapError Error.kind =
      (elementMember schema collection element (target.methodCall method [arg]) target >>=
        fun m => .ok (likeNodes m pattern)).mapError Error.kind := fun pattern =>
    mapError_bind_congr mapError_elementMember_substitute fun _ => rfl
  split
  · exact hmember _
  · split
    · exact hmember _
    · split
      · exact hmember _
      · exact mapError_unsupported ..

theorem mapError_quantified_substitute (schema : Schema) (bindings : Bindings)
    (collection element : String) : ∀ body : Expr,
    (quantified schema bindings collection element (body.substitute bindings)).mapError Error.kind =
      (quantified schema bindings collection element body).mapError Error.kind
  | .binary op left right => by
    rw [substitute, quantified, quantified]
    cases logical? op with
    | some logical =>
      dsimp only
      refine mapError_bind_congr
        (mapError_quantified_substitute schema bindings collection element left) fun l =>
          mapError_bind_congr
            (mapError_quantified_substitute schema bindings collection element right) fun r => ?_
      rw [operand_substitute, operand_substitute]
    | none =>
      dsimp only
      split
      · exact mapError_elementComparison_substitute
      · exact mapError_unsupported ..
  | .methodCall target method args => by
    match args with
    | [arg] => exact mapError_elementCall_substitute
    | [] | _ :: _ :: _ => exact mapError_unsupported ..
  | .captured _ =>
    Expr.apply_substitute_captured
      (fun e => (quantified schema bindings collection element e).mapError Error.kind)
      fun _ => mapError_unsupported ..
  | .param _ | .constant _ => rfl
  | .member _ _ | .unary _ _ | .call _ _ | .lambda _ _ | .array _ => mapError_unsupported ..

theorem mapError_matchCall_substitute :
    (matchCall schema bindings parameter (target.substitute bindings) method
        (arg.substitute bindings)).mapError Error.kind =
      (matchCall schema bindings parameter target method arg).mapError Error.kind :=
  mapError_bind_congr (MemberRef.mapError_ofExpr_substitute ..) fun _ =>
    mapError_bind_congr mapError_stringArgument_substitute fun _ => rfl

theorem mapError_listCall_substitute :
    (listCall schema bindings parameter (target.substitute bindings) method
        (arg.substitute bindings)).mapError Error.kind =
      (listCall schema bindings parameter target method arg).mapError Error.kind := by
  refine mapError_bind_congr (MemberRef.mapError_ofExpr_substitute ..) fun m =>
    mapError_bind_congr mapError_constant?_substitute fun v => ?_
  cases v with
  | none => exact mapError_unsupported ..
  | some v => cases v <;> rfl

theorem mapError_anyCall_substitute :
    (anyCall schema parameter (target.substitute bindings)).mapError Error.kind =
      (anyCall schema parameter target).mapError Error.kind :=
  mapError_bind_congr (MemberRef.mapError_ofExpr_substitute ..) fun _ => rfl

theorem mapError_quantifiedCall_substitute :
    (quantifiedCall schema bindings parameter (target.substitute bindings) element
        (body.substitute bindings)).mapError Error.kind =
      (quantifiedCall schema bindings parameter target element body).mapError Error.kind := by
  rw [quantifiedCall, quantifiedCall, Expr.memberPath?_substitute]
  cases target.memberPath? parameter with
  | none => exact mapError_unsupported ..
  | some collection => exact mapError_quantified_substitute schema bindings collection element body

theorem mapError_memberCall_substitute :
    (memberCall schema bindings parameter (target.substitute bindings) method
        (substituteList bindings args)).mapError Error.kind =
      (memberCall schema bindings parameter target method args).mapError Error.kind := by
  match args with
  | [] =>
    rw [substituteList, memberCall, memberCall]
    split
    · exact mapError_anyCall_substitute
    · exact mapError_unsupported ..
  | [arg] =>
    unfold memberCall
    dsimp only [substituteList]
    split
    · exact mapError_matchCall_substitute
    · split
      · exact mapError_listCall_substitute
      · split
        · cases arg with
          | lambda element body => exact mapError_quantifiedCall_substitute
          | captured name =>
            obtain ⟨v, _, h⟩ | ⟨_, h⟩ := Expr.substitute_captured bindings name
            · rw [h]
              exact mapError_unsupported ..
            · rw [h]
              exact mapError_unsupported ..
          | _ => exact mapError_unsupported ..
        · exact mapError_unsupported ..
  | _ :: _ :: _ => exact mapError_unsupported ..

theorem mapError_negatedMember?_substitute (schema : Schema) (bindings : Bindings)
    (parameter : String) (e : Expr) :
    (negatedMember? schema parameter (e.substitute bindings)).mapError Error.kind =
      (negatedMember? schema parameter e).mapError Error.kind := by
  cases e with
  | member target name =>
    have hp := Expr.referencesParam_substitute bindings (.member target name)
    rw [substitute] at hp ⊢
    rw [negatedMember?, negatedMember?, hp]
    split
    · exact mapError_bind_congr
        (MemberRef.mapError_ofExpr_substitute schema bindings parameter (.member target name))
        fun _ => rfl
    · rfl
  | captured _ =>
    exact Expr.apply_substitute_captured
      (fun e => (negatedMember? schema parameter e).mapError Error.kind) fun _ => rfl
  | _ => rfl

theorem mapError_visit_substitute (schema : Schema) (bindings : Bindings) (parameter : String) :
    ∀ e : Expr, (visit schema bindings parameter (e.substitute bindings)).mapError Error.kind =
      (visit schema bindings parameter e).mapError Error.kind
  | .binary op left right => by
    rw [substitute, visit, visit]
    have hl := mapError_visit_substitute schema bindings parameter left
    have hr := mapError_visit_substitute schema bindings parameter right
    cases logical? op with
    | some logical =>
      dsimp only
      refine mapError_bind_congr hl fun l => mapError_bind_congr hr fun r => ?_
      rw [operand_substitute, operand_substitute]
    | none =>
      cases comparison? op with
      | none => exact mapError_constantNodes_substitute bindings (.binary op left right)
      | some operator =>
        dsimp only
        refine mapError_bind_congr mapError_constant?_substitute fun leftValue =>
          mapError_bind_congr mapError_constant?_substitute fun rightValue => ?_
        cases leftValue with
        | none =>
          cases rightValue with
          | none =>
            refine mapError_bind_congr hl fun l => mapError_bind_congr hr fun r => ?_
            rw [operand_substitute, operand_substitute]
          | some v =>
            refine mapError_bind_congr hl fun l =>
              mapError_bind_congr (mapError_comparedWith _ _ op v) fun compared => ?_
            rw [operand_substitute]
        | some v =>
          cases rightValue with
          | none =>
            refine mapError_bind_congr hr fun r =>
              mapError_bind_congr (mapError_comparedWith _ _ op.swapped v) fun compared => ?_
            rw [operand_substitute]
          | some w => exact mapError_unsupported ..
  | .unary .not e => by
    rw [substitute, visit, visit]
    refine mapError_bind_congr (mapError_negatedMember?_substitute schema bindings parameter e)
      fun m => ?_
    cases m with
    | some m => rfl
    | none =>
      exact mapError_bind_congr (mapError_visit_substitute schema bindings parameter e) fun s => rfl
  | .unary .negate e => mapError_constantNodes_substitute bindings (.unary .negate e)
  | .member target name =>
    mapError_memberNodes_substitute schema bindings parameter (.member target name)
  | .param name => rfl
  | .methodCall target method args => by
    rw [substitute, visit, visit, Expr.referencesParam_substitute]
    split
    · exact mapError_memberCall_substitute
    · exact mapError_constantNodes_substitute bindings (.methodCall target method args)
  | .captured name => by
    have h := mapError_constantNodes_substitute bindings (.captured name)
    obtain ⟨v, _, hs⟩ | ⟨_, hs⟩ := Expr.substitute_captured bindings name
    · rw [hs] at h ⊢
      exact h
    · rw [hs]
  | .constant _ => rfl
  | .call method args => mapError_constantNodes_substitute bindings (.call method args)
  | .lambda p body => mapError_constantNodes_substitute bindings (.lambda p body)
  | .array items => mapError_constantNodes_substitute bindings (.array items)

end Predicate

def Lambda.substitute (bindings : Bindings) (l : Lambda) : Lambda :=
  ⟨l.param, l.body.substitute bindings⟩

namespace Predicate

/-- A captured value is the same as its constant: with constants in the place of all bound names the
predicate has the same nodes, or fails with the same kind of error. -/
theorem ofLambda_substitute (schema : Schema) (bindings : Bindings) (mode : HasValueMode)
    (l : Lambda) :
    (ofLambda schema bindings mode (l.substitute bindings)).mapError Error.kind =
      (ofLambda schema bindings mode l).mapError Error.kind := by
  refine mapError_bind_congr (mapError_visit_substitute schema bindings l.param l.body)
    fun nodes => ?_
  split
  · rfl
  · exact mapError_unsupported ..

end Predicate

end DocStore
