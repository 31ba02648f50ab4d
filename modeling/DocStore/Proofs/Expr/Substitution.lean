import DocStore.Expr.Fold
import DocStore.Proofs.Outcome

/-!
# Constants in the place of captured values

`Expr.substitute` writes the value of every bound name into the expression. What an expression
folds to stays the same, and so does the kind of error if there is none; the text of an error shows
the expression and may differ.
-/

namespace DocStore

/-- What callers tell two failures apart by, nothing for an expression that is no constant. -/
def FoldError.kind? : FoldError → Option ErrorKind
  | notConstant => none
  | failed error => some error.kind

namespace Expr

mutual

def substitute (bindings : Bindings) : Expr → Expr
  | param name => param name
  | member target name => member (substitute bindings target) name
  | constant v => constant v
  | captured name =>
    match bindings.get? name with
    | some v => constant v
    | none => captured name
  | binary op left right => binary op (substitute bindings left) (substitute bindings right)
  | unary op operand => unary op (substitute bindings operand)
  | call method args => call method (substituteList bindings args)
  | methodCall target method args =>
    methodCall (substitute bindings target) method (substituteList bindings args)
  | lambda parameter body => lambda parameter (substitute bindings body)
  | array items => array (substituteList bindings items)

def substituteList (bindings : Bindings) : List Expr → List Expr
  | [] => []
  | e :: rest => substitute bindings e :: substituteList bindings rest

end

variable {bindings : Bindings} {e e' : Expr} {v : Value} {name method reason : String}
  {op : UnaryOp}

/-- A name becomes a constant or stays a name. -/
theorem substitute_captured (bindings : Bindings) (name : String) :
    (∃ v, bindings.get? name = some v ∧ (captured name).substitute bindings = constant v) ∨
      (bindings.get? name = none ∧ (captured name).substitute bindings = captured name) := by
  rw [substitute]
  cases h : bindings.get? name with
  | none => exact .inr ⟨rfl, rfl⟩
  | some v => exact .inl ⟨v, rfl, rfl⟩

/-- What does not tell constants from names stays. -/
theorem apply_substitute_captured {α : Type} (f : Expr → α)
    (h : ∀ v, f (constant v) = f (captured name)) :
    f ((captured name).substitute bindings) = f (captured name) := by
  obtain ⟨v, _, hs⟩ | ⟨_, hs⟩ := substitute_captured bindings name
  · rw [hs, h]
  · rw [hs]

mutual

theorem referencesParam_substitute (bindings : Bindings) :
    ∀ e : Expr, (e.substitute bindings).referencesParam = e.referencesParam
  | param _ => rfl
  | constant _ => rfl
  | captured _ => apply_substitute_captured referencesParam fun _ => rfl
  | member target _ => by
    simp only [substitute, referencesParam, referencesParam_substitute bindings target]
  | binary _ left right => by
    simp only [substitute, referencesParam, referencesParam_substitute bindings left,
      referencesParam_substitute bindings right]
  | unary _ operand => by
    simp only [substitute, referencesParam, referencesParam_substitute bindings operand]
  | call _ args => by
    simp only [substitute, referencesParam, anyReferencesParam_substituteList bindings args]
  | methodCall target _ args => by
    simp only [substitute, referencesParam, referencesParam_substitute bindings target,
      anyReferencesParam_substituteList bindings args]
  | lambda _ body => by
    simp only [substitute, referencesParam, referencesParam_substitute bindings body]
  | array items => by
    simp only [substitute, referencesParam, anyReferencesParam_substituteList bindings items]

theorem anyReferencesParam_substituteList (bindings : Bindings) :
    ∀ es : List Expr, anyReferencesParam (substituteList bindings es) = anyReferencesParam es
  | [] => rfl
  | e :: rest => by
    simp only [substituteList, anyReferencesParam, referencesParam_substitute bindings e,
      anyReferencesParam_substituteList bindings rest]

end

theorem isBinary_substitute (bindings : Bindings) (e : Expr) :
    (e.substitute bindings).isBinary = e.isBinary := by
  cases e with
  | captured name => exact apply_substitute_captured isBinary fun _ => rfl
  | _ => rfl

theorem mapError_valueOr (e e' : Expr) (x : Option Value) :
    (e.valueOr reason x).mapError FoldError.kind? =
      (e'.valueOr reason x).mapError FoldError.kind? := by
  cases x <;> rfl

theorem mapError_callValue (e e' : Expr) (known : List String) (x : Option Value) :
    (e.callValue method known x).mapError FoldError.kind? =
      (e'.callValue method known x).mapError FoldError.kind? := by
  cases x with
  | some v => rfl
  | none =>
    rw [callValue, callValue]
    split <;> rfl

theorem mapError_foldUnary (e e' : Expr) (v : Value) :
    (e.foldUnary op v).mapError FoldError.kind? = (e'.foldUnary op v).mapError FoldError.kind? := by
  unfold foldUnary
  split
  · rfl
  · exact mapError_valueOr e e' _
  · rfl
  · rfl

/-- An expression that refers to a parameter does so with constants in it, and folds to nothing. -/
theorem mapError_fold_of_constant
    (h : e.referencesParam ≠ true → (e.substitute bindings).referencesParam ≠ true →
      ((e.substitute bindings).fold bindings).mapError FoldError.kind? =
        (e.fold bindings).mapError FoldError.kind?) :
    ((e.substitute bindings).fold bindings).mapError FoldError.kind? =
      (e.fold bindings).mapError FoldError.kind? := by
  by_cases hp : e.referencesParam = true
  · have hp' : (e.substitute bindings).referencesParam = true := by
      rw [referencesParam_substitute, hp]
    rw [fold_of_referencesParam hp, fold_of_referencesParam hp']
  · exact h hp (by rwa [referencesParam_substitute])

theorem mapError_fold_captured (bindings : Bindings) (name : String) :
    (((captured name).substitute bindings).fold bindings).mapError FoldError.kind? =
      ((captured name).fold bindings).mapError FoldError.kind? := by
  obtain ⟨v, hv, h⟩ | ⟨_, h⟩ := substitute_captured bindings name
  · have hname : (captured name).fold bindings = .ok v := by
      rw [fold, if_neg nofun, hv]
      rfl
    rw [h, hname, fold, if_neg nofun]
  · rw [h]

mutual

/-- Constants in the place of names fold to what the names fold to. -/
theorem mapError_fold_substitute (bindings : Bindings) : ∀ e : Expr,
    ((e.substitute bindings).fold bindings).mapError FoldError.kind? =
      (e.fold bindings).mapError FoldError.kind?
  | param _ => rfl
  | constant _ => rfl
  | captured name => mapError_fold_captured bindings name
  | lambda _ _ => by
    refine mapError_fold_of_constant fun h h' => ?_
    rw [substitute] at h' ⊢
    rw [fold, if_neg h', fold, if_neg h]
  | member target name => by
    refine mapError_fold_of_constant fun h h' => ?_
    rw [substitute] at h' ⊢
    rw [fold, if_neg h', fold, if_neg h]
    exact mapError_bind_congr (mapError_fold_substitute bindings target)
      fun v => mapError_valueOr _ _ _
  | binary op left right => by
    refine mapError_fold_of_constant fun h h' => ?_
    rw [substitute] at h' ⊢
    rw [fold, if_neg h', fold, if_neg h]
    exact mapError_bind_congr (mapError_fold_substitute bindings left) fun a =>
      mapError_bind_congr (mapError_fold_substitute bindings right) fun b =>
        mapError_valueOr _ _ _
  | unary op operand => by
    refine mapError_fold_of_constant fun h h' => ?_
    rw [substitute] at h' ⊢
    rw [fold, if_neg h', fold, if_neg h]
    exact mapError_bind_congr (mapError_fold_substitute bindings operand)
      fun v => mapError_foldUnary _ _ _
  | call method args => by
    refine mapError_fold_of_constant fun h h' => ?_
    rw [substitute] at h' ⊢
    rw [fold, if_neg h', fold, if_neg h]
    exact mapError_bind_congr (mapError_foldList_substituteList bindings args)
      fun values => mapError_callValue _ _ _ _
  | methodCall target method args => by
    refine mapError_fold_of_constant fun h h' => ?_
    rw [substitute] at h' ⊢
    rw [fold, if_neg h', fold, if_neg h]
    exact mapError_bind_congr (mapError_foldList_substituteList bindings args) fun values =>
      mapError_bind_congr (mapError_fold_substitute bindings target) fun v =>
        mapError_callValue _ _ _ _
  | array items => by
    refine mapError_fold_of_constant fun h h' => ?_
    rw [substitute] at h' ⊢
    rw [fold, if_neg h', fold, if_neg h]
    exact mapError_bind_congr (mapError_foldList_substituteList bindings items) fun values => rfl

theorem mapError_foldList_substituteList (bindings : Bindings) : ∀ es : List Expr,
    (foldList bindings (substituteList bindings es)).mapError FoldError.kind? =
      (foldList bindings es).mapError FoldError.kind?
  | [] => rfl
  | e :: rest => by
    rw [substituteList, foldList, foldList]
    exact mapError_bind_congr (mapError_fold_substitute bindings e) fun v =>
      mapError_bind_congr (mapError_foldList_substituteList bindings rest) fun values => rfl

end

end Expr

end DocStore
