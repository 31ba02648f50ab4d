import Mathlib.Algebra.Group.Int.Defs
import DocStore.Expr.Fold

/-!
# Arithmetic of whole numbers

Constant expressions built from whole numbers by negation and the four operations have a value over
the unbounded integers, unless a divisor is zero. They fold to exactly that value if it and the
values of all their parts are 64-bit numbers, and are invalid otherwise: no result is wrapped, and
none is a float.
-/

namespace DocStore

def IsInt64 (x : Int) : Prop :=
  -2 ^ 63 ≤ x ∧ x ≤ 2 ^ 63 - 1

instance (x : Int) : Decidable (IsInt64 x) :=
  inferInstanceAs (Decidable (_ ∧ _))

theorem isInt64_toInt (i : Int64) : IsInt64 i.toInt :=
  ⟨i.le_toInt, i.toInt_le⟩

theorem int64?_of_isInt64 {x : Int} (h : IsInt64 x) : ∃ i, int64? x = some i ∧ i.toInt = x := by
  have hrange : Int64.minValue.toInt ≤ x ∧ x ≤ Int64.maxValue.toInt := h
  exact ⟨Int64.ofInt x, if_pos hrange, Int64.toInt_ofInt_of_le h.1 (by have := h.2; omega)⟩

theorem int64?_eq_none {x : Int} (h : ¬IsInt64 x) : int64? x = none :=
  if_neg h

def BinaryOp.unbounded? (op : BinaryOp) (a b : Int) : Option Int :=
  match op with
  | add => some (a + b)
  | subtract => some (a - b)
  | multiply => some (a * b)
  | divide => if b = 0 then none else some (a.tdiv b)
  | _ => none

def BinaryOp.arithmetic : List BinaryOp :=
  [add, subtract, multiply, divide]

namespace Expr

/-- Built from whole numbers, constant or captured, by negation and the four operations. -/
inductive IsArithmetic (bindings : Bindings) : Expr → Prop
  | constant (i : Int64) : IsArithmetic bindings (constant (.integer i))
  | captured {name : String} {i : Int64} (h : bindings.get? name = some (.integer i)) :
    IsArithmetic bindings (captured name)
  | negate {e : Expr} (h : IsArithmetic bindings e) : IsArithmetic bindings (unary .negate e)
  | operation {op : BinaryOp} {left right : Expr} (hop : op ∈ BinaryOp.arithmetic)
    (hl : IsArithmetic bindings left) (hr : IsArithmetic bindings right) :
    IsArithmetic bindings (binary op left right)

/-- The value of an arithmetic expression over the unbounded integers, none if a divisor in it is
zero. -/
def unbounded? (bindings : Bindings) : Expr → Option Int
  | constant (.integer i) => some i.toInt
  | captured name =>
    match bindings.get? name with
    | some (.integer i) => some i.toInt
    | _ => none
  | unary .negate e => (unbounded? bindings e).map (- ·)
  | binary op left right => do
    let a ← unbounded? bindings left
    let b ← unbounded? bindings right
    op.unbounded? a b
  | _ => none

def parts : Expr → List Expr
  | unary op e => unary op e :: parts e
  | binary op left right => binary op left right :: (parts left ++ parts right)
  | e => [e]

/-- No divisor is zero and the value of every part is a number of 64 bits. -/
def Fits (bindings : Bindings) (e : Expr) : Prop :=
  ∀ part ∈ e.parts, ∃ x ∈ part.unbounded? bindings, IsInt64 x

instance (bindings : Bindings) (e : Expr) : Decidable (Fits bindings e) :=
  inferInstanceAs (Decidable (∀ part ∈ e.parts, ∃ x ∈ part.unbounded? bindings, IsInt64 x))

variable {bindings : Bindings} {e left right : Expr} {op : BinaryOp}

theorem fits_negate : Fits bindings (unary .negate e) ↔
    (∃ x ∈ (unary .negate e).unbounded? bindings, IsInt64 x) ∧ Fits bindings e := by
  rw [Fits, parts, List.forall_mem_cons, Fits]

theorem fits_binary : Fits bindings (binary op left right) ↔
    (∃ x ∈ (binary op left right).unbounded? bindings, IsInt64 x) ∧ Fits bindings left ∧
      Fits bindings right := by
  rw [Fits, parts, List.forall_mem_cons, List.forall_mem_append, Fits, Fits]

theorem IsArithmetic.referencesParam_eq_false (h : IsArithmetic bindings e) :
    e.referencesParam = false := by
  induction h with
  | constant | captured => rfl
  | negate _ ih => rw [referencesParam, ih]
  | operation _ _ _ ihl ihr => rw [referencesParam, ihl, ihr, Bool.or_false]

theorem integerArithmetic?_eq (op : BinaryOp) (a b : Int) :
    Value.integerArithmetic? op a b = (op.unbounded? a b).bind int64? := by
  cases op with
  | divide =>
    rw [Value.integerArithmetic?, BinaryOp.unbounded?]
    split <;> rfl
  | _ => rfl

/-- The operations on whole numbers are never those on floats. -/
theorem binary?_integer (hop : op ∈ BinaryOp.arithmetic) (a b : Int64) :
    Value.binary? op (.integer a) (.integer b) =
      ((op.unbounded? a.toInt b.toInt).bind int64?).map .integer := by
  rw [← integerArithmetic?_eq]
  simp only [BinaryOp.arithmetic, List.mem_cons, List.not_mem_nil, or_false] at hop
  rcases hop with rfl | rfl | rfl | rfl <;> rfl

/-- Folding ends with the exact value if the expression fits, and as invalid if not. -/
inductive Folds (bindings : Bindings) (e : Expr) : Prop
  | value (i : Int64) (fits : Fits bindings e) (exact : e.unbounded? bindings = some i.toInt)
    (fold : e.fold bindings = .ok (.integer i))
  | invalid (error : Error) (fits : ¬Fits bindings e)
    (fold : e.fold bindings = .error (.failed error)) (kind : error.kind = .parse)

/-- The last operation decides about an expression whose parts fit. -/
theorem Folds.of_valueOr (reason : String)
    (hfold : e.fold bindings =
      e.valueOr reason (((e.unbounded? bindings).bind int64?).map .integer))
    (hfits : Fits bindings e ↔ ∃ x ∈ e.unbounded? bindings, IsInt64 x) : Folds bindings e := by
  by_cases h : Fits bindings e
  · obtain ⟨x, hx, hrange⟩ := hfits.1 h
    obtain ⟨i, hi, rfl⟩ := int64?_of_isInt64 hrange
    refine .value i h hx ?_
    rw [hfold, Option.mem_def.1 hx, Option.bind_some, hi]
    rfl
  · refine .invalid (Error.invalidConstant e.display reason) h ?_ rfl
    have hnone : (e.unbounded? bindings).bind int64? = none := by
      cases hx : e.unbounded? bindings with
      | none => rfl
      | some x => exact int64?_eq_none fun hrange => h (hfits.2 ⟨x, hx, hrange⟩)
    rw [hfold, hnone]
    rfl

theorem folds_number {i : Int64} (hparts : e.parts = [e])
    (hexact : e.unbounded? bindings = some i.toInt) (hfold : e.fold bindings = .ok (.integer i)) :
    Folds bindings e := by
  refine .value i ?_ hexact hfold
  rw [Fits, hparts, List.forall_mem_singleton]
  exact ⟨i.toInt, hexact, isInt64_toInt i⟩

theorem Folds.negate (h : IsArithmetic bindings e) (he : Folds bindings e) :
    Folds bindings (unary .negate e) := by
  have hp : ¬(unary UnaryOp.negate e).referencesParam = true := by
    rw [referencesParam, h.referencesParam_eq_false]
    decide
  cases he with
  | invalid error fits fold kind =>
    refine .invalid error (fun h => fits (fits_negate.1 h).2) ?_ kind
    rw [Expr.fold, if_neg hp, fold]
    rfl
  | value i fits exact fold =>
    refine .of_valueOr "Integer overflow" ?_ (fits_negate.trans (and_iff_left fits))
    rw [Expr.fold, if_neg hp, fold, unbounded?, exact]
    rfl

theorem Folds.operation (hop : op ∈ BinaryOp.arithmetic) (hl : IsArithmetic bindings left)
    (hr : IsArithmetic bindings right) (hfl : Folds bindings left) (hfr : Folds bindings right) :
    Folds bindings (binary op left right) := by
  have hp : ¬(binary op left right).referencesParam = true := by
    rw [referencesParam, hl.referencesParam_eq_false, hr.referencesParam_eq_false]
    decide
  cases hfl with
  | invalid error fits fold kind =>
    refine .invalid error (fun h => fits (fits_binary.1 h).2.1) ?_ kind
    rw [Expr.fold, if_neg hp, fold]
    rfl
  | value a fitsLeft exactLeft foldLeft =>
    cases hfr with
    | invalid error fits fold kind =>
      refine .invalid error (fun h => fits (fits_binary.1 h).2.2) ?_ kind
      rw [Expr.fold, if_neg hp, foldLeft, fold]
      rfl
    | value b fitsRight exactRight foldRight =>
      refine .of_valueOr "Invalid operands" ?_
        (fits_binary.trans (and_iff_left ⟨fitsLeft, fitsRight⟩))
      rw [Expr.fold, if_neg hp, foldLeft, foldRight, unbounded?, exactLeft, exactRight]
      exact congrArg ((binary op left right).valueOr "Invalid operands") (binary?_integer hop a b)

theorem IsArithmetic.folds (h : IsArithmetic bindings e) : Folds bindings e := by
  induction h with
  | constant i => exact folds_number rfl rfl rfl
  | @captured name i h =>
    refine folds_number (i := i) rfl ?_ ?_
    · rw [unbounded?, h]
    · rw [fold, if_neg nofun, h]
      rfl
  | negate h ih => exact ih.negate h
  | operation hop hl hr ihl ihr => exact .operation hop hl hr ihl ihr

/-- Arithmetic is exact or invalid: an expression folds to a number exactly if no divisor in it is
zero and all its parts have values of 64 bits, and then to its own value; otherwise it fails. -/
theorem fold_arithmetic (h : IsArithmetic bindings e) :
    (∀ i : Int64, e.fold bindings = .ok (.integer i) ↔
      Fits bindings e ∧ e.unbounded? bindings = some i.toInt) ∧
    (¬Fits bindings e →
      ∃ error, e.fold bindings = .error (.failed error) ∧ error.kind = .parse) := by
  cases h.folds with
  | value i fits exact fold =>
    refine ⟨fun j => ⟨fun hj => ?_, fun hj => ?_⟩, fun hn => absurd fits hn⟩
    · obtain rfl : i = j := by
        rw [fold] at hj
        injection hj with hj
        injection hj
      exact ⟨fits, exact⟩
    · obtain rfl : i = j := Int64.toInt_inj.1 (Option.some.inj (exact.symm.trans hj.2))
      exact fold
  | invalid error fits fold kind =>
    refine ⟨fun j => ⟨fun hj => ?_, fun hj => absurd hj.1 fits⟩, fun _ => ⟨error, fold, kind⟩⟩
    rw [fold] at hj
    cases hj

/-- The smallest number is reached from the largest one without leaving the range. -/
theorem fold_arithmetic_of_largest :
    let bindings : Bindings := [("n", .integer Int64.maxValue)]
    let e := binary .subtract (unary .negate (captured "n")) (constant (.integer 1))
    IsArithmetic bindings e ∧ Fits bindings e ∧
      e.fold bindings = .ok (.integer Int64.minValue) := by
  intro bindings e
  have he : IsArithmetic bindings e :=
    .operation (by decide) (.negate (.captured rfl)) (.constant 1)
  have hfits : Fits bindings e := by decide
  exact ⟨he, hfits, ((fold_arithmetic he).1 _).2 ⟨hfits, by decide⟩⟩

end Expr

end DocStore
