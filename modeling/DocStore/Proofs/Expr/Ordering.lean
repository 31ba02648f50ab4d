import DocStore.Expr.Fold
import DocStore.Proofs.Number.Doubles

/-!
# Comparing whole numbers

Constant whole numbers are equal if they are the same, but their order is that of their floats,
which have 53 significant bits. Two numbers that are rounded alike stand in no order, though each
passes as at most the other; all others are compared exactly.
-/

namespace DocStore

open Rounding

namespace BinaryOp

def comparisons : List BinaryOp :=
  [equal, notEqual, lessThan, lessOrEqual, greaterThan, greaterOrEqual]

def holds (op : BinaryOp) (x y : ℤ) : Bool :=
  match op with
  | equal => x = y
  | notEqual => x ≠ y
  | lessThan => x < y
  | lessOrEqual => x ≤ y
  | greaterThan => y < x
  | greaterOrEqual => y ≤ x
  | _ => false

def compared (op : BinaryOp) (x : ℤ) : ℤ :=
  match op with
  | equal | notEqual => x
  | _ => nearest x

end BinaryOp

variable {a b : Int64} {op : BinaryOp} {x y : ℤ}

theorem natAbs_toInt_lt (a : Int64) : a.toInt.natAbs < 2 ^ 64 := by
  have hlow := a.le_toInt
  have hhigh := a.toInt_lt
  omega

theorem beq_eq_decide_toInt (a b : Int64) : (a == b) = decide (a.toInt = b.toInt) := by
  rw [beq_eq_decide]
  exact decide_eq_decide.2 Int64.toInt_inj.symm

theorem Value.binary?_comparison (hop : op ∈ BinaryOp.comparisons) (a b : Int64) :
    Value.binary? op (.integer a) (.integer b) =
      some (.boolean (op.holds (op.compared a.toInt) (op.compared b.toInt))) := by
  have hlt : ∀ a b : Int64,
      decide (Float.ofInt a.toInt < Float.ofInt b.toInt) =
        decide (nearest a.toInt < nearest b.toInt) := fun a b =>
    decide_eq_decide.2 (Doubles.ofInt_lt_iff (natAbs_toInt_lt a) (natAbs_toInt_lt b))
  have hle : ∀ a b : Int64,
      decide (Float.ofInt a.toInt ≤ Float.ofInt b.toInt) =
        decide (nearest a.toInt ≤ nearest b.toInt) := fun a b =>
    decide_eq_decide.2 (Doubles.ofInt_le_iff (natAbs_toInt_lt a) (natAbs_toInt_lt b))
  simp only [BinaryOp.comparisons, List.mem_cons, List.not_mem_nil, or_false] at hop
  rcases hop with rfl | rfl | rfl | rfl | rfl | rfl
  · exact congrArg (some ∘ Value.boolean) (beq_eq_decide_toInt a b)
  · refine congrArg (some ∘ Value.boolean) ?_
    rw [Value.same, beq_eq_decide_toInt, ← decide_not]
    rfl
  · exact congrArg (some ∘ Value.boolean) (hlt a b)
  · exact congrArg (some ∘ Value.boolean) (hle a b)
  · exact congrArg (some ∘ Value.boolean) (hlt b a)
  · exact congrArg (some ∘ Value.boolean) (hle b a)

/-- Rounding keeps the order of two numbers that it keeps apart. -/
theorem nearest_lt_iff (h : nearest x ≠ nearest y) : nearest x < nearest y ↔ x < y :=
  ⟨fun hlt => lt_of_not_ge fun hge => (nearest_mono hge).not_gt hlt,
    fun hlt => lt_of_le_of_ne (nearest_mono hlt.le) h⟩

theorem nearest_le_iff (h : nearest x ≠ nearest y) : nearest x ≤ nearest y ↔ x ≤ y := by
  rw [← not_lt, nearest_lt_iff h.symm, not_lt]

theorem BinaryOp.holds_compared (op : BinaryOp) (h : x = y ∨ nearest x ≠ nearest y) :
    op.holds (op.compared x) (op.compared y) = op.holds x y := by
  rcases h with rfl | h
  · cases op <;> simp [holds, compared]
  · cases op with
    | lessThan => exact decide_eq_decide.2 (nearest_lt_iff h)
    | lessOrEqual => exact decide_eq_decide.2 (nearest_le_iff h)
    | greaterThan => exact decide_eq_decide.2 (nearest_lt_iff h.symm)
    | greaterOrEqual => exact decide_eq_decide.2 (nearest_le_iff h.symm)
    | _ => rfl

/-- Different numbers that are rounded alike pass as at most each other. -/
theorem BinaryOp.holds_compared_iff :
    (∀ op ∈ comparisons, op.holds (op.compared x) (op.compared y) = op.holds x y) ↔
      x = y ∨ nearest x ≠ nearest y := by
  refine ⟨fun h => or_iff_not_imp_right.2 fun hn => ?_, fun h op _ => op.holds_compared h⟩
  have heq : nearest x = nearest y := not_not.1 hn
  have hle : x ≤ y :=
    of_decide_eq_true ((h .lessOrEqual (by decide)).symm.trans (decide_eq_true heq.le))
  have hge : y ≤ x :=
    of_decide_eq_true ((h .greaterOrEqual (by decide)).symm.trans (decide_eq_true heq.ge))
  exact Int.le_antisymm hle hge

namespace Expr

def compareIntegers (op : BinaryOp) (a b : Int64) : Expr :=
  binary op (constant (.integer a)) (constant (.integer b))

/-- Whole numbers are tested for equality as they are and ordered after rounding, so that all six
comparisons are exact if and only if the numbers are equal or are not rounded to the same number;
this is so for all numbers up to `2 ^ 53`. -/
theorem fold_comparison (bindings : Bindings) (a b : Int64) :
    (∀ op ∈ BinaryOp.comparisons, (compareIntegers op a b).fold bindings =
      .ok (.boolean (op.holds (op.compared a.toInt) (op.compared b.toInt)))) ∧
    ((∀ op ∈ BinaryOp.comparisons, (compareIntegers op a b).fold bindings =
      .ok (.boolean (op.holds a.toInt b.toInt))) ↔ a = b ∨ nearest a.toInt ≠ nearest b.toInt) ∧
    (a.toInt.natAbs ≤ 2 ^ 53 → b.toInt.natAbs ≤ 2 ^ 53 →
      a = b ∨ nearest a.toInt ≠ nearest b.toInt) := by
  have hfold : ∀ op ∈ BinaryOp.comparisons, (compareIntegers op a b).fold bindings =
      .ok (.boolean (op.holds (op.compared a.toInt) (op.compared b.toInt))) := fun op hop =>
    congrArg (valueOr _ "Invalid operands") (Value.binary?_comparison hop a b)
  refine ⟨hfold, ?_, fun ha hb => ?_⟩
  · rw [← Int64.toInt_inj, ← BinaryOp.holds_compared_iff]
    refine forall₂_congr fun op hop => ?_
    rw [hfold op hop, Except.ok.injEq, Value.boolean.injEq]
  · rw [nearest_eq_self ha, nearest_eq_self hb, Ne, Int64.toInt_inj]
    exact em (a = b)

/-- The last two neighbours that are both floats are in order, and so is the next number that is
told apart from them. -/
theorem fold_comparison_of_apart :
    (compareIntegers .lessThan 9007199254740991 9007199254740992).fold [] = .ok (.boolean true) ∧
    (compareIntegers .lessOrEqual 9007199254740994 9007199254740992).fold [] =
      .ok (.boolean false) := by
  refine ⟨?_, ?_⟩
  · have hexact := fold_comparison [] 9007199254740991 9007199254740992
    exact hexact.2.1.2 (hexact.2.2 (by decide) (by decide)) .lessThan (by decide)
  · have hexact := fold_comparison [] 9007199254740994 9007199254740992
    exact hexact.2.1.2 (.inr (by decide)) .lessOrEqual (by decide)

/-- The first whole number that is no float is neither equal to its neighbour nor on one side. -/
theorem fold_order_of_neighbours :
    (9007199254740992 : ℤ) < 9007199254740993 ∧
    ∀ op ∈ [BinaryOp.lessThan, .equal, .greaterThan],
      (compareIntegers op 9007199254740992 9007199254740993).fold [] = .ok (.boolean false) := by
  refine ⟨by decide, ?_⟩
  simp only [List.forall_mem_cons]
  exact ⟨rfl, rfl, rfl, nofun⟩

end Expr

end DocStore
