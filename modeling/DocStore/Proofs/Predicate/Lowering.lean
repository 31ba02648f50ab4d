import DocStore.Predicate.Lowering
import DocStore.Proofs.Predicate.Completion
import DocStore.Proofs.Predicate.Condition

/-!
# Lowering expressions piece by piece

A `Piece` ties nodes to the reading of the completed nodes, and `Lowered` an expression to its
piece. Both are kept by `&&`, `||` and `!`, and `Lowered` holds of the atoms: comparisons of members
with constants and with each other, boolean members, checks for a value, and methods of members.
-/

namespace DocStore

theorem Expr.referencesParam_of_memberPath? {e : Expr} {parameter path : String}
    (h : e.memberPath? parameter = some path) : e.referencesParam = true := by
  fun_induction Expr.memberPath? e parameter generalizing path with
  | case1 => rfl
  | case2 => rfl
  | case3 target name ih =>
    obtain ⟨parent, hparent, _⟩ := Option.map_eq_some_iff.1 h
    exact ih hparent
  | case4 => cases h

namespace Predicate

open Condition

variable {schema : Schema} {bindings : Bindings} {parameter : String} {mode : HasValueMode}
  {e l r : Expr} {m : MemberRef} {v : Value} {s t : List Node} {f g : Pending → Pending}
  {c d : Condition}

/-- The path of a member chain is not empty, so the chain is a member access. -/
theorem eq_member_of_ofExpr (h : MemberRef.ofExpr schema parameter e = .ok m) :
    ∃ target name path, e = .member target name ∧ e.memberPath? parameter = some path := by
  unfold MemberRef.ofExpr at h
  cases e with
  | member target name =>
    cases hp : (Expr.member target name).memberPath? parameter with
    | none => rw [hp] at h; cases h
    | some path => exact ⟨target, name, path, rfl, rfl⟩
  | param name =>
    by_cases hn : name = parameter <;> simp [Expr.memberPath?, hn] at h
  | _ => simp [Expr.memberPath?] at h

theorem referencesParam_of_ofExpr (h : MemberRef.ofExpr schema parameter e = .ok m) :
    e.referencesParam = true := by
  obtain ⟨_, _, path, _, hp⟩ := eq_member_of_ofExpr h
  exact Expr.referencesParam_of_memberPath? hp

theorem constant?_of_ofExpr (h : MemberRef.ofExpr schema parameter e = .ok m) :
    constant? bindings e = .ok none := by
  rw [constant?, Expr.fold_of_referencesParam (referencesParam_of_ofExpr h)]

theorem constant?_of_fold (h : e.fold bindings = .ok v) : constant? bindings e = .ok (some v) := by
  rw [constant?, h]

theorem isBinary_of_ofExpr (h : MemberRef.ofExpr schema parameter e = .ok m) :
    e.isBinary = false := by
  obtain ⟨target, name, _, rfl, _⟩ := eq_member_of_ofExpr h
  rfl

/-- A member stands in no group. -/
theorem operand_of_ofExpr (h : MemberRef.ofExpr schema parameter e = .ok m) (s : List Node) :
    operand e s = s := by
  rw [operand, isBinary_of_ofExpr h]
  rfl

theorem visit_of_ofExpr (h : MemberRef.ofExpr schema parameter e = .ok m) :
    visit schema bindings parameter e = .ok [.member m] := by
  obtain ⟨target, name, _, rfl, _⟩ := eq_member_of_ofExpr h
  rw [visit, memberNodes, constant?_of_ofExpr h]
  simp only [bind, Except.bind, h]

/-- The nodes refer to a member, and once completed they change what has been read by `f`. -/
structure Piece (mode : HasValueMode) (s : List Node) (f : Pending → Pending) : Prop where
  member : s.any Node.isMember = true
  enclosed : Enclosed s
  reads : Reads (complete mode s) f

def operandReading (e : Expr) (c : Condition) (f : Pending → Pending) : Pending → Pending :=
  if e.isBinary then (·.push c) else f

theorem operandReading_eq (h : e.isBinary = false → f = (·.push c)) :
    operandReading e c f = (·.push c) := by
  unfold operandReading
  split
  · rfl
  · next hb => exact h (by simpa using hb)

namespace Piece

/-- A member that is compared with something stays as it is. -/
theorem triple {op : Operator} {n : Node} (hm : m.hasValue = false)
    (hop : op.isComparison = true) (hp : IsPlain n) (hc : compare? (.member m) op n = some c) :
    Piece mode [.member m, .operator op, n] (·.push c) := by
  have hn : n.isComparison = false := by
    cases n <;> simp_all [compare?, Node.operand?, Node.isComparison]
  refine ⟨rfl, ⟨rfl, hn⟩, ?_⟩
  rw [complete_triple hm hop hp]
  exact Reads.compare hc

theorem group (hs : Piece mode s f) (hc : (f {}).close = some c) :
    Piece mode (.startGroup :: s ++ [.endGroup]) (·.push c) where
  member := by simp [hs.member]
  enclosed := hs.enclosed.group
  reads := by
    rw [complete_group hs.enclosed]
    exact hs.reads.group hc

theorem operand (hs : Piece mode s f) (hc : (f {}).close = some c) :
    Piece mode (operand e s) (operandReading e c f) := by
  unfold Predicate.operand operandReading
  split
  · exact hs.group hc
  · exact hs

theorem and (hs : Piece mode s f) (ht : Piece mode t g) :
    Piece mode (s ++ .operator .and :: t) (fun p => g (f p)) where
  member := by rw [List.any_append, hs.member, Bool.true_or]
  enclosed := hs.enclosed.joined rfl ht.enclosed
  reads := by
    rw [complete_joined hs.enclosed rfl ht.enclosed]
    exact hs.reads.and ht.reads

theorem or (hs : Piece mode s f) (ht : Piece mode t g) :
    Piece mode (s ++ .operator .or :: t) (fun p => g (f p).split) where
  member := by rw [List.any_append, hs.member, Bool.true_or]
  enclosed := hs.enclosed.joined rfl ht.enclosed
  reads := by
    rw [complete_joined hs.enclosed rfl ht.enclosed]
    exact hs.reads.or ht.reads

theorem not_group (hs : Piece mode s f) (hc : (f {}).close = some c) :
    Piece mode (.operator .not :: .startGroup :: s ++ [.endGroup]) (·.push (.not c)) where
  member := by simp [hs.member]
  enclosed := hs.enclosed.group.cons rfl
  reads := by
    rw [complete_not_group hs.enclosed]
    exact hs.reads.not_group hc

end Piece

structure Lowered (schema : Schema) (bindings : Bindings) (parameter : String)
    (mode : HasValueMode) (e : Expr) (s : List Node) (f : Pending → Pending) : Prop
    extends Piece mode s f where
  visit_eq : visit schema bindings parameter e = .ok s

namespace Lowered

theorem ofLambda_eq (h : Lowered schema bindings parameter mode e s f) :
    ofLambda schema bindings mode ⟨parameter, e⟩ = .ok (complete mode s) := by
  simp only [ofLambda, h.visit_eq, bind, Except.bind, h.member, if_true]

theorem and (hl : Lowered schema bindings parameter mode l s f)
    (hr : Lowered schema bindings parameter mode r t g)
    (hc : (f {}).close = some c) (hd : (g {}).close = some d) :
    Lowered schema bindings parameter mode (.binary .and l r)
      (operand l s ++ .operator .and :: operand r t)
      (fun p => operandReading r d g (operandReading l c f p)) where
  toPiece := (hl.operand hc).and (hr.operand hd)
  visit_eq := by
    simp only [visit, logical?, hl.visit_eq, hr.visit_eq]
    rfl

theorem or (hl : Lowered schema bindings parameter mode l s f)
    (hr : Lowered schema bindings parameter mode r t g)
    (hc : (f {}).close = some c) (hd : (g {}).close = some d) :
    Lowered schema bindings parameter mode (.binary .or l r)
      (operand l s ++ .operator .or :: operand r t)
      (fun p => operandReading r d g (operandReading l c f p).split) where
  toPiece := (hl.operand hc).or (hr.operand hd)
  visit_eq := by
    simp only [visit, logical?, hl.visit_eq, hr.visit_eq]
    rfl

/-- A negated expression that is no member of its own stands in a group. -/
theorem not (he : Lowered schema bindings parameter mode e s f)
    (hn : negatedMember? schema parameter e = .ok none) (hc : (f {}).close = some c) :
    Lowered schema bindings parameter mode (.unary .not e)
      (.operator .not :: .startGroup :: s ++ [.endGroup]) (·.push (.not c)) where
  toPiece := he.not_group hc
  visit_eq := by
    simp only [visit, hn, he.visit_eq]
    rfl

end Lowered

theorem Lowered.triple {op : Operator} {n : Node}
    (hv : visit schema bindings parameter e = .ok [.member m, .operator op, n])
    (hm : m.hasValue = false) (hop : op.isComparison = true) (hp : IsPlain n)
    (hc : compare? (.member m) op n = some c) :
    Lowered schema bindings parameter mode e [.member m, .operator op, n] (·.push c) :=
  ⟨.triple hm hop hp hc, hv⟩

/-- A boolean member is compared with true. -/
theorem Lowered.boolean (he : MemberRef.ofExpr schema parameter e = .ok m)
    (hb : m.isBoolean = true) (hm : m.hasValue = false) :
    Lowered schema bindings parameter mode e [.member m]
      (·.push (.compare (.member m.path) .equal (.value (.boolean true)))) := by
  refine ⟨⟨rfl, ⟨rfl, rfl⟩, ?_⟩, visit_of_ofExpr he⟩
  rw [complete_boolean hb hm]
  exact Reads.compare rfl

/-- A check for a value becomes a comparison with null. -/
theorem Lowered.check (he : MemberRef.ofExpr schema parameter e = .ok m)
    (hm : m.hasValue = true) :
    Lowered schema bindings parameter mode e [.member m]
      (·.push (.compare (.member m.path) .isNot .null)) := by
  refine ⟨⟨rfl, ⟨rfl, rfl⟩, ?_⟩, visit_of_ofExpr he⟩
  rw [complete_check hm]
  exact Reads.compare rfl

/-- A check for a value that is compared with a boolean takes that comparison in. -/
theorem Lowered.flag {op : Operator} {b : Bool}
    (hv : visit schema bindings parameter e =
      .ok [.member m, .operator op, .value (.boolean b)])
    (hm : m.hasValue = true) (hop : op = .equal ∨ op = .notEqual) :
    Lowered schema bindings parameter mode e [.member m, .operator op, .value (.boolean b)]
      (·.push (.compare (.member m.path) (if mode.meansNull op b then .is else .isNot) .null)) := by
  refine ⟨⟨rfl, ⟨rfl, rfl⟩, ?_⟩, hv⟩
  rw [complete_flag hm hop]
  refine Reads.compare ?_
  split <;> rfl

section

variable {op : BinaryOp} {o : Operator} {rest : List Node}

theorem logical?_of_comparison? (h : comparison? op = some o) : logical? op = none := by
  cases op <;> first | rfl | cases h

theorem isComparison_of_comparison? (h : comparison? op = some o) : o.isComparison = true := by
  cases op <;> cases h <;> rfl

theorem comparison?_swapped (h : comparison? op = some o) :
    ∃ o', comparison? op.swapped = some o' := by
  cases op <;> first | exact ⟨_, rfl⟩ | cases h

theorem comparedWith_of_ne_null (hop : comparison? op = some o) (hv : v ≠ .null) :
    comparedWith e op v = .ok [.operator o, .value v] := by
  have h : v.isNull = false := Bool.eq_false_iff.2 fun h => hv ((Value.isNull_iff v).1 h)
  simp only [comparedWith, h, hop, Bool.false_eq_true, if_false]

theorem comparedWith_null (hop : op = .equal ∨ op = .notEqual) :
    comparedWith e op .null =
      .ok [.operator (if op = .equal then .is else .isNot), .null] := by
  rcases hop with rfl | rfl <;> rfl

theorem visit_compare (hop : comparison? op = some o)
    (hl : MemberRef.ofExpr schema parameter l = .ok m) (hr : r.fold bindings = .ok v)
    (hc : comparedWith (.binary op l r) op v = .ok rest) :
    visit schema bindings parameter (.binary op l r) = .ok (.member m :: rest) := by
  simp only [visit, logical?_of_comparison? hop, hop, constant?_of_ofExpr hl,
    constant?_of_fold hr, visit_of_ofExpr hl, bind, Except.bind, hc]
  rw [operand_of_ofExpr hl]
  rfl

theorem visit_compare_left (hop : comparison? op = some o)
    (hr : MemberRef.ofExpr schema parameter r = .ok m) (hl : l.fold bindings = .ok v)
    (hc : comparedWith (.binary op l r) op.swapped v = .ok rest) :
    visit schema bindings parameter (.binary op l r) = .ok (.member m :: rest) := by
  simp only [visit, logical?_of_comparison? hop, hop, constant?_of_ofExpr hr,
    constant?_of_fold hl, visit_of_ofExpr hr, bind, Except.bind, hc]
  rw [operand_of_ofExpr hr]
  rfl

theorem visit_compare_members {m' : MemberRef} (hop : comparison? op = some o)
    (hl : MemberRef.ofExpr schema parameter l = .ok m)
    (hr : MemberRef.ofExpr schema parameter r = .ok m') :
    visit schema bindings parameter (.binary op l r) =
      .ok [.member m, .operator o, .member m'] := by
  simp only [visit, logical?_of_comparison? hop, hop, constant?_of_ofExpr hl,
    constant?_of_ofExpr hr, visit_of_ofExpr hl, visit_of_ofExpr hr, bind, Except.bind]
  rw [operand_of_ofExpr hl, operand_of_ofExpr hr]
  rfl

theorem visit_methodCall {method : String} {args : List Expr}
    (he : MemberRef.ofExpr schema parameter e = .ok m) :
    visit schema bindings parameter (.methodCall e method args) =
      memberCall schema bindings parameter e method args := by
  rw [visit, if_pos (referencesParam_of_ofExpr he)]

theorem memberCall_of_matching {target arg : Expr} {method : String}
    (hm : method ∈ ["StartsWith", "EndsWith", "Contains", "Like"]) :
    memberCall schema bindings parameter target method [arg] =
      matchCall schema bindings parameter target method arg := by
  unfold memberCall
  exact if_pos hm

theorem memberCall_of_listed {target arg : Expr} {method : String}
    (hm : method = "In" ∨ method = "NotIn") :
    memberCall schema bindings parameter target method [arg] =
      listCall schema bindings parameter target method arg := by
  have hn : method ∉ ["StartsWith", "EndsWith", "Contains", "Like"] := by
    rcases hm with rfl | rfl <;> decide
  unfold memberCall
  exact (if_neg hn).trans (if_pos hm)

theorem visit_any {target : Expr} (ht : MemberRef.ofExpr schema parameter target = .ok m) :
    visit schema bindings parameter (.methodCall target "Any" []) =
      .ok [.member m, .operator .isNot, .null] := by
  rw [visit_methodCall ht, memberCall, anyCall, ht]
  rfl

theorem visit_quantified {target body : Expr} {collection element : String} {s : List Node}
    (ht : target.memberPath? parameter = some collection)
    (hb : quantified schema bindings collection element body = .ok s) :
    visit schema bindings parameter (.methodCall target "Any" [.lambda element body]) = .ok s := by
  rw [visit, if_pos (Expr.referencesParam_of_memberPath? ht)]
  simp only [memberCall, quantifiedCall, ht, hb]
  rfl

end

end Predicate

end DocStore
