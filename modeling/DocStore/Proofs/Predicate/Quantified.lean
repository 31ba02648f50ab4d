import DocStore.Proofs.Outcome
import DocStore.Proofs.Predicate.Comparisons
import DocStore.Proofs.Predicate.Preservation

/-!
# Readings of quantified predicates

A quantified predicate `xs.Any(e => p)` lowers to the nodes of `p`, which stand in no group of
their own. A `Shape` tells how such nodes are read among others: as one condition, or as the two
sides of an `and` or `or` (`exists_shape`).
-/

namespace DocStore.Predicate

open Condition

/-- How the nodes of an operand are read: as one condition, or as two joined by `and` or `or`. -/
inductive Shape where
  | single (c : Condition)
  | both (a b : Condition)
  | either (a b : Condition)

namespace Shape

def reading : Shape → Pending → Pending
  | single c => (·.push c)
  | both a b => fun p => (p.push a).push b
  | either a b => fun p => (p.push a).split.push b

def condition : Shape → Condition
  | single c => c
  | both a b => .and a b
  | either a b => .or a b

def isEither : Shape → Bool
  | either _ _ => true
  | _ => false

theorem close_reading (S : Shape) : (S.reading {}).close = some S.condition := by
  cases S <;> rfl

variable {S T : Shape} {c d : Condition} {x y : Bool}

/-- Operands of `and` are misgrouped if one of them is an `or`. -/
theorem rendered_and (hS : Rendered S.condition c x) (hT : Rendered T.condition d y)
    (hc : S.isEither = true → c = S.condition) (hd : T.isEither = true → d = T.condition) :
    ∃ e, (T.reading (S.reading {})).close = some e ∧
      Rendered e (.and c d) (S.isEither || T.isEither || (x || y)) := by
  cases S with
  | single a =>
    cases T with
    | single b => exact ⟨_, rfl, hS.and hT⟩
    | both a' b' => exact ⟨_, rfl, (hS.and hT).and_assoc⟩
    | either a' b' =>
      obtain rfl := hd rfl
      exact ⟨_, rfl, hS.or_right a' b'⟩
  | both a b =>
    cases T with
    | single => exact ⟨_, rfl, hS.and hT⟩
    | both a' b' => exact ⟨_, rfl, (hS.and hT).and_assoc⟩
    | either a' b' =>
      obtain rfl := hd rfl
      exact ⟨_, rfl, hS.or_right a' b'⟩
  | either a b =>
    obtain rfl := hc rfl
    cases T with
    | single => exact ⟨_, rfl, hT.or_left a b⟩
    | both a' b' =>
      refine ⟨.or a (.and (.and b a') b'), rfl, (hT.or_left a b).regroup ?_ fun t => ?_⟩
      · simp only [comparisons, condition, List.append_assoc]
      · rw [holds, holds_and_assoc]
        rfl
    | either a' b' =>
      obtain rfl := hd rfl
      exact ⟨_, rfl, .or_both a b a' b'⟩

/-- Operands of `or` are read as they are meant. -/
theorem rendered_or (hS : Rendered S.condition c x) (hT : Rendered T.condition d y) :
    ∃ e, (T.reading (S.reading {}).split).close = some e ∧ Rendered e (.or c d) (x || y) := by
  have hp : (S.reading {}).split = ⟨some S.condition, none, 0⟩ := by
    rw [Pending.split, close_reading]
  rw [hp]
  cases T with
  | single => exact ⟨_, rfl, hS.or hT⟩
  | both => exact ⟨_, rfl, hS.or hT⟩
  | either a b => exact ⟨_, rfl, (hS.or hT).or_assoc⟩

end Shape

section

variable {schema : Schema} {bindings : Bindings} {collection element method text : String}
  {mode : HasValueMode} {e l r body member target arg : Expr} {op : BinaryOp} {m : MemberRef}
  {s : List Node}

def isDisjunction : Expr → Bool
  | .binary .or _ _ => true
  | _ => false

theorem hasValue_of_elementMember
    (h : elementMember schema collection element body member = .ok m) : m.hasValue = false := by
  unfold elementMember at h
  split at h
  · cases h
    rfl
  · cases h

inductive ElementNodes : List Node → Prop
  | like {m : MemberRef} {pattern : String} (hm : m.hasValue = false) :
    ElementNodes (likeNodes m pattern)
  | differs {m : MemberRef} {text : String} (hm : m.hasValue = false) :
    ElementNodes (elementDiffers m text)

theorem elementNodes_of_comparison
    (h : elementComparison schema bindings collection element op l r = .ok s) :
    ElementNodes s := by
  obtain ⟨leftValue, _, h⟩ := bind_eq_ok.1 h
  obtain ⟨rightValue, _, h⟩ := bind_eq_ok.1 h
  extract_lets compared at h
  have hcompared : ∀ side, compared side = .ok s → ElementNodes s := by
    rintro ⟨member, v⟩ h
    simp only [compared] at h
    split at h
    · cases h
    · obtain ⟨m, hm, h⟩ := bind_eq_ok.1 h
      obtain rfl := Except.ok.inj h
      split
      · exact .differs (hasValue_of_elementMember hm)
      · exact .like (hasValue_of_elementMember hm)
  split at h
  · exact hcompared (l, _) h
  · exact hcompared (r, _) h
  · cases h

theorem elementNodes_of_call
    (h : elementCall schema bindings collection element target method arg = .ok s) :
    ElementNodes s := by
  obtain ⟨text, _, h⟩ := bind_eq_ok.1 h
  extract_lets called at h
  have hcalled : ∀ pattern, called pattern = .ok s → ElementNodes s := by
    intro pattern h
    obtain ⟨m, hm, h⟩ := bind_eq_ok.1 h
    obtain rfl := Except.ok.inj h
    exact .like (hasValue_of_elementMember hm)
  split at h
  · exact hcalled _ h
  · split at h
    · exact hcalled _ h
    · split at h
      · exact hcalled _ h
      · cases h

theorem ElementNodes.piece (h : ElementNodes s) : ∃ c, Piece mode s (·.push c) := by
  cases h with
  | like hm => exact ⟨_, .triple hm rfl trivial rfl⟩
  | @differs m text hm =>
    have hnull : Piece mode [.member m, .operator .isNot, .null] _ :=
      .triple hm rfl trivial rfl
    have hne : Piece mode [.member m, .operator .notEqual,
        .value (.string (Composite.element text))] _ := .triple hm rfl trivial rfl
    exact ⟨_, ((hnull.group rfl).and (hne.group rfl)).group rfl⟩

/-- The nodes of a predicate on elements, which is read as its sides are if it has any. -/
theorem exists_shape (h : quantified schema bindings collection element body = .ok s)
    (mode : HasValueMode) :
    ∃ S : Shape, Piece mode s S.reading ∧ (body.isBinary = false → ∃ c, S = .single c) ∧
      S.isEither = isDisjunction body := by
  fun_induction quantified schema bindings collection element body generalizing s with
  | case1 op l r logical hop ihl ihr =>
    obtain ⟨sl, hl, h⟩ := bind_eq_ok.1 h
    obtain ⟨sr, hr, h⟩ := bind_eq_ok.1 h
    obtain rfl := Except.ok.inj h
    obtain ⟨S, hS, hsS, _⟩ := ihl hl
    obtain ⟨T, hT, hsT, _⟩ := ihr hr
    have hl := hS.operand (e := l) S.close_reading
    have hr := hT.operand (e := r) T.close_reading
    rw [operandReading_eq fun hb => by obtain ⟨c, rfl⟩ := hsS hb; rfl] at hl
    rw [operandReading_eq fun hb => by obtain ⟨c, rfl⟩ := hsT hb; rfl] at hr
    cases op <;> cases hop
    · exact ⟨.both S.condition T.condition, hl.and hr, nofun, rfl⟩
    · exact ⟨.either S.condition T.condition, hl.or hr, nofun, rfl⟩
  | case2 op l r hop hc =>
    obtain ⟨c, hc'⟩ := (elementNodes_of_comparison h).piece
    refine ⟨.single c, hc', fun _ => ⟨c, rfl⟩, ?_⟩
    rcases hc with rfl | rfl <;> rfl
  | case3 => cases h
  | case4 target method arg =>
    obtain ⟨c, hc⟩ := (elementNodes_of_call h).piece
    exact ⟨.single c, hc, fun _ => ⟨c, rfl⟩, rfl⟩
  | case5 => cases h

end

end DocStore.Predicate
