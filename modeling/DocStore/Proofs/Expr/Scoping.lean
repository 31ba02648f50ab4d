import DocStore.Proofs.Expr.RoundTrip
import DocStore.Proofs.Outcome

/-!
# Names and their scopes

A name in a lambda that was read from a text refers to a parameter exactly if a lambda around it has
a parameter of that name. The readers themselves make no parameters, so this is the work of
`Expr.resolve` alone: it changes what names refer to and nothing else.
-/

namespace DocStore

namespace Expr

/-- A name that stands for a value, the parameters of the lambdas around it from the inside out, and
whether it refers to a parameter. -/
structure Occurrence where
  name : String
  enclosing : List String
  isParam : Bool
  deriving DecidableEq, Repr

namespace Occurrence

/-- Names refer to a parameter where one of their name is in scope. -/
def IsScoped (o : Occurrence) : Prop :=
  o.isParam = true ↔ o.name ∈ o.enclosing

instance (o : Occurrence) : Decidable o.IsScoped :=
  inferInstanceAs (Decidable (_ ↔ _))

end Occurrence

mutual

/-- The names that stand in an expression within the lambdas of the parameters `enclosing`, from
left to right. -/
def occurrences (enclosing : List String) : Expr → List Occurrence
  | param name => [⟨name, enclosing, true⟩]
  | captured name => [⟨name, enclosing, false⟩]
  | constant _ => []
  | member target _ => occurrences enclosing target
  | binary _ left right => occurrences enclosing left ++ occurrences enclosing right
  | unary _ operand => occurrences enclosing operand
  | call _ args => occurrencesList enclosing args
  | methodCall target _ args => occurrences enclosing target ++ occurrencesList enclosing args
  | lambda p body => occurrences (p :: enclosing) body
  | array items => occurrencesList enclosing items

def occurrencesList (enclosing : List String) : List Expr → List Occurrence
  | [] => []
  | e :: rest => occurrences enclosing e ++ occurrencesList enclosing rest

end

variable {e : Expr}

mutual

theorem isScoped_of_mem_resolve : ∀ (e : Expr) (scope : List String),
    e.referencesParam = false → ∀ o ∈ (resolve scope e).occurrences scope, o.IsScoped
  | param name, scope, h => by cases h
  | captured name, scope, _ => by
    intro o ho
    rw [resolve] at ho
    split at ho
    · next hname =>
      obtain rfl := List.mem_singleton.1 ho
      exact iff_of_true rfl hname
    · next hname =>
      obtain rfl := List.mem_singleton.1 ho
      exact iff_of_false nofun hname
  | constant v, scope, _ => nofun
  | member target name, scope, h => isScoped_of_mem_resolve target scope h
  | binary op left right, scope, h => by
    rw [referencesParam, Bool.or_eq_false_iff] at h
    rw [resolve, occurrences, List.forall_mem_append]
    exact ⟨isScoped_of_mem_resolve left scope h.1, isScoped_of_mem_resolve right scope h.2⟩
  | unary op operand, scope, h => isScoped_of_mem_resolve operand scope h
  | call method args, scope, h => isScoped_of_mem_resolveList args scope h
  | methodCall target method args, scope, h => by
    rw [referencesParam, Bool.or_eq_false_iff] at h
    rw [resolve, occurrences, List.forall_mem_append]
    exact ⟨isScoped_of_mem_resolve target scope h.1, isScoped_of_mem_resolveList args scope h.2⟩
  | lambda p body, scope, h => isScoped_of_mem_resolve body (p :: scope) h
  | array items, scope, h => isScoped_of_mem_resolveList items scope h

theorem isScoped_of_mem_resolveList : ∀ (es : List Expr) (scope : List String),
    anyReferencesParam es = false → ∀ o ∈ occurrencesList scope (resolveList scope es), o.IsScoped
  | [], scope, _ => nofun
  | e :: rest, scope, h => by
    rw [anyReferencesParam, Bool.or_eq_false_iff] at h
    rw [resolveList, occurrencesList, List.forall_mem_append]
    exact ⟨isScoped_of_mem_resolve e scope h.1, isScoped_of_mem_resolveList rest scope h.2⟩

end

mutual

/-- Nothing but the kind of names changes. -/
theorem unresolved_resolve : ∀ (e : Expr) (scope : List String),
    (resolve scope e).unresolved = e.unresolved
  | param name, scope => by rw [resolve]
  | captured name, scope => by
    rw [resolve]
    split <;> rfl
  | constant v, scope => by rw [resolve]
  | member target name, scope => by
    rw [resolve, unresolved, unresolved, unresolved_resolve target scope]
  | binary op left right, scope => by
    rw [resolve, unresolved, unresolved, unresolved_resolve left scope,
      unresolved_resolve right scope]
  | unary op operand, scope => by
    rw [resolve, unresolved, unresolved, unresolved_resolve operand scope]
  | call method args, scope => by
    rw [resolve, unresolved, unresolved, unresolvedList_resolveList args scope]
  | methodCall target method args, scope => by
    rw [resolve, unresolved, unresolved, unresolved_resolve target scope,
      unresolvedList_resolveList args scope]
  | lambda p body, scope => by
    rw [resolve, unresolved, unresolved, unresolved_resolve body (p :: scope)]
  | array items, scope => by
    rw [resolve, unresolved, unresolved, unresolvedList_resolveList items scope]

theorem unresolvedList_resolveList : ∀ (es : List Expr) (scope : List String),
    unresolvedList (resolveList scope es) = unresolvedList es
  | [], scope => by rw [resolveList]
  | e :: rest, scope => by
    rw [resolveList, unresolvedList, unresolvedList, unresolved_resolve e scope,
      unresolvedList_resolveList rest scope]

end

mutual

theorem unresolved_of_referencesParam : ∀ e : Expr, e.referencesParam = false → e.unresolved = e
  | param name, h => by cases h
  | captured name, _ => by rw [unresolved]
  | constant v, _ => by rw [unresolved]
  | member target name, h => by rw [unresolved, unresolved_of_referencesParam target h]
  | binary op left right, h => by
    rw [referencesParam, Bool.or_eq_false_iff] at h
    rw [unresolved, unresolved_of_referencesParam left h.1,
      unresolved_of_referencesParam right h.2]
  | unary op operand, h => by rw [unresolved, unresolved_of_referencesParam operand h]
  | call method args, h => by rw [unresolved, unresolvedList_of_referencesParam args h]
  | methodCall target method args, h => by
    rw [referencesParam, Bool.or_eq_false_iff] at h
    rw [unresolved, unresolved_of_referencesParam target h.1,
      unresolvedList_of_referencesParam args h.2]
  | lambda p body, h => by rw [unresolved, unresolved_of_referencesParam body h]
  | array items, h => by rw [unresolved, unresolvedList_of_referencesParam items h]

theorem unresolvedList_of_referencesParam : ∀ es : List Expr,
    anyReferencesParam es = false → unresolvedList es = es
  | [], _ => by rw [unresolvedList]
  | e :: rest, h => by
    rw [anyReferencesParam, Bool.or_eq_false_iff] at h
    rw [unresolvedList, unresolved_of_referencesParam e h.1,
      unresolvedList_of_referencesParam rest h.2]

end

namespace Parser

variable {α : Type} {nested operand : Reader Expr} {target : Expr} {n : Nat}

def Yields (r : Reader α) (p : α → Prop) : Prop :=
  ∀ text a rest, r text = .ok (a, rest) → p a

def Unbound (e : Expr) : Prop :=
  e.referencesParam = false

def UnboundList (es : List Expr) : Prop :=
  anyReferencesParam es = false

theorem UnboundList.cons {es : List Expr} (he : Unbound e) (h : UnboundList es) :
    UnboundList (e :: es) :=
  Bool.or_eq_false_iff.2 ⟨he, h⟩

theorem Unbound.member (h : Unbound e) (name : String) : Unbound (member e name) :=
  h

theorem Unbound.unary (h : Unbound e) (op : UnaryOp) : Unbound (unary op e) :=
  h

theorem Unbound.binary {left right : Expr} (hl : Unbound left) (hr : Unbound right)
    (op : BinaryOp) : Unbound (binary op left right) :=
  Bool.or_eq_false_iff.2 ⟨hl, hr⟩

theorem Unbound.methodCall {args : List Expr} (h : Unbound e) (hargs : UnboundList args)
    (method : String) : Unbound (methodCall e method args) :=
  Bool.or_eq_false_iff.2 ⟨h, hargs⟩

theorem yields_stringLiteral : Yields stringLiteral Unbound := by
  intro text e rest h
  unfold stringLiteral at h
  split at h
  · split at h
    · cases h
      rfl
    · cases h
  · cases h

theorem yields_number : Yields number Unbound := by
  intro text e rest h
  unfold number at h
  dsimp only at h
  cases hi : int64? (Numeral.ofDigits (text.takeWhile Char.isDigit)) with
  | none =>
    simp only [hi] at h
    split at h
    · split at h
      · cases h
        rfl
      · cases h
    · cases h
  | some i =>
    simp only [hi] at h
    split at h
    · split at h
      all_goals
        cases h
        rfl
    · cases h
      rfl

section

variable (hnested : Yields nested Unbound)

include hnested

theorem yields_lambdaParts : Yields (lambdaParts nested) fun l => Unbound l.body := by
  intro text l rest h
  obtain ⟨⟨name, afterName⟩, _, h⟩ := bind_eq_ok.1 h
  obtain ⟨afterArrow, _, h⟩ := bind_eq_ok.1 h
  obtain ⟨⟨body, afterBody⟩, hbody, h⟩ := bind_eq_ok.1 h
  cases h
  exact hnested _ _ _ hbody

theorem yields_argument : Yields (argument nested) Unbound := by
  intro text e rest h
  unfold argument at h
  split at h
  · next hparts =>
    cases h
    exact yields_lambdaParts hnested _ _ _ hparts
  · exact hnested _ _ _ h

theorem yields_moreArguments (fuel : Nat) : Yields (moreArguments nested fuel) UnboundList := by
  induction fuel with
  | zero =>
    intro text es rest h
    cases h
    rfl
  | succ fuel ih =>
    intro text es rest h
    unfold moreArguments at h
    split at h
    · cases h
      rfl
    · obtain ⟨⟨first, afterFirst⟩, hfirst, h⟩ := bind_eq_ok.1 h
      obtain ⟨⟨others, afterOthers⟩, hothers, h⟩ := bind_eq_ok.1 h
      cases h
      exact .cons (yields_argument hnested _ _ _ hfirst) (ih _ _ _ hothers)

theorem yields_arguments (opening closing : Char) :
    Yields (arguments nested opening closing) UnboundList := by
  intro text es rest h
  obtain ⟨inside, _, h⟩ := bind_eq_ok.1 h
  split at h
  · cases h
    rfl
  · obtain ⟨⟨first, afterFirst⟩, hfirst, h⟩ := bind_eq_ok.1 h
    obtain ⟨⟨others, afterOthers⟩, hothers, h⟩ := bind_eq_ok.1 h
    obtain ⟨behind, _, h⟩ := bind_eq_ok.1 h
    cases h
    exact .cons (yields_argument hnested _ _ _ hfirst)
      (yields_moreArguments hnested _ _ _ _ hothers)

theorem unbound_named (name : String) (text : List Char) : Unbound (named nested name text).1 := by
  unfold named
  split
  · rfl
  · split
    · rfl
    · split
      · rfl
      · split
        · next hargs => exact yields_arguments hnested _ _ _ _ _ hargs
        · rfl

theorem yields_primary : Yields (primary nested) Unbound := by
  intro text e rest h
  unfold primary at h
  dsimp only at h
  split at h
  · cases h
  · split at h
    · exact yields_stringLiteral _ _ _ h
    · split at h
      · exact yields_number _ _ _ h
      · split at h
        · obtain ⟨inside, _, h⟩ := bind_eq_ok.1 h
          obtain ⟨⟨inner, afterInner⟩, hinner, h⟩ := bind_eq_ok.1 h
          obtain ⟨behind, _, h⟩ := bind_eq_ok.1 h
          cases h
          exact hnested _ _ _ hinner
        · split at h
          · obtain ⟨⟨items, afterItems⟩, hitems, h⟩ := bind_eq_ok.1 h
            cases h
            exact yields_arguments hnested _ _ _ _ _ hitems
          · obtain ⟨⟨name, afterName⟩, _, h⟩ := bind_eq_ok.1 h
            obtain rfl := congrArg Prod.fst (Except.ok.inj h)
            exact unbound_named hnested _ _

theorem yields_postfixRest (fuel : Nat) (htarget : Unbound target) :
    Yields (postfixRest nested fuel target) Unbound := by
  induction fuel generalizing target with
  | zero =>
    intro text e rest h
    cases h
    exact htarget
  | succ fuel ih =>
    intro text e rest h
    unfold postfixRest at h
    split at h
    · cases h
      exact htarget
    · obtain ⟨⟨name, afterName⟩, _, h⟩ := bind_eq_ok.1 h
      dsimp only at h
      split at h
      · next hargs =>
        have hcall := yields_arguments hnested _ _ _ _ _ hargs
        exact ih (htarget.methodCall hcall name) _ _ _ h
      · exact ih (htarget.member name) _ _ _ h

theorem yields_postfixed : Yields (postfixed nested) Unbound := by
  intro text e rest h
  obtain ⟨⟨target, afterTarget⟩, htarget, h⟩ := bind_eq_ok.1 h
  exact yields_postfixRest hnested _ (yields_primary hnested _ _ _ htarget) _ _ _ h

end

theorem unbound_negated (h : Unbound e) : Unbound (negated e) := by
  unfold negated
  split
  · split <;> rfl
  · rfl
  · exact h

theorem yields_unaryLevel (hnested : Yields nested Unbound) (fuel : Nat) :
    Yields (unaryLevel nested fuel) Unbound := by
  induction fuel with
  | zero => exact yields_postfixed hnested
  | succ fuel ih =>
    intro text e rest h
    unfold unaryLevel at h
    split at h
    · obtain ⟨⟨inner, afterInner⟩, hinner, h⟩ := bind_eq_ok.1 h
      cases h
      exact .unary (ih _ _ _ hinner) .not
    · split at h
      · obtain ⟨⟨inner, afterInner⟩, hinner, h⟩ := bind_eq_ok.1 h
        cases h
        exact unbound_negated (ih _ _ _ hinner)
      · exact yields_postfixed hnested _ _ _ h

theorem yields_prefixed (hnested : Yields nested Unbound) : Yields (prefixed nested) Unbound :=
  fun text => yields_unaryLevel hnested text.length text

section

variable (hoperand : Yields operand Unbound) (operators : List (List Char × BinaryOp))

include hoperand

theorem yields_chainRest (fuel : Nat) (htarget : Unbound target) :
    Yields (chainRest operand operators fuel target) Unbound := by
  induction fuel generalizing target with
  | zero =>
    intro text e rest h
    cases h
    exact htarget
  | succ fuel ih =>
    intro text e rest h
    unfold chainRest at h
    split at h
    · cases h
      exact htarget
    · obtain ⟨⟨right, afterRight⟩, hright, h⟩ := bind_eq_ok.1 h
      exact ih (htarget.binary (hoperand _ _ _ hright) _) _ _ _ h

theorem yields_chain : Yields (chain operand operators) Unbound := by
  intro text e rest h
  obtain ⟨⟨left, afterLeft⟩, hleft, h⟩ := bind_eq_ok.1 h
  exact yields_chainRest hoperand operators _ (hoperand _ _ _ hleft) _ _ _ h

end

theorem yields_additive (hnested : Yields nested Unbound) : Yields (additive nested) Unbound :=
  yields_chain (yields_chain (yields_prefixed hnested) multiplicativeOps) additiveOps

theorem yields_comparison (hnested : Yields nested Unbound) :
    Yields (comparison nested) Unbound := by
  intro text e rest h
  obtain ⟨⟨left, afterLeft⟩, hleft, h⟩ := bind_eq_ok.1 h
  have hl : Unbound left := yields_additive hnested _ _ _ hleft
  dsimp only at h
  split at h
  · cases h
    exact hl
  · obtain ⟨⟨right, afterRight⟩, hright, h⟩ := bind_eq_ok.1 h
    cases h
    exact hl.binary (yields_additive hnested _ _ _ hright) _

/-- No reader makes a parameter, however deep expressions are nested. -/
theorem yields_expression (depth : Nat) : Yields (expression depth) Unbound := by
  induction depth with
  | zero => exact nofun
  | succ depth ih => exact yields_chain (yields_chain (yields_comparison ih) andOps) orOps

end Parser

end Expr

namespace Lambda

open DocStore.Expr

variable {l : Lambda} {text : String}

def occurrences (l : Lambda) : List Occurrence :=
  l.body.occurrences [l.param]

/-- In a lambda that was read from a text a name refers to a parameter exactly where a lambda around
it has that parameter, and apart from this the lambda is as it was read. A nested parameter ends
with its lambda; one of the same name outside is in scope again behind it. -/
theorem isScoped_ofText (h : ofText text = .ok l) :
    (∀ o ∈ l.occurrences, o.IsScoped) ∧
      ∃ rest, Parser.lambdaParts (Parser.expression (text.toList.length + 1)) text.toList =
        .ok (⟨l.param, l.body.unresolved⟩, rest) := by
  unfold ofText at h
  dsimp only at h
  split at h
  · cases h
  · next read rest hparts =>
    split at h
    · obtain rfl := Except.ok.inj h
      have hread : read.body.referencesParam = false :=
        Parser.yields_lambdaParts (Parser.yields_expression _) _ _ _ hparts
      refine ⟨isScoped_of_mem_resolve read.body [read.param] hread, rest, ?_⟩
      rw [unresolved_resolve, unresolved_of_referencesParam read.body hread]
      exact hparts
    · cases h

/-- The nested `l` is not in scope in the third argument, while the outer `i`, which the first
argument hides, is in scope in the fourth. -/
theorem isScoped_ofText_of_shadowing :
    let l : Lambda := ⟨"i", .call "f" [.lambda "i" (.param "i"), .lambda "l" (.param "l"),
      .captured "l", .param "i"]⟩
    ofText "i => f(i => i, l => l, l, i)" = .ok l ∧
      l.occurrences = [⟨"i", ["i", "i"], true⟩, ⟨"l", ["l", "i"], true⟩, ⟨"l", ["i"], false⟩,
        ⟨"i", ["i"], true⟩] ∧
      ∀ o ∈ l.occurrences, o.IsScoped :=
  have hread : ofText "i => f(i => i, l => l, l, i)" = .ok _ := rfl
  ⟨hread, rfl, (isScoped_ofText hread).1⟩

end Lambda

end DocStore
