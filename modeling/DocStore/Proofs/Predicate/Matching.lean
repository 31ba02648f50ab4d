import DocStore.Proofs.Predicate.ElementTests
import DocStore.Proofs.Predicate.Preservation

/-!
# String methods match literally

A call of `StartsWith`, `EndsWith` or `Contains` on a member becomes one comparison with a pattern,
and the pattern accepts a text exactly if the text has the argument there: no character of the
argument has a special meaning. Collections are left out, as `Contains` asks them for an element.
-/

namespace DocStore

variable {method text pattern : String} {test : ElementTest}

theorem Interpretation.accepts_pattern? (hm : ElementTest.ofMethod? method = some test)
    (h : pattern? false method text = some pattern) (subject : String) :
    Like.accepts pattern subject = true ↔ test.Holds text subject := by
  obtain ⟨rfl, rfl⟩ | ⟨rfl, rfl⟩ | ⟨rfl, rfl⟩ := ElementTest.ofMethod?_cases hm
  · obtain rfl : Pattern.startsWith text = pattern := by simpa [pattern?] using h
    exact Like.accepts_startsWith text subject
  · obtain rfl : Pattern.endsWith text = pattern := by simpa [pattern?] using h
    exact Like.accepts_endsWith text subject
  · obtain rfl : Pattern.contains text = pattern := by simpa [pattern?] using h
    exact Like.accepts_contains text subject

namespace Predicate

variable {schema : Schema} {bindings : Bindings} {parameter : String} {mode : HasValueMode}
  {m : MemberRef} {target arg : Expr}

theorem mem_methods (hm : ElementTest.ofMethod? method = some test) :
    method ∈ ["StartsWith", "EndsWith", "Contains", "Like"] := by
  obtain ⟨rfl, _⟩ | ⟨rfl, _⟩ | ⟨rfl, _⟩ := ElementTest.ofMethod?_cases hm <;> decide

theorem isCollection_of_ofExpr (ht : MemberRef.ofExpr schema parameter target = .ok m)
    (hc : ∀ a, schema.accessor? m.path = some a → a.isCollection = false) :
    isCollection schema parameter target = false := by
  rw [isCollection, ht]
  dsimp only
  cases ha : schema.accessor? m.path with
  | none => rfl
  | some a => exact hc a ha

/-- A check for a value takes in no pattern, so that the comparison stays as it is. -/
theorem complete_likeNodes (m : MemberRef) (pattern : String) :
    complete mode (likeNodes m pattern) =
      completeMember m ++ [.operator .like, .value (.string pattern)] :=
  complete_member rfl fun _ => rfl

/-- A member that is no collection is matched with a pattern that accepts exactly the texts that
begin with the argument, end with it or have it anywhere, as the method says, whatever characters it
has; so in every predicate in which the call stands, and if it is a predicate on its own. -/
theorem visit_matches_literally (ht : MemberRef.ofExpr schema parameter target = .ok m)
    (hc : ∀ a, schema.accessor? m.path = some a → a.isCollection = false)
    (hm : ElementTest.ofMethod? method = some test) (ha : arg.fold bindings = .ok (.string text)) :
    ∃ pattern,
      visit schema bindings parameter (.methodCall target method [arg]) =
        .ok [.member m, .operator .like, .value (.string pattern)] ∧
      (∀ mode, ofLambda schema bindings mode ⟨parameter, .methodCall target method [arg]⟩ =
        .ok (completeMember m ++ [.operator .like, .value (.string pattern)])) ∧
      ∀ subject, Like.accepts pattern subject = true ↔ test.Holds text subject := by
  obtain ⟨pattern, hvisit, hpattern⟩ := visit_matching (mem_methods hm) ht ha
  rw [isCollection_of_ofExpr ht hc] at hpattern
  refine ⟨pattern, hvisit, fun mode => ?_, Interpretation.accepts_pattern? hm hpattern⟩
  rw [ofLambda, hvisit, ← complete_likeNodes m pattern]
  rfl

/-- A name is asked for a captured beginning that is made of special characters. -/
theorem visit_matches_literally_of_names :
    let schema : Schema := ⟨"Order", ⟨"Id", .identity⟩, [⟨"Name", .string, none, false, false⟩]⟩
    let name : MemberRef := ⟨"Name", none, some .string, false, false⟩
    let bindings : Bindings := [("start", .string "100%_[a-c]^]")]
    let target : Expr := .member (.param "o") "Name"
    MemberRef.ofExpr schema "o" target = .ok name ∧
    (∀ a, schema.accessor? name.path = some a → a.isCollection = false) ∧
    ElementTest.ofMethod? "StartsWith" = some .startsWith ∧
    (Expr.captured "start").fold bindings = .ok (.string "100%_[a-c]^]") ∧
    ∃ pattern,
      visit schema bindings "o" (.methodCall target "StartsWith" [.captured "start"]) =
        .ok [.member name, .operator .like, .value (.string pattern)] ∧
      Like.accepts pattern "100%_[a-c]^] off" = true ∧
      Like.accepts pattern "100 _b^] off" = false := by
  intro schema name bindings target
  have ht : MemberRef.ofExpr schema "o" target = .ok name := rfl
  have hc : ∀ a, schema.accessor? name.path = some a → a.isCollection = false := by
    rintro a ha
    obtain rfl := Option.some.inj ha
    rfl
  have hm : ElementTest.ofMethod? "StartsWith" = some .startsWith := rfl
  have ha : (Expr.captured "start").fold bindings = .ok (.string "100%_[a-c]^]") := rfl
  obtain ⟨pattern, hvisit, -, haccepts⟩ := visit_matches_literally ht hc hm ha
  refine ⟨ht, hc, hm, ha, pattern, hvisit, (haccepts _).2 (by decide), ?_⟩
  exact Bool.eq_false_iff.2 fun h => absurd ((haccepts _).1 h) (by decide)

end Predicate

end DocStore
