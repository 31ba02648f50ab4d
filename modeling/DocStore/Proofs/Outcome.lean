import DocStore.Error
import Mathlib.Data.List.Forall2

/-!
# Outcomes of sequences of steps

Steps that may fail with an error, one after another and for every item of a list.
-/

namespace DocStore

variable {α β : Type}

theorem bind_eq_ok {ε : Type} {x : Except ε α} {f : α → Except ε β} {b : β} :
    x >>= f = .ok b ↔ ∃ a, x = .ok a ∧ f a = .ok b := by
  cases x with
  | error e => exact ⟨nofun, fun ⟨_, h, _⟩ => nomatch h⟩
  | ok a => exact ⟨fun h => ⟨a, rfl, h⟩, fun ⟨_, h, hf⟩ => by cases h; exact hf⟩

theorem bind_eq_error {ε : Type} {x : Except ε α} {f : α → Except ε β} {e : ε} :
    x >>= f = .error e ↔ x = .error e ∨ ∃ a, x = .ok a ∧ f a = .error e := by
  cases x with
  | error e' =>
    constructor
    · rintro ⟨⟩
      exact .inl rfl
    · rintro (h | ⟨_, h, _⟩) <;> cases h
      rfl
  | ok a =>
    constructor
    · exact fun h => .inr ⟨a, rfl, h⟩
    · rintro (h | ⟨_, ha, h⟩)
      · cases h
      · cases ha
        exact h

theorem mapM_eq_ok {f : α → Except Error β} {g : α → β} {items : List α}
    (h : ∀ a ∈ items, f a = .ok (g a)) : items.mapM f = .ok (items.map g) := by
  induction items with
  | nil => rfl
  | cons a items ih =>
    rw [List.forall_mem_cons] at h
    rw [List.mapM_cons, h.1, ih h.2]
    rfl

theorem forall₂_of_mapM {f : α → Except Error β} {items : List α} {results : List β}
    (h : items.mapM f = .ok results) : List.Forall₂ (fun a b => f a = .ok b) items results := by
  induction items generalizing results with
  | nil =>
    obtain rfl := Except.ok.inj h
    exact .nil
  | cons a items ih =>
    rw [List.mapM_cons] at h
    obtain ⟨b, hb, h⟩ := bind_eq_ok.1 h
    obtain ⟨others, ho, h⟩ := bind_eq_ok.1 h
    obtain rfl := Except.ok.inj h
    exact .cons hb (ih ho)

theorem mapM_eq_ok_iff {f : α → Except Error β} {items : List α} {results : List β} :
    items.mapM f = .ok results ↔ List.Forall₂ (fun a b => f a = .ok b) items results := by
  refine ⟨forall₂_of_mapM, fun h => ?_⟩
  induction h with
  | nil => rfl
  | cons hb _ ih => rw [List.mapM_cons, hb, ih]; rfl

/-- Steps fail with the error of the first that fails. -/
theorem mapM_eq_error_iff {f : α → Except Error β} {items : List α} {e : Error} :
    items.mapM f = .error e ↔ ∃ before a after, items = before ++ a :: after ∧
      (∀ b ∈ before, ∃ result, f b = .ok result) ∧ f a = .error e := by
  induction items with
  | nil =>
    refine ⟨nofun, ?_⟩
    rintro ⟨before, a, after, h, -⟩
    simp at h
  | cons a items ih =>
    rw [List.mapM_cons, bind_eq_error]
    constructor
    · rintro (ha | ⟨b, hb, h⟩)
      · exact ⟨[], a, items, rfl, nofun, ha⟩
      · obtain hrest | ⟨_, _, h⟩ := bind_eq_error.1 h
        · obtain ⟨before, x, after, rfl, hbefore, hx⟩ := ih.1 hrest
          exact ⟨a :: before, x, after, rfl, List.forall_mem_cons.2 ⟨⟨b, hb⟩, hbefore⟩, hx⟩
        · cases h
    · rintro ⟨before, x, after, hitems, hbefore, hx⟩
      cases before with
      | nil =>
        obtain ⟨rfl, rfl⟩ := List.cons.inj hitems
        exact .inl hx
      | cons y before =>
        obtain ⟨rfl, hrest⟩ := List.cons.inj hitems
        rw [List.forall_mem_cons] at hbefore
        obtain ⟨b, hb⟩ := hbefore.1
        exact .inr ⟨b, hb, bind_eq_error.2 (.inl (ih.2 ⟨before, x, after, hrest, hbefore.2, hx⟩))⟩

theorem exists_of_forall₂ {r : α → β → Prop} {items : List α} {results : List β}
    (h : List.Forall₂ r items results) {b : β} (hb : b ∈ results) : ∃ a ∈ items, r a b := by
  induction h with
  | nil => cases hb
  | @cons a c items results hac _ ih =>
    rcases List.mem_cons.1 hb with rfl | hb
    · exact ⟨a, List.mem_cons_self, hac⟩
    · obtain ⟨x, hx, hr⟩ := ih hb
      exact ⟨x, List.mem_cons_of_mem _ hx, hr⟩

theorem exists_mapM_eq_ok {f : α → Except Error β} {items : List α} :
    (∃ results, items.mapM f = .ok results) ↔ ∀ a ∈ items, ∃ b, f a = .ok b := by
  induction items with
  | nil => exact ⟨fun _ => nofun, fun _ => ⟨[], rfl⟩⟩
  | cons a items ih =>
    rw [List.forall_mem_cons, ← ih, List.mapM_cons]
    constructor
    · rintro ⟨results, h⟩
      obtain ⟨b, hb, h⟩ := bind_eq_ok.1 h
      obtain ⟨others, ho, _⟩ := bind_eq_ok.1 h
      exact ⟨⟨b, hb⟩, others, ho⟩
    · rintro ⟨⟨b, hb⟩, others, ho⟩
      exact ⟨b :: others, bind_eq_ok.2 ⟨b, hb, bind_eq_ok.2 ⟨others, ho, rfl⟩⟩⟩

/-- Both steps succeed with related results, or both fail with related errors. -/
inductive Matched (failed : Error → Error → Prop) (r : α → β → Prop) :
    Except Error α → Except Error β → Prop
  | ok {a : α} {b : β} (h : r a b) : Matched failed r (.ok a) (.ok b)
  | error {e e' : Error} (h : failed e e') : Matched failed r (.error e) (.error e')

theorem Matched.exists_eq {failed : Error → Error → Prop} {r : α → β → Prop} {x : Except Error α}
    {y : Except Error β} (h : Matched failed r x y) :
    (∃ e e', x = .error e ∧ y = .error e' ∧ failed e e') ∨
      ∃ a b, x = .ok a ∧ y = .ok b ∧ r a b := by
  cases h with
  | ok h => exact .inr ⟨_, _, rfl, rfl, h⟩
  | error h => exact .inl ⟨_, _, rfl, rfl, h⟩

theorem Matched.refl (x : Except Error α) : Matched Eq Eq x x := by
  cases x with
  | ok a => exact .ok rfl
  | error e => exact .error rfl

theorem Matched.bind {γ δ : Type} {failed : Error → Error → Prop} {r : α → β → Prop}
    {s : γ → δ → Prop} {x : Except Error α} {y : Except Error β} {f : α → Except Error γ}
    {g : β → Except Error δ} (h : Matched failed r x y)
    (hf : ∀ a b, r a b → Matched failed s (f a) (g b)) :
    Matched failed s (x >>= f) (y >>= g) := by
  cases h with
  | ok h => exact hf _ _ h
  | error h => exact .error h

/-- Steps that differ in their errors only where `f` does not tell stay so when they go on alike. -/
theorem mapError_bind_congr {ε κ : Type} {f : ε → κ} {x y : Except ε α}
    {next next' : α → Except ε β}
    (h : x.mapError f = y.mapError f)
    (hnext : ∀ a, (next a).mapError f = (next' a).mapError f) :
    (x >>= next).mapError f = (y >>= next').mapError f := by
  cases x with
  | error e =>
    cases y with
    | error e' => exact congrArg Except.error (Except.error.inj h)
    | ok b => cases h
  | ok a =>
    cases y with
    | error e' => cases h
    | ok b =>
      obtain rfl : a = b := Except.ok.inj h
      exact hnext a

end DocStore
