import DocStore.Value.Composite
import Mathlib.Data.List.Infix

/-!
# What is found in a composite

A composite is searched for text. What is found lies in one element unless it reaches over a
`border`, the delimiters between two neighbours; elements that are `Sealed` have no delimiters of
their own, so the delimiters of a composite of such elements tell where they begin and end
(`exists_of_opening`, `exists_of_closing`).
-/

namespace DocStore.Composite

def border : List Char :=
  closing ++ opening

def chars (elements : List (List Char)) : List Char :=
  elements.flatMap fun e => opening ++ e ++ closing

/-- The delimiters around the element are all there are, also together with its own characters. -/
structure Sealed (e : List Char) : Prop where
  opening : ¬ opening <:+: e ++ closing
  closing : ¬ closing <:+: Composite.opening ++ e

instance (e : List Char) : Decidable (Sealed e) :=
  decidable_of_iff (¬ opening <:+: e ++ closing ∧ ¬ closing <:+: opening ++ e)
    ⟨fun h => ⟨h.1, h.2⟩, fun h => ⟨h.1, h.2⟩⟩

/-- The text ends in no part of a border that would go on behind it. -/
def EndsApart (text : List Char) : Prop :=
  ∀ part, part <+: border → part <:+ text → part = []

/-- The text begins with no part of a border that would start before it. -/
def BeginsApart (text : List Char) : Prop :=
  ∀ part, part <:+ border → part <+: text → part = []

variable {elements : List (List Char)} {e text part before after : List Char}

theorem chars_cons (e : List Char) (elements : List (List Char)) :
    chars (e :: elements) = opening ++ e ++ closing ++ chars elements :=
  List.flatMap_cons

theorem chars_append (elements others : List (List Char)) :
    chars (elements ++ others) = chars elements ++ chars others :=
  List.flatMap_append

theorem infix_chars (h : e ∈ elements) : opening ++ e ++ closing <:+: chars elements := by
  obtain ⟨first, others, rfl⟩ := List.append_of_mem h
  exact ⟨chars first, chars others, by rw [chars_append, chars_cons, List.append_assoc]⟩

/-- A composite of at least one element is delimited itself. -/
theorem exists_chars (h : elements ≠ []) :
    ∃ inner, chars elements = opening ++ inner ++ closing := by
  induction elements with
  | nil => exact absurd rfl h
  | cons e others ih =>
    cases others with
    | nil => exact ⟨e, by rw [chars_cons]; exact List.append_nil _⟩
    | cons second others =>
      obtain ⟨inner, hinner⟩ := ih (List.cons_ne_nil _ _)
      refine ⟨e ++ closing ++ opening ++ inner, ?_⟩
      rw [chars_cons, hinner]
      simp only [List.append_assoc]

def Plain (text : List Char) : Prop :=
  ∀ c ∈ text, c ∉ border

instance (text : List Char) : Decidable (Plain text) :=
  decidable_of_iff (text.all fun c => !border.contains c) (by simp [Plain])

/-- A plain text has nothing in common with a border. -/
theorem Plain.eq_nil (h : Plain text) (hborder : part ⊆ border) (htext : part ⊆ text) :
    part = [] := by
  rw [List.eq_nil_iff_forall_not_mem]
  exact fun c hc => h c (htext hc) (hborder hc)

theorem Plain.not_border_infix (h : Plain text) : ¬ border <:+: text :=
  fun hin => absurd (h.eq_nil (List.Subset.refl _) hin.subset) (by decide)

theorem Plain.endsApart (h : Plain text) : EndsApart text :=
  fun _ hpart hin => h.eq_nil hpart.subset hin.subset

theorem Plain.beginsApart (h : Plain text) : BeginsApart text :=
  fun _ hpart hin => h.eq_nil hpart.subset hin.subset

theorem Plain.isSealed (h : Plain e) : Sealed e where
  opening hin := by
    rcases List.mem_append.1 (hin.subset List.mem_cons_self) with he | hclosing
    · exact h _ he (by decide)
    · exact absurd hclosing (by decide)
  closing hin := by
    rcases List.mem_append.1 (hin.subset (List.mem_cons_of_mem _ List.mem_cons_self)) with
      hopening | he
    · exact absurd hopening (by decide)
    · exact h _ he (by decide)

example : Sealed ['a', '$', 'b'] ∧ ¬ Sealed ['>', 'a'] ∧ ¬ Sealed ['a', '<'] := by
  decide

theorem block_eq (e : List Char) : opening ++ e ++ closing = opening ++ e ++ ['$'] ++ ['>'] := by
  simp [closing]

theorem prefix_border (elements : List (List Char)) (rest : List Char) :
    border <+: closing ++ (chars elements ++ (opening ++ rest)) := by
  cases elements with
  | nil => exact ⟨rest, rfl⟩
  | cons e others => exact ⟨e ++ closing ++ chars others ++ (opening ++ rest), rfl⟩

theorem prefix_after_element (h : part <+: closing ++ chars elements) :
    part <+: border ∨ border <+: part := by
  cases elements with
  | nil => exact .inl (h.trans ⟨opening, rfl⟩)
  | cons e others =>
    have hborder : border <+: closing ++ chars (e :: others) :=
      ⟨e ++ closing ++ chars others, rfl⟩
    exact List.prefix_or_prefix_of_prefix h hborder

theorem suffix_before_element (h : part <:+ chars elements ++ opening) :
    part <:+ border ∨ border <:+ part := by
  by_cases hne : elements = []
  · subst hne
    exact .inl (h.trans ⟨closing, rfl⟩)
  · obtain ⟨inner, hinner⟩ := exists_chars hne
    have hborder : border <:+ chars elements ++ opening :=
      ⟨opening ++ inner, by rw [hinner, border]; simp only [List.append_assoc]⟩
    exact List.suffix_or_suffix_of_suffix h hborder

/-- In a composite of sealed elements, every opening delimiter opens an element. -/
theorem exists_of_opening (hsealed : ∀ e ∈ elements, Sealed e)
    (h : chars elements = before ++ (opening ++ after)) :
    ∃ first e others, elements = first ++ e :: others ∧ before = chars first ∧
      after = e ++ closing ++ chars others := by
  induction elements generalizing before with
  | nil => simp [chars, opening] at h
  | cons e others ih =>
    rw [List.forall_mem_cons] at hsealed
    have hrest : ∀ rest, before = opening ++ e ++ closing ++ rest →
        chars others = rest ++ (opening ++ after) → ∃ first e' others',
          e :: others = first ++ e' :: others' ∧ before = chars first ∧
            after = e' ++ closing ++ chars others' := by
      rintro rest rfl hothers
      obtain ⟨first, e', others', rfl, rfl, rfl⟩ := ih hsealed.2 hothers
      exact ⟨e :: first, e', others', rfl, (chars_cons e first).symm, rfl⟩
    rw [chars_cons] at h
    obtain ⟨rest, hbefore, hothers⟩ | ⟨rest, hblock, hafter⟩ := List.append_eq_append_iff.1 h
    · exact hrest rest hbefore hothers
    · cases before with
      | nil =>
        rw [List.nil_append] at hblock
        simp only [← hblock, List.append_assoc] at hafter
        refine ⟨[], e, others, rfl, rfl, ?_⟩
        rw [List.append_assoc]
        exact List.append_cancel_left hafter
      | cons c before =>
        obtain ⟨-, hblock'⟩ := List.cons.inj hblock
        match rest with
        | [] =>
          rw [List.append_nil] at hblock
          exact hrest [] (by rw [List.append_nil, hblock]) hafter.symm
        | [d] =>
          obtain ⟨rfl, -⟩ := List.cons.inj hafter
          rw [block_eq] at hblock
          exact absurd (List.append_inj_right' hblock rfl) (by decide)
        | d :: d' :: rest =>
          obtain ⟨rfl, htail⟩ := List.cons.inj hafter
          obtain ⟨rfl, -⟩ := List.cons.inj htail
          have hin : opening <:+: '$' :: (e ++ closing) :=
            ⟨before, rest, by simpa [opening] using hblock'.symm⟩
          rcases List.infix_cons_iff.1 hin with hprefix | hin
          · obtain ⟨_, hprefix⟩ := hprefix
            exact absurd (List.cons.inj hprefix).1 (by decide)
          · exact absurd hin hsealed.1.opening

/-- In a composite of sealed elements, every closing delimiter closes an element. -/
theorem exists_of_closing (hsealed : ∀ e ∈ elements, Sealed e)
    (h : chars elements = before ++ (closing ++ after)) :
    ∃ first e others, elements = first ++ e :: others ∧ before = chars first ++ (opening ++ e) ∧
      after = chars others := by
  induction elements generalizing before with
  | nil => simp [chars, closing] at h
  | cons e others ih =>
    rw [List.forall_mem_cons] at hsealed
    rw [chars_cons] at h
    have hstart : ∀ c rest, chars others = c :: rest → c = '<' := by
      intro c rest hothers
      cases others with
      | nil => cases hothers
      | cons => exact (List.cons.inj hothers).1.symm
    obtain ⟨rest, rfl, hothers⟩ | ⟨rest, hblock, hafter⟩ := List.append_eq_append_iff.1 h
    · obtain ⟨first, e', others', rfl, rfl, rfl⟩ := ih hsealed.2 hothers
      exact ⟨e :: first, e', others', rfl, by rw [chars_cons]; simp only [List.append_assoc],
        rfl⟩
    · match rest with
      | [] => exact absurd (hstart _ _ hafter.symm) (by decide)
      | [d] =>
        obtain ⟨-, hothers⟩ := List.cons.inj hafter
        exact absurd (hstart _ _ hothers.symm) (by decide)
      | d :: d' :: rest =>
        obtain ⟨rfl, htail⟩ := List.cons.inj hafter
        obtain ⟨rfl, rfl⟩ := List.cons.inj htail
        cases rest using List.reverseRecOn with
        | nil =>
          refine ⟨[], e, others, rfl, ?_, rfl⟩
          exact (List.append_cancel_right hblock).symm
        | append_singleton rest d =>
          have hin : closing <:+: opening ++ e ++ ['$'] := by
            refine ⟨before, rest, ?_⟩
            have hblock' : opening ++ e ++ ['$'] ++ ['>'] = before ++ closing ++ rest ++ [d] := by
              rw [← block_eq, hblock]
              simp [closing]
            exact (List.append_inj_left' hblock' rfl).symm
          rcases List.infix_concat_iff.1 hin with ⟨front, hsuffix⟩ | hin
          · have hsuffix : front ++ ['$'] ++ ['>'] = opening ++ e ++ ['$'] := by
              simpa [closing] using hsuffix
            exact absurd (List.append_inj_right' hsuffix rfl) (by decide)
          · exact absurd hin hsealed.1.closing

theorem mem_of_delimited (hsealed : ∀ e ∈ elements, Sealed e) (htext : ¬ border <:+: text)
    (h : opening ++ text ++ closing <:+: chars elements) : text ∈ elements := by
  obtain ⟨before, after, h⟩ := h
  have hopening : chars elements = before ++ (opening ++ (text ++ closing ++ after)) := by
    rw [← h]
    simp only [List.append_assoc]
  obtain ⟨first, e, others, rfl, rfl, htail⟩ := exists_of_opening hsealed hopening
  have hfrom : chars (e :: others) = opening ++ text ++ (closing ++ after) := by
    rw [chars_cons, List.append_assoc, List.append_assoc, ← List.append_assoc e, ← htail]
    simp only [List.append_assoc]
  obtain ⟨skipped, e', others', hsplit, hword, -⟩ :=
    exists_of_closing (fun e he => hsealed e (List.mem_append_right _ he)) hfrom
  cases skipped with
  | nil =>
    obtain ⟨rfl, rfl⟩ := List.cons.inj hsplit
    rw [List.append_cancel_left hword]
    exact List.mem_append_right _ List.mem_cons_self
  | cons e skipped =>
    rw [chars_cons, List.append_assoc, List.append_assoc, List.append_assoc] at hword
    obtain ⟨rest, hborder⟩ := prefix_border skipped e'
    rw [List.append_cancel_left hword] at htext
    exact absurd ⟨e, rest, by rw [List.append_assoc, hborder]⟩ htext

theorem exists_prefix (hsealed : ∀ e ∈ elements, Sealed e) (htext : ¬ border <:+: text)
    (hends : EndsApart text) (h : opening ++ text <:+: chars elements) :
    ∃ e ∈ elements, text <+: e := by
  obtain ⟨before, after, h⟩ := h
  have hopening : chars elements = before ++ (opening ++ (text ++ after)) := by
    rw [← h]
    simp only [List.append_assoc]
  obtain ⟨first, e, others, rfl, -, htail⟩ := exists_of_opening hsealed hopening
  have he : e ∈ first ++ e :: others := List.mem_append_right _ List.mem_cons_self
  rw [List.append_assoc] at htail
  obtain ⟨rest, heq, -⟩ | ⟨part, heq, htail⟩ := List.append_eq_append_iff.1 htail
  · exact ⟨e, he, rest, heq.symm⟩
  · rcases prefix_after_element ⟨after, htail.symm⟩ with hpart | hpart
    · obtain rfl := hends part hpart ⟨e, heq.symm⟩
      exact ⟨e, he, [], by rw [heq]; simp⟩
    · rw [heq] at htext
      exact absurd (hpart.isInfix.trans (List.suffix_append e part).isInfix) htext

theorem exists_suffix (hsealed : ∀ e ∈ elements, Sealed e) (htext : ¬ border <:+: text)
    (hbegins : BeginsApart text) (h : text ++ closing <:+: chars elements) :
    ∃ e ∈ elements, text <:+ e := by
  obtain ⟨before, after, h⟩ := h
  have hclosing : chars elements = before ++ text ++ (closing ++ after) := by
    rw [← h]
    simp only [List.append_assoc]
  obtain ⟨first, e, others, rfl, hhead, -⟩ := exists_of_closing hsealed hclosing
  have he : e ∈ first ++ e :: others := List.mem_append_right _ List.mem_cons_self
  rw [← List.append_assoc] at hhead
  obtain ⟨part, hhead, heq⟩ | ⟨rest, -, heq⟩ := List.append_eq_append_iff.1 hhead
  · rcases suffix_before_element ⟨before, hhead.symm⟩ with hpart | hpart
    · obtain rfl := hbegins part hpart ⟨e, heq.symm⟩
      exact ⟨e, he, [], by rw [heq]; simp⟩
    · rw [heq] at htext
      exact absurd (hpart.isInfix.trans (List.prefix_append part e).isInfix) htext
  · exact ⟨e, he, rest, heq.symm⟩

theorem exists_infix (hne : text ≠ []) (htext : ¬ border <:+: text) (hends : EndsApart text)
    (hbegins : BeginsApart text) (hin : ¬ text <:+: border)
    (h : text <:+: chars elements) : ∃ e ∈ elements, text <:+: e := by
  -- The tail behind an element begins like a border, so all elements can be left one by one.
  suffices hall : ∀ elements, text <:+: closing ++ chars elements → ∃ e ∈ elements, text <:+: e from
    hall elements (h.trans (List.suffix_append _ _).isInfix)
  intro elements
  induction elements with
  | nil => exact fun h => absurd (h.trans ⟨[], opening, rfl⟩) hin
  | cons e others ih =>
    intro h
    have hblock : closing ++ chars (e :: others) = border ++ (e ++ (closing ++ chars others)) := by
      rw [chars_cons, border]
      simp only [List.append_assoc]
    rw [hblock] at h
    have hbehind : text <:+: e ++ (closing ++ chars others) := by
      rcases List.infix_append_iff.1 h with h | h | ⟨part, rest, rfl, hpart, hrest⟩
      · exact absurd h hin
      · exact h
      · obtain rfl := hbegins part hpart ⟨rest, rfl⟩
        exact hrest.isInfix
    rcases List.infix_append_iff.1 hbehind with h | h | ⟨rest, part, rfl, hrest, hpart⟩
    · exact ⟨e, List.mem_cons_self, h⟩
    · obtain ⟨e', he', h⟩ := ih h
      exact ⟨e', List.mem_cons_of_mem _ he', h⟩
    · rcases prefix_after_element hpart with hpart | hpart
      · obtain rfl := hends part hpart ⟨rest, rfl⟩
        rw [List.append_nil]
        exact ⟨e, List.mem_cons_self, hrest.isInfix⟩
      · exact absurd (hpart.isInfix.trans (List.suffix_append rest part).isInfix) htext

/-- One delimited text without a border is the composite of that text alone. -/
theorem eq_singleton (htext : ¬ border <:+: text)
    (h : chars elements = opening ++ text ++ closing) : elements = [text] := by
  cases elements with
  | nil => simp [chars, opening] at h
  | cons e others =>
    rw [chars_cons] at h
    cases others with
    | nil =>
      rw [chars, List.flatMap_nil, List.append_nil] at h
      rw [List.append_cancel_left (List.append_cancel_right h)]
    | cons second others =>
      obtain ⟨inner, hinner⟩ := exists_chars (List.cons_ne_nil second others)
      rw [hinner] at h
      have heq : text = e ++ border ++ inner := by
        have h : opening ++ (e ++ border ++ inner) ++ closing = opening ++ text ++ closing := by
          rw [← h, border]
          simp only [List.append_assoc]
        exact (List.append_cancel_left (List.append_cancel_right h)).symm
      exact absurd ⟨e, inner, heq.symm⟩ htext

theorem toList_element (s : String) :
    (element s).toList = opening ++ s.toList ++ closing :=
  String.toList_ofList

theorem toList_ofTexts (texts : List String) :
    (ofTexts texts).toList = chars (texts.map String.toList) := by
  induction texts with
  | nil => rfl
  | cons s texts ih =>
    rw [List.map_cons, chars_cons, ← ih, ← toList_element, ← String.toList_append]
    rfl

theorem mem_distinct {seen texts : List String} {s : String} :
    s ∈ distinct seen texts ↔ s ∈ texts ∧ s ∉ seen := by
  induction texts generalizing seen with
  | nil => simp [distinct]
  | cons t texts ih =>
    rw [distinct]
    split
    · next ht =>
      rw [ih, List.mem_cons]
      constructor
      · exact fun h => ⟨.inr h.1, h.2⟩
      · rintro ⟨rfl | hs, hseen⟩
        · exact absurd ht hseen
        · exact ⟨hs, hseen⟩
    · next ht =>
      rw [List.mem_cons, ih, List.mem_cons, List.mem_cons, not_or]
      by_cases hst : s = t
      · subst hst
        simp [ht]
      · simp [hst]

theorem distinct_nil_iff {texts : List String} : distinct [] texts = [] ↔ texts = [] := by
  simp [List.eq_nil_iff_forall_not_mem, mem_distinct]

/-- Texts that are all the same make a composite of one element. -/
theorem distinct_of_forall_eq {texts : List String} {t : String} (hne : texts ≠ [])
    (h : ∀ s ∈ texts, s = t) : distinct [] texts = [t] := by
  cases texts with
  | nil => exact absurd rfl hne
  | cons s texts =>
    rw [List.forall_mem_cons] at h
    obtain ⟨rfl, h⟩ := h
    have hnone : distinct [s] texts = [] := by
      rw [List.eq_nil_iff_forall_not_mem]
      intro s' hs'
      obtain ⟨hmem, hseen⟩ := mem_distinct.1 hs'
      exact hseen (List.mem_singleton.2 (h s' hmem))
    rw [distinct, if_neg List.not_mem_nil, hnone]

theorem ofValues_of_texts_eq_nil {values : List Value} (h : Value.texts values = []) :
    ofValues values = .null := by
  rw [ofValues, h]
  rfl

theorem ofValues_of_texts_ne_nil {values : List Value} (h : Value.texts values ≠ []) :
    ofValues values = .string (ofTexts (distinct [] (Value.texts values))) := by
  rw [ofValues]
  split
  · next hnone => exact absurd (distinct_nil_iff.1 hnone) h
  · rfl

end DocStore.Composite
