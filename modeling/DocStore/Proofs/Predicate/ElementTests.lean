import DocStore.Proofs.Predicate.Like
import DocStore.Proofs.Predicate.Lowering
import DocStore.Proofs.Value.Composite
import DocStore.Schema.Reading

/-!
# One comparison of elements

`xs.Any(e => e == text)` and its kin search the composite of `xs`. They find every element that
compares as asked, and find nothing else as long as neither the text nor the elements can be
mistaken for the delimiters of elements; `ElementTest.Separable` says what that means for each of
the comparisons.
-/

namespace DocStore

/-- What an element is asked to be: equal to a text or not, or to have it at one of its ends or
anywhere. -/
inductive ElementTest where
  | equal
  | differs
  | startsWith
  | endsWith
  | contains
  deriving DecidableEq

namespace ElementTest

open Composite (border Sealed EndsApart BeginsApart chars)

def ofOperator? : BinaryOp → Option ElementTest
  | .equal => some equal
  | .notEqual => some differs
  | _ => none

def ofMethod? (method : String) : Option ElementTest :=
  if method = "StartsWith" then some startsWith
  else if method = "EndsWith" then some endsWith
  else if method = "Contains" then some contains
  else none

theorem ofMethod?_cases {method : String} {test : ElementTest}
    (h : ofMethod? method = some test) :
    method = "StartsWith" ∧ test = startsWith ∨ method = "EndsWith" ∧ test = endsWith ∨
      method = "Contains" ∧ test = contains := by
  unfold ofMethod? at h
  split at h
  · next hm => exact .inl ⟨hm, (Option.some.inj h).symm⟩
  · split at h
    · next hm => exact .inr (.inl ⟨hm, (Option.some.inj h).symm⟩)
    · split at h
      · next hm => exact .inr (.inr ⟨hm, (Option.some.inj h).symm⟩)
      · cases h

def Holds (text : String) : ElementTest → String → Prop
  | equal, s => s = text
  | differs, s => s ≠ text
  | startsWith, s => text.toList <+: s.toList
  | endsWith, s => text.toList <:+ s.toList
  | contains, s => text.toList <:+: s.toList

instance (text : String) (test : ElementTest) (s : String) : Decidable (test.Holds text s) := by
  unfold Holds
  cases test <;> infer_instance

/-- What is searched for in the composite; to differ is not searched for. -/
def word (text : String) : ElementTest → String
  | equal | differs => Composite.element text
  | startsWith => String.ofList Composite.opening ++ text
  | endsWith => text ++ String.ofList Composite.closing
  | contains => text

/-- Neither the text nor the elements reach over a border of elements where they are compared. -/
def Separable (text : String) (elements : List String) : ElementTest → Prop
  | equal => ¬ border <:+: text.toList ∧ ∀ s ∈ elements, Sealed s.toList
  | differs => ¬ border <:+: text.toList
  | startsWith =>
    ¬ border <:+: text.toList ∧ EndsApart text.toList ∧ ∀ s ∈ elements, Sealed s.toList
  | endsWith =>
    ¬ border <:+: text.toList ∧ BeginsApart text.toList ∧ ∀ s ∈ elements, Sealed s.toList
  | contains =>
    ¬ border <:+: text.toList ∧ EndsApart text.toList ∧ BeginsApart text.toList ∧
      (text.toList <:+: border → text = "")

variable {test : ElementTest} {text : String} {elements : List String}

theorem infix_of_holds {s : String} (hs : s ∈ elements) (htest : test ≠ differs)
    (h : test.Holds text s) : (test.word text).toList <:+: chars (elements.map String.toList) := by
  refine List.IsInfix.trans ?_ (Composite.infix_chars (List.mem_map_of_mem hs))
  cases test with
  | equal =>
    obtain rfl : s = text := h
    rw [word, Composite.toList_element]
  | differs => exact absurd rfl htest
  | startsWith =>
    obtain ⟨rest, hrest⟩ := h
    refine ⟨[], rest ++ Composite.closing, ?_⟩
    simp [word, ← hrest]
  | endsWith =>
    obtain ⟨rest, hrest⟩ := h
    refine ⟨Composite.opening ++ rest, [], ?_⟩
    simp [word, ← hrest]
  | contains =>
    exact List.IsInfix.trans h ⟨Composite.opening, Composite.closing, rfl⟩

theorem exists_of_infix (hne : elements ≠ []) (htest : test ≠ differs)
    (hsep : test.Separable text elements)
    (h : (test.word text).toList <:+: chars (elements.map String.toList)) :
    ∃ s ∈ elements, test.Holds text s := by
  have hmap : ∀ {p : List Char → Prop}, (∃ e ∈ elements.map String.toList, p e) →
      ∃ s ∈ elements, p s.toList := by
    rintro p ⟨e, he, hp⟩
    obtain ⟨s, hs, rfl⟩ := List.mem_map.1 he
    exact ⟨s, hs, hp⟩
  have hsealed : (∀ s ∈ elements, Sealed s.toList) →
      ∀ e ∈ elements.map String.toList, Sealed e := by
    intro hs e he
    obtain ⟨s, hmem, rfl⟩ := List.mem_map.1 he
    exact hs s hmem
  cases test with
  | equal =>
    rw [word, Composite.toList_element] at h
    obtain ⟨s, hs, heq⟩ := List.mem_map.1 (Composite.mem_of_delimited (hsealed hsep.2) hsep.1 h)
    exact ⟨s, hs, String.toList_inj.1 heq⟩
  | differs => exact absurd rfl htest
  | startsWith =>
    rw [word, String.toList_append, String.toList_ofList] at h
    exact hmap (Composite.exists_prefix (hsealed hsep.2.2) hsep.1 hsep.2.1 h)
  | endsWith =>
    rw [word, String.toList_append, String.toList_ofList] at h
    exact hmap (Composite.exists_suffix (hsealed hsep.2.2) hsep.1 hsep.2.1 h)
  | contains =>
    obtain ⟨hborder, hends, hbegins, hin⟩ := hsep
    by_cases htext : text = ""
    · subst htext
      obtain ⟨s, hs⟩ := List.exists_mem_of_ne_nil elements hne
      exact ⟨s, hs, List.nil_infix⟩
    · refine hmap (Composite.exists_infix ?_ hborder hends hbegins (fun h => htext (hin h)) h)
      exact fun hnil => htext (String.toList_inj.1 hnil)

def nodes (m : MemberRef) (text : String) : ElementTest → List Node
  | differs => Predicate.elementDiffers m text
  | test => Predicate.likeNodes m (Pattern.contains (test.word text))

def condition (path text : String) : ElementTest → Condition
  | differs =>
    .and (.compare (.member path) .isNot .null)
      (.compare (.member path) .notEqual (.value (.string (Composite.element text))))
  | test => .compare (.member path) .like (.value (.string (Pattern.contains (test.word text))))

theorem condition_of_ne_differs (htest : test ≠ differs) (path text : String) :
    test.condition path text =
      .compare (.member path) .like (.value (.string (Pattern.contains (test.word text)))) := by
  cases test <;> first | rfl | exact absurd rfl htest

theorem reads_nodes (m : MemberRef) (text : String) (test : ElementTest) :
    Reads (test.nodes m text) (·.push (test.condition m.path text)) := by
  cases test with
  | differs =>
    have hnull : Reads [.member m, .operator .isNot, .null] _ := .compare rfl
    have hne : Reads [.member m, .operator .notEqual,
        .value (.string (Composite.element text))] _ := .compare rfl
    exact ((hnull.group rfl).and (hne.group rfl)).group rfl
  | _ => exact .compare rfl

variable {I : Interpretation} {values : String → Value} {path : String} {stored : List Value}

theorem not_endsInBlank {s : String} {front : List Char}
    (h : s.toList = front ++ Composite.closing) : ¬ Interpretation.EndsInBlank s := by
  simp [Interpretation.EndsInBlank, h, Composite.closing]

/-- What is searched for is found where there is a composite that has it somewhere. -/
theorem truth_like_iff (hI : I.IsBinary) (hstored : values path = Composite.ofValues stored)
    (word : String) :
    (Condition.compare (.member path) .like (.value (.string (Pattern.contains word)))).truth I
        values = .yes ↔
      Value.texts stored ≠ [] ∧ word.toList <:+:
        chars ((Composite.distinct [] (Value.texts stored)).map String.toList) := by
  change I.relate .like (values path) (.string (Pattern.contains word)) = .yes ↔ _
  rw [hstored]
  by_cases htexts : Value.texts stored = []
  · rw [Composite.ofValues_of_texts_eq_nil htexts]
    exact iff_of_false nofun fun h => h.1 htexts
  · rw [Composite.ofValues_of_texts_ne_nil htexts, ← Composite.toList_ofTexts]
    change I.like _ _ = .yes ↔ _
    rw [hI.like, Truth.ofBool_eq_yes, Like.accepts_contains]
    exact (and_iff_right htexts).symm

/-- To differ is to have a composite that is not the text alone. -/
theorem truth_differs_iff (hI : I.IsBinary) (hstored : values path = Composite.ofValues stored)
    (text : String) :
    (differs.condition path text).truth I values = .yes ↔
      Value.texts stored ≠ [] ∧ chars ((Composite.distinct [] (Value.texts stored)).map
        String.toList) ≠ (Composite.element text).toList := by
  rw [condition, Condition.truth, Truth.and_eq_yes]
  change I.relate .isNot (values path) .null = .yes ∧
    I.relate .notEqual (values path) (.string (Composite.element text)) = .yes ↔ _
  rw [hstored]
  by_cases htexts : Value.texts stored = []
  · rw [Composite.ofValues_of_texts_eq_nil htexts]
    exact iff_of_false (fun h => nomatch h.1) fun h => h.1 htexts
  · have hne : (Composite.distinct [] (Value.texts stored)).map String.toList ≠ [] := by
      simpa [Composite.distinct_nil_iff] using htexts
    obtain ⟨inner, hinner⟩ := Composite.exists_chars hne
    have hlist := Composite.toList_ofTexts (Composite.distinct [] (Value.texts stored))
    have hequal := hI.equal _ (Composite.element text) (not_endsInBlank (hlist.trans hinner))
      (not_endsInBlank (Composite.toList_element text))
    rw [Composite.ofValues_of_texts_ne_nil htexts, ← hlist, Ne, Ne, String.toList_inj]
    change Truth.yes = .yes ∧ (I.equal _ _).not = .yes ↔ _
    rw [hequal, Truth.not_ofBool, Truth.ofBool_eq_yes]
    simp [htexts]

/-- What compares as asked is found. -/
theorem truth_of_holds (hI : I.IsBinary) (hstored : values path = Composite.ofValues stored)
    (htest : test ≠ differs) (h : ∃ s ∈ Value.texts stored, test.Holds text s) :
    (test.condition path text).truth I values = .yes := by
  obtain ⟨s, hs, hholds⟩ := h
  rw [condition_of_ne_differs htest, truth_like_iff hI hstored]
  exact ⟨List.ne_nil_of_mem hs,
    infix_of_holds (Composite.mem_distinct.2 ⟨hs, List.not_mem_nil⟩) htest hholds⟩

/-- A composite that is not the text alone has an element that differs. -/
theorem exists_differs (hI : I.IsBinary) (hstored : values path = Composite.ofValues stored)
    (h : (differs.condition path text).truth I values = .yes) :
    ∃ s ∈ Value.texts stored, differs.Holds text s := by
  obtain ⟨htexts, hne⟩ := (truth_differs_iff hI hstored text).1 h
  by_contra hall
  have hsame : ∀ s ∈ Value.texts stored, s = text := by
    intro s hs
    by_contra hdiffers
    exact hall ⟨s, hs, hdiffers⟩
  rw [Composite.distinct_of_forall_eq htexts hsame, Composite.toList_element] at hne
  exact hne (List.append_nil _)

theorem separable_of_plain (htext : Composite.Plain text.toList)
    (helements : ∀ s ∈ elements, Composite.Plain s.toList) : test.Separable text elements := by
  have hsealed : ∀ s ∈ elements, Sealed s.toList := fun s hs => (helements s hs).isSealed
  cases test with
  | equal => exact ⟨htext.not_border_infix, hsealed⟩
  | differs => exact htext.not_border_infix
  | startsWith => exact ⟨htext.not_border_infix, htext.endsApart, hsealed⟩
  | endsWith => exact ⟨htext.not_border_infix, htext.beginsApart, hsealed⟩
  | contains =>
    refine ⟨htext.not_border_infix, htext.endsApart, htext.beginsApart, fun hin => ?_⟩
    exact String.toList_inj.1 (htext.eq_nil hin.subset (List.Subset.refl _))

theorem Separable.anti {others : List String} (h : test.Separable text elements)
    (hothers : others ⊆ elements) : test.Separable text others := by
  cases test with
  | equal => exact ⟨h.1, fun s hs => h.2 s (hothers hs)⟩
  | differs => exact h
  | startsWith => exact ⟨h.1, h.2.1, fun s hs => h.2.2 s (hothers hs)⟩
  | endsWith => exact ⟨h.1, h.2.1, fun s hs => h.2.2 s (hothers hs)⟩
  | contains => exact h

/-- Where nothing reaches over a border, exactly the elements that compare as asked are found. -/
theorem truth_condition_iff (hI : I.IsBinary) (hstored : values path = Composite.ofValues stored)
    (hsep : test.Separable text (Value.texts stored)) :
    (test.condition path text).truth I values = .yes ↔
      ∃ s ∈ Value.texts stored, test.Holds text s := by
  have hsubset : Composite.distinct [] (Value.texts stored) ⊆ Value.texts stored :=
    fun s hs => (Composite.mem_distinct.1 hs).1
  by_cases htest : test = differs
  · subst htest
    refine ⟨exists_differs hI hstored, ?_⟩
    rintro ⟨s, hs, hne⟩
    rw [truth_differs_iff hI hstored]
    refine ⟨List.ne_nil_of_mem hs, fun heq => ?_⟩
    rw [Composite.toList_element] at heq
    have hmem : s.toList ∈ (Composite.distinct [] (Value.texts stored)).map String.toList :=
      List.mem_map_of_mem (Composite.mem_distinct.2 ⟨hs, List.not_mem_nil⟩)
    rw [Composite.eq_singleton hsep heq, List.mem_singleton] at hmem
    exact hne (String.toList_inj.1 hmem)
  · refine ⟨fun h => ?_, truth_of_holds hI hstored htest⟩
    rw [condition_of_ne_differs htest, truth_like_iff hI hstored] at h
    obtain ⟨s, hs, hholds⟩ := exists_of_infix (fun hnil => h.1 (Composite.distinct_nil_iff.1 hnil))
      htest (hsep.anti hsubset) h.2
    exact ⟨s, hsubset hs, hholds⟩

end ElementTest

theorem Accessor.indexValue_of_isCollection {a : Accessor} (ha : a.isCollection = true)
    (stored : List Value) : a.indexValue stored = .ok (Composite.ofValues stored) := by
  unfold Accessor.indexValue
  exact if_pos ha

namespace Predicate

variable {schema : Schema} {bindings : Bindings} {parameter collection element suffix text : String}
  {test : ElementTest} {body e : Expr}

def elementPath (collection suffix : String) : String :=
  if suffix.isEmpty then collection else collection ++ "." ++ suffix

/-- An expression compares what `suffix` names in the element with a constant, in one of the ways
of an `ElementTest`. -/
inductive Compares (bindings : Bindings) (element suffix : String) :
    Expr → ElementTest → String → Prop where
  | right {op : BinaryOp} {l r : Expr} {test : ElementTest} {v : Value} {text : String}
    (hop : ElementTest.ofOperator? op = some test) (hl : l.memberPath? element = some suffix)
    (hr : r.fold bindings = .ok v) (hv : v.text? = some text) :
    Compares bindings element suffix (.binary op l r) test text
  | left {op : BinaryOp} {l r : Expr} {test : ElementTest} {v : Value} {text : String}
    (hop : ElementTest.ofOperator? op = some test) (hl : l.fold bindings = .ok v)
    (hv : v.text? = some text) (hr : r.memberPath? element = some suffix) :
    Compares bindings element suffix (.binary op l r) test text
  | method {target arg : Expr} {method : String} {test : ElementTest} {text : String}
    (hm : ElementTest.ofMethod? method = some test) (ht : target.memberPath? element = some suffix)
    (ha : arg.fold bindings = .ok (.string text)) :
    Compares bindings element suffix (.methodCall target method [arg]) test text

theorem elementMember_eq (h : e.memberPath? element = some suffix) :
    elementMember schema collection element body e =
      .ok (MemberRef.resolve schema (elementPath collection suffix) false) := by
  simp only [elementMember, h, elementPath]

theorem constant?_of_memberPath? (h : e.memberPath? element = some suffix) :
    constant? bindings e = .ok none := by
  rw [constant?, Expr.fold_of_referencesParam (Expr.referencesParam_of_memberPath? h)]

theorem nodes_of_operator {op : BinaryOp} (hop : ElementTest.ofOperator? op = some test)
    (m : MemberRef) (text : String) :
    (if op = .notEqual then elementDiffers m text else likeNodes m (Pattern.hasElement text)) =
      test.nodes m text := by
  rw [Pattern.hasElement_eq]
  cases op <;> cases hop <;> rfl

theorem pattern_of_method {method : String} (hm : ElementTest.ofMethod? method = some test)
    (m : MemberRef) (text : String) :
    ∃ pattern, test.nodes m text = likeNodes m pattern ∧
      (method = "StartsWith" ∧ pattern = Pattern.hasElementStartingWith text ∨
        method = "EndsWith" ∧ pattern = Pattern.hasElementEndingWith text ∨
        method = "Contains" ∧ pattern = Pattern.contains text) := by
  obtain ⟨rfl, rfl⟩ | ⟨rfl, rfl⟩ | ⟨rfl, rfl⟩ := ElementTest.ofMethod?_cases hm
  · exact ⟨_, rfl, .inl ⟨rfl, (Pattern.hasElementStartingWith_eq text).symm⟩⟩
  · exact ⟨_, rfl, .inr (.inl ⟨rfl, (Pattern.hasElementEndingWith_eq text).symm⟩)⟩
  · exact ⟨_, rfl, .inr (.inr ⟨rfl, rfl⟩)⟩

theorem quantified_compares (schema : Schema) (collection : String)
    (h : Compares bindings element suffix body test text) :
    quantified schema bindings collection element body =
      .ok (test.nodes (MemberRef.resolve schema (elementPath collection suffix) false) text) := by
  have hquantified : ∀ op l r, ElementTest.ofOperator? op = some test →
      quantified schema bindings collection element (.binary op l r) =
        elementComparison schema bindings collection element op l r := by
    intro op l r hop
    cases op <;> cases hop <;> rfl
  cases h with
  | right hop hl hr hv =>
    rw [hquantified _ _ _ hop, elementComparison, constant?_of_memberPath? hl, constant?_of_fold hr]
    simp only [bind, Except.bind, hv, elementMember_eq hl, nodes_of_operator hop]
  | left hop hl hv hr =>
    rw [hquantified _ _ _ hop, elementComparison, constant?_of_memberPath? hr, constant?_of_fold hl]
    simp only [bind, Except.bind, hv, elementMember_eq hr, nodes_of_operator hop]
  | method hm ht ha =>
    obtain ⟨pattern, hnodes, hpattern⟩ := pattern_of_method hm
      (MemberRef.resolve schema (elementPath collection suffix) false) text
    rw [quantified, elementCall, stringArgument, constant?_of_fold ha, hnodes]
    obtain ⟨rfl, rfl⟩ | ⟨rfl, rfl⟩ | ⟨rfl, rfl⟩ := hpattern <;>
      simp only [bind, Except.bind, elementMember_eq ht] <;> rfl

theorem texts_map_string (texts : List String) : Value.texts (texts.map .string) = texts := by
  rw [Value.texts_eq_filterMap, List.filterMap_map]
  exact List.filterMap_some

/-- `xs.Any(e => e == text)` and its kin, on the composite of `xs`: what is searched for is found
where an element has it, an element differs where the composite is not the text alone, and both the
other way around where the comparison is separable. -/
theorem any_compares_elements (schema : Schema) {a : Accessor} {target : Expr} {texts : List String}
    {I : Interpretation} {values : String → Value} (hI : I.IsBinary)
    (ht : target.memberPath? parameter = some a.path)
    (hbody : Compares bindings element "" body test text) (ha : a.isCollection = true)
    (hstored : a.indexValue (texts.map .string) = .ok (values a.path)) :
    ∃ nodes c,
      visit schema bindings parameter (.methodCall target "Any" [.lambda element body]) =
        .ok nodes ∧
      Condition.ofNodes? nodes = some c ∧
      (test ≠ .differs → (∃ s ∈ texts, test.Holds text s) → c.truth I values = .yes) ∧
      (test = .differs → c.truth I values = .yes → ∃ s ∈ texts, test.Holds text s) ∧
      (test.Separable text texts →
        (c.truth I values = .yes ↔ ∃ s ∈ texts, test.Holds text s)) := by
  have hcomposite : values a.path = Composite.ofValues (texts.map .string) :=
    (Except.ok.inj ((Accessor.indexValue_of_isCollection ha _).symm.trans hstored)).symm
  have hnodes := visit_quantified ht (quantified_compares schema a.path hbody)
  refine ⟨_, test.condition a.path text, hnodes, (test.reads_nodes _ text).ofNodes?_eq rfl, ?_⟩
  have htexts := texts_map_string texts
  refine ⟨fun htest h => ?_, fun htest h => ?_, fun hsep => ?_⟩
  · exact ElementTest.truth_of_holds hI hcomposite htest (htexts.symm ▸ h)
  · subst htest
    exact htexts ▸ ElementTest.exists_differs hI hcomposite h
  · rw [← htexts] at hsep ⊢
    exact ElementTest.truth_condition_iff hI hcomposite hsep

/-- Tags are searched for one that begins with `50%`. -/
theorem any_compares_elements_of_tags :
    let tags : Accessor := ⟨"Tags", .string, none, true, false⟩
    let texts := ["a", "50% off"]
    let stored := Composite.ofValues (texts.map .string)
    let values := fun path => if path = "Tags" then stored else .null
    let body : Expr := .methodCall (.param "t") "StartsWith" [.constant (.string "50%")]
    Interpretation.binary.IsBinary ∧
      Compares [] "t" "" body .startsWith "50%" ∧ tags.isCollection = true ∧
      tags.indexValue (texts.map .string) = .ok (values tags.path) ∧
      ElementTest.startsWith.Separable "50%" texts ∧
      ∃ nodes c, visit ⟨"Item", ⟨"Id", .guid⟩, [tags]⟩ [] "i"
          (.methodCall (.member (.param "i") "Tags") "Any" [.lambda "t" body]) = .ok nodes ∧
        Condition.ofNodes? nodes = some c ∧ c.truth .binary values = .yes := by
  intro tags texts stored values body
  have hI := Interpretation.isBinary_binary
  have hbody : Compares [] "t" "" body .startsWith "50%" := .method rfl rfl rfl
  have hstored : tags.indexValue (texts.map .string) = .ok (values tags.path) := rfl
  have hsep : ElementTest.startsWith.Separable "50%" texts :=
    ElementTest.separable_of_plain (by decide) (by decide)
  have htarget : (Expr.member (.param "i") "Tags").memberPath? "i" = some tags.path := rfl
  obtain ⟨nodes, c, hnodes, hread, -, -, hiff⟩ := any_compares_elements
    ⟨"Item", ⟨"Id", .guid⟩, [tags]⟩ hI htarget hbody rfl hstored
  refine ⟨hI, hbody, rfl, hstored, hsep, nodes, c, hnodes, hread, (hiff hsep).2 ?_⟩
  exact ⟨"50% off", by decide, by decide⟩

/-- A text with a border of elements is found across two elements, and no element has it. -/
theorem any_finds_across_elements :
    let texts := ["a", "b"]
    let stored := Composite.ofValues (texts.map .string)
    let values := fun path => if path = "Tags" then stored else .null
    let body : Expr := .binary .equal (.param "t") (.constant (.string "a$><$b"))
    Interpretation.binary.IsBinary ∧ Compares [] "t" "" body .equal "a$><$b" ∧
      ∃ nodes c, visit ⟨"Item", ⟨"Id", .guid⟩, [⟨"Tags", .string, none, true, false⟩]⟩ [] "i"
          (.methodCall (.member (.param "i") "Tags") "Any" [.lambda "t" body]) = .ok nodes ∧
        Condition.ofNodes? nodes = some c ∧ c.truth .binary values = .yes ∧
        ¬ ∃ s ∈ texts, ElementTest.equal.Holds "a$><$b" s := by
  intro texts stored values body
  have hbody : Compares [] "t" "" body .equal "a$><$b" := .right rfl rfl rfl rfl
  refine ⟨Interpretation.isBinary_binary, hbody, _, ElementTest.equal.condition "Tags" "a$><$b",
    visit_quantified rfl (quantified_compares _ "Tags" hbody),
    (ElementTest.equal.reads_nodes _ _).ofNodes?_eq rfl, by decide +kernel, by decide⟩

end Predicate

end DocStore
