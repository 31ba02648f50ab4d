import DocStore.Proofs.Predicate.ElementTests
import DocStore.Proofs.Structure.Acceptance

/-!
# Comparisons of elements joined by `&&` and `||`

Every member of the elements of a collection has one composite for the whole collection, so each
comparison in `xs.Any(e => p)` asks for an element of its own. The predicate holds where `p` holds
of the texts of all elements pooled (`any_pools_elements`). That is weaker than to ask for one
element of which `p` holds; both are the same where `p` has no `&&`, and for a collection of one
element.
-/

namespace DocStore

/-- A comparison of what `suffix` names in an element; nothing names the element itself. -/
structure ElementComparison where
  suffix : String
  test : ElementTest
  text : String

inductive ElementPredicate where
  | compare (c : ElementComparison)
  | and (left right : ElementPredicate)
  | or (left right : ElementPredicate)

namespace ElementPredicate

def comparisons : ElementPredicate → List ElementComparison
  | compare c => [c]
  | and l r | or l r => l.comparisons ++ r.comparisons

def hasAnd : ElementPredicate → Bool
  | compare _ => false
  | and _ _ => true
  | or l r => l.hasAnd || r.hasAnd

/-- The predicate holds where members have the given texts: a comparison does of one of them. -/
def Holds (texts : String → List String) : ElementPredicate → Prop
  | compare c => ∃ s ∈ texts c.suffix, c.test.Holds c.text s
  | and l r => l.Holds texts ∧ r.Holds texts
  | or l r => l.Holds texts ∨ r.Holds texts

def condition (collection : String) : ElementPredicate → Condition
  | compare c => c.test.condition (Predicate.elementPath collection c.suffix) c.text
  | and l r => .and (l.condition collection) (r.condition collection)
  | or l r => .or (l.condition collection) (r.condition collection)

variable {p : ElementPredicate} {texts : String → List String}

theorem Holds.mono {others : String → List String} (h : p.Holds texts)
    (hothers : ∀ suffix, texts suffix ⊆ others suffix) : p.Holds others := by
  induction p with
  | compare c =>
    obtain ⟨s, hs, hholds⟩ := h
    exact ⟨s, hothers _ hs, hholds⟩
  | and l r ihl ihr => exact ⟨ihl h.1, ihr h.2⟩
  | or l r ihl ihr => exact h.imp ihl ihr

theorem exists_mem_of_holds (h : p.Holds texts) : ∃ suffix s, s ∈ texts suffix := by
  induction p with
  | compare c =>
    obtain ⟨s, hs, -⟩ := h
    exact ⟨c.suffix, s, hs⟩
  | and l r ihl _ => exact ihl h.1
  | or l r ihl ihr => exact h.elim ihl ihr

section

variable {α : Type} {elements : List α} {textsOf : α → String → List String}

theorem holds_pooled {e : α} (he : e ∈ elements) (h : p.Holds (textsOf e)) :
    p.Holds fun suffix => elements.flatMap (textsOf · suffix) :=
  h.mono fun _ _ hs => List.mem_flatMap.2 ⟨e, he, hs⟩

/-- Without `&&`, one comparison decides, and it is met by one element. -/
theorem exists_of_holds_pooled (hand : p.hasAnd = false)
    (h : p.Holds fun suffix => elements.flatMap (textsOf · suffix)) :
    ∃ e ∈ elements, p.Holds (textsOf e) := by
  induction p with
  | compare c =>
    obtain ⟨s, hs, hholds⟩ := h
    obtain ⟨e, he, hs⟩ := List.mem_flatMap.1 hs
    exact ⟨e, he, s, hs, hholds⟩
  | and => cases hand
  | or l r ihl ihr =>
    obtain ⟨hl, hr⟩ := Bool.or_eq_false_iff.1 hand
    rcases h with h | h
    · obtain ⟨e, he, h⟩ := ihl hl h
      exact ⟨e, he, .inl h⟩
    · obtain ⟨e, he, h⟩ := ihr hr h
      exact ⟨e, he, .inr h⟩

theorem exists_of_length_le_one (hone : elements.length ≤ 1)
    (h : p.Holds fun suffix => elements.flatMap (textsOf · suffix)) :
    ∃ e ∈ elements, p.Holds (textsOf e) := by
  match elements with
  | [] =>
    obtain ⟨_, _, hs⟩ := exists_mem_of_holds h
    cases hs
  | [e] => exact ⟨e, List.mem_singleton_self e, by simpa using h⟩
  | _ :: _ :: _ => simp at hone

end

/-- Where every comparison can be told by its composite, the condition has the value of the
predicate on the texts of these composites. -/
theorem truth_condition_iff {I : Interpretation} {values : String → Value} {collection : String}
    (hI : I.IsBinary)
    (hstored : ∀ c ∈ p.comparisons, ∃ stored,
      values (Predicate.elementPath collection c.suffix) = Composite.ofValues stored ∧
        Value.texts stored = texts c.suffix)
    (hsep : ∀ c ∈ p.comparisons, c.test.Separable c.text (texts c.suffix)) :
    (p.condition collection).truth I values = .yes ↔ p.Holds texts := by
  induction p with
  | compare c =>
    obtain ⟨stored, hvalue, htexts⟩ := hstored c (List.mem_singleton_self c)
    have hsep := hsep c (List.mem_singleton_self c)
    rw [← htexts] at hsep
    rw [condition, ElementTest.truth_condition_iff hI hvalue hsep, htexts, Holds]
  | and l r ihl ihr =>
    rw [comparisons, List.forall_mem_append] at hstored hsep
    rw [condition, Condition.truth, Truth.and_eq_yes, ihl hstored.1 hsep.1, ihr hstored.2 hsep.2,
      Holds]
  | or l r ihl ihr =>
    rw [comparisons, List.forall_mem_append] at hstored hsep
    rw [condition, Condition.truth, Truth.or_eq_yes, ihl hstored.1 hsep.1, ihr hstored.2 hsep.2,
      Holds]

end ElementPredicate

namespace Predicate

open Condition

/-- An expression is made of comparisons of the element as the predicate is. -/
inductive Spells (bindings : Bindings) (element : String) : Expr → ElementPredicate → Prop where
  | compare {body : Expr} {c : ElementComparison}
    (h : Compares bindings element c.suffix body c.test c.text) :
    Spells bindings element body (.compare c)
  | and {l r : Expr} {p q : ElementPredicate} :
    Spells bindings element l p → Spells bindings element r q →
      Spells bindings element (.binary .and l r) (.and p q)
  | or {l r : Expr} {p q : ElementPredicate} :
    Spells bindings element l p → Spells bindings element r q →
      Spells bindings element (.binary .or l r) (.or p q)

variable {schema : Schema} {bindings : Bindings} {parameter collection element : String}
  {body target e : Expr} {p : ElementPredicate} {item : Document} {values : String → Value}

theorem reads_operand {s : List Node} {f : Pending → Pending} {c : Condition} (hs : Reads s f)
    (hc : (f {}).close = some c) (hf : e.isBinary = false → f = (·.push c)) :
    Reads (operand e s) (·.push c) := by
  unfold operand
  split
  · exact hs.group hc
  · next hb => exact hf (by simpa using hb) ▸ hs

/-- The nodes of a predicate on elements are read as its condition, alone and as an operand. -/
theorem exists_nodes (schema : Schema) (collection : String) (h : Spells bindings element body p) :
    ∃ nodes f, quantified schema bindings collection element body = .ok nodes ∧ Reads nodes f ∧
      (f {}).close = some (p.condition collection) ∧
      (body.isBinary = false → f = (·.push (p.condition collection))) := by
  induction h with
  | @compare body c h =>
    exact ⟨_, _, quantified_compares schema collection h, c.test.reads_nodes _ c.text, rfl,
      fun _ => rfl⟩
  | and _ _ ihl ihr =>
    obtain ⟨sl, f, hl, hsl, hcl, hfl⟩ := ihl
    obtain ⟨sr, g, hr, hsr, hcr, hfr⟩ := ihr
    have hreads := (reads_operand hsl hcl hfl).and (reads_operand hsr hcr hfr)
    refine ⟨_, _, ?_, hreads, rfl, fun hb => Bool.noConfusion hb⟩
    simp only [quantified, logical?, hl, hr, bind, Except.bind]
  | or _ _ ihl ihr =>
    obtain ⟨sl, f, hl, hsl, hcl, hfl⟩ := ihl
    obtain ⟨sr, g, hr, hsr, hcr, hfr⟩ := ihr
    have hreads := (reads_operand hsl hcl hfl).or (reads_operand hsr hcr hfr)
    refine ⟨_, _, ?_, hreads, rfl, fun hb => Bool.noConfusion hb⟩
    simp only [quantified, logical?, hl, hr, bind, Except.bind]

def elements (item : Document) (collection : String) : List Document :=
  item.reached (Schema.names collection)

def parts (suffix : String) (e : Document) : List Document :=
  if suffix.isEmpty then [e] else e.reached (Schema.names suffix)

/-- The texts that an element has under `suffix`, as the member of the schema reads them. -/
def elementTexts (schema : Schema) (collection : String) (e : Document) (suffix : String) :
    List String :=
  match schema.accessor? (elementPath collection suffix) with
  | some a => (parts suffix e).filterMap fun d => (Value.ofDocument? a.family d).bind Value.text?
  | none => []

/-- The value of an element member is what its accessor stores for the item. -/
def IsStored (schema : Schema) (item : Document) (collection : String) (values : String → Value)
    (suffix : String) : Prop :=
  ∃ a stored, schema.accessor? (elementPath collection suffix) = some a ∧ a.isCollection = true ∧
    a.readValues item = .ok stored ∧ a.indexValue stored = .ok (values a.path)

theorem reached_elementPath (item : Document) (collection suffix : String) :
    item.reached (Schema.names (elementPath collection suffix)) =
      (elements item collection).flatMap (parts suffix) := by
  unfold elementPath parts elements
  split
  · exact (List.flatMap_singleton' _).symm
  · rw [Schema.names_append, Document.reached_append _ (Schema.names_ne_nil suffix)]

theorem texts_of_forall₂ {family : Family} {ds : List Document} {stored : List Value}
    (h : List.Forall₂ (fun d v => Value.ofDocument family d = .ok v) ds stored) :
    Value.texts stored = ds.filterMap fun d => (Value.ofDocument? family d).bind Value.text? := by
  rw [Value.texts_eq_filterMap]
  induction h with
  | nil => rfl
  | cons hd _ ih =>
    rw [List.filterMap_cons, List.filterMap_cons, Value.ofDocument_eq_ok.1 hd, Option.bind_some, ih]

/-- The stored composite pools the texts of all elements. -/
theorem IsStored.pooled {suffix : String}
    (h : IsStored schema item collection values suffix) :
    ∃ stored, values (elementPath collection suffix) = Composite.ofValues stored ∧
      Value.texts stored =
        (elements item collection).flatMap (elementTexts schema collection · suffix) := by
  obtain ⟨a, stored, hfind, ha, hread, hvalue⟩ := h
  have hpath : a.path = elementPath collection suffix := by
    simpa using List.find?_some hfind
  have hnames : a.names = Schema.names (elementPath collection suffix) := by
    rw [← hpath]
    rfl
  have htexts : ∀ e, elementTexts schema collection e suffix = (parts suffix e).filterMap
      fun d => (Value.ofDocument? a.family d).bind Value.text? := by
    intro e
    simp only [elementTexts, hfind]
  refine ⟨stored, ?_, ?_⟩
  · rw [Accessor.indexValue_of_isCollection ha] at hvalue
    rw [← hpath, ← Except.ok.inj hvalue]
  · rw [Accessor.readValues_eq, hnames, reached_elementPath] at hread
    rw [texts_of_forall₂ (forall₂_of_mapM hread), List.filterMap_flatMap]
    simp only [htexts]

def Alphanumeric (s : String) : Prop :=
  ∀ c ∈ s.toList, c.isAlphanum = true

instance (s : String) : Decidable (Alphanumeric s) :=
  decidable_of_iff (s.toList.all Char.isAlphanum) List.all_eq_true

theorem Alphanumeric.plain {s : String} (h : Alphanumeric s) : Composite.Plain s.toList := by
  intro c hc hborder
  have hdelimiters : Composite.border.all (fun c => !c.isAlphanum) = true := by decide
  have hc' := List.all_eq_true.1 hdelimiters c hborder
  rw [h c hc] at hc'
  cases hc'

/-- `xs.Any(e => p)` holds where `p` holds of the texts of all elements pooled, each comparison of
`p` asking for an element of its own. So it holds where `p` holds of one element, and where `p` has
no `&&` or there is one element at most, only there. -/
theorem any_pools_elements {I : Interpretation} (hI : I.IsBinary)
    (ht : target.memberPath? parameter = some collection) (hbody : Spells bindings element body p)
    (hstored : ∀ c ∈ p.comparisons, IsStored schema item collection values c.suffix)
    (hliterals : ∀ c ∈ p.comparisons, Alphanumeric c.text)
    (htexts : ∀ c ∈ p.comparisons, ∀ e ∈ elements item collection,
      ∀ s ∈ elementTexts schema collection e c.suffix, Alphanumeric s) :
    let found := elements item collection
    let textsOf := elementTexts schema collection
    ∃ nodes c,
      visit schema bindings parameter (.methodCall target "Any" [.lambda element body]) =
        .ok nodes ∧
      Condition.ofNodes? nodes = some c ∧
      (c.truth I values = .yes ↔ p.Holds fun suffix => found.flatMap (textsOf · suffix)) ∧
      ((∃ e ∈ found, p.Holds (textsOf e)) → c.truth I values = .yes) ∧
      (p.hasAnd = false ∨ found.length ≤ 1 →
        (c.truth I values = .yes ↔ ∃ e ∈ found, p.Holds (textsOf e))) := by
  intro found textsOf
  obtain ⟨nodes, f, hnodes, hreads, hclose, -⟩ := exists_nodes schema collection hbody
  have hsep : ∀ c ∈ p.comparisons,
      c.test.Separable c.text (found.flatMap (textsOf · c.suffix)) := by
    intro c hc
    refine ElementTest.separable_of_plain (hliterals c hc).plain fun s hs => ?_
    obtain ⟨e, he, hs⟩ := List.mem_flatMap.1 hs
    exact (htexts c hc e he s hs).plain
  have hpooled : (p.condition collection).truth I values = .yes ↔
      p.Holds fun suffix => found.flatMap (textsOf · suffix) :=
    ElementPredicate.truth_condition_iff hI (fun c hc => (hstored c hc).pooled) hsep
  have hone : (∃ e ∈ found, p.Holds (textsOf e)) →
      (p.condition collection).truth I values = .yes := by
    rintro ⟨e, he, h⟩
    exact hpooled.2 (ElementPredicate.holds_pooled he h)
  refine ⟨nodes, p.condition collection, visit_quantified ht hnodes, hreads.ofNodes?_eq hclose,
    hpooled, hone, fun hp => ⟨fun h => ?_, hone⟩⟩
  rcases hp with hand | hlength
  · exact ElementPredicate.exists_of_holds_pooled hand (hpooled.1 h)
  · exact ElementPredicate.exists_of_length_le_one hlength (hpooled.1 h)

def orders : Schema where
  name := "Order"
  id := ⟨"Id", .guid⟩
  accessors := [⟨"Lines.ProductNo", .string, none, false, true⟩,
    ⟨"Lines.Size", .integer, none, false, true⟩]

def twoLines : Document :=
  .object [("Lines", .array
    [.object [("ProductNo", .string "x"), ("Size", .integer 1)],
      .object [("ProductNo", .string "y"), ("Size", .integer 2)]])]

def twoLinesStored (path : String) : Value :=
  if path = "Lines.ProductNo" then .string "<$x$><$y$>"
  else if path = "Lines.Size" then .string "<$1$><$2$>"
  else .null

/-- `l.ProductNo == no && l.Size == size` -/
def lineBody (no : String) (size : Int64) : Expr :=
  .binary .and (.binary .equal (.member (.param "l") "ProductNo") (.constant (.string no)))
    (.binary .equal (.member (.param "l") "Size") (.constant (.integer size)))

def linePredicate (no : String) (size : Int64) : ElementPredicate :=
  .and (.compare ⟨"ProductNo", .equal, no⟩) (.compare ⟨"Size", .equal, Value.int64Text size⟩)

theorem spells_lineBody (no : String) (size : Int64) :
    Spells [] "l" (lineBody no size) (linePredicate no size) :=
  .and (.compare (.right rfl rfl rfl rfl)) (.compare (.right rfl rfl rfl rfl))

theorem isStored_twoLines (no : String) (size : Int64) :
    ∀ c ∈ (linePredicate no size).comparisons,
      IsStored orders twoLines "Lines" twoLinesStored c.suffix := by
  have hno : IsStored orders twoLines "Lines" twoLinesStored "ProductNo" :=
    ⟨⟨"Lines.ProductNo", .string, none, false, true⟩, [.string "x", .string "y"],
      by decide +kernel, rfl, by decide +kernel, by decide +kernel⟩
  have hsize : IsStored orders twoLines "Lines" twoLinesStored "Size" :=
    ⟨⟨"Lines.Size", .integer, none, false, true⟩, [.integer 1, .integer 2],
      by decide +kernel, rfl, by decide +kernel, by decide +kernel⟩
  intro c hc
  rcases List.mem_pair.1 hc with rfl | rfl
  · exact hno
  · exact hsize

theorem alphanumeric_twoLines (no : String) (size : Int64) :
    ∀ c ∈ (linePredicate no size).comparisons, ∀ e ∈ elements twoLines "Lines",
      ∀ s ∈ elementTexts orders "Lines" e c.suffix, Alphanumeric s := by
  have hno : ∀ e ∈ elements twoLines "Lines", ∀ s ∈ elementTexts orders "Lines" e "ProductNo",
      Alphanumeric s := by decide +kernel
  have hsize : ∀ e ∈ elements twoLines "Lines", ∀ s ∈ elementTexts orders "Lines" e "Size",
      Alphanumeric s := by decide +kernel
  intro c hc
  rcases List.mem_pair.1 hc with rfl | rfl
  · exact hno
  · exact hsize

/-- One line is of product `x` and of size `1`. -/
theorem any_pools_elements_of_twoLines :
    let p := linePredicate "x" 1
    Interpretation.binary.IsBinary ∧ Spells [] "l" (lineBody "x" 1) p ∧
      (∀ c ∈ p.comparisons, IsStored orders twoLines "Lines" twoLinesStored c.suffix) ∧
      (∀ c ∈ p.comparisons, Alphanumeric c.text) ∧
      (∀ c ∈ p.comparisons, ∀ e ∈ elements twoLines "Lines",
        ∀ s ∈ elementTexts orders "Lines" e c.suffix, Alphanumeric s) ∧
      ∃ nodes c, visit orders [] "o"
          (.methodCall (.member (.param "o") "Lines") "Any" [.lambda "l" (lineBody "x" 1)]) =
            .ok nodes ∧
        Condition.ofNodes? nodes = some c ∧ c.truth .binary twoLinesStored = .yes := by
  intro p
  have hI := Interpretation.isBinary_binary
  have hbody := spells_lineBody "x" 1
  have hstored := isStored_twoLines "x" 1
  have htexts := alphanumeric_twoLines "x" 1
  have hliterals : ∀ c ∈ p.comparisons, Alphanumeric c.text := by decide +kernel
  have htarget : (Expr.member (.param "o") "Lines").memberPath? "o" = some "Lines" := rfl
  obtain ⟨nodes, c, hnodes, hread, -, hone, -⟩ :=
    any_pools_elements hI htarget hbody hstored hliterals htexts
  refine ⟨hI, hbody, hstored, hliterals, htexts, nodes, c, hnodes, hread, hone ?_⟩
  exact ⟨.object [("ProductNo", .string "x"), ("Size", .integer 1)], List.mem_cons_self,
    ⟨"x", by decide +kernel, rfl⟩, ⟨"1", by decide +kernel, rfl⟩⟩

/-- A line of product `x` and another one of size `2` are taken for a line of both. -/
theorem any_joins_two_elements :
    let p := linePredicate "x" 2
    Interpretation.binary.IsBinary ∧ Spells [] "l" (lineBody "x" 2) p ∧
      (∀ c ∈ p.comparisons, IsStored orders twoLines "Lines" twoLinesStored c.suffix) ∧
      (∀ c ∈ p.comparisons, Alphanumeric c.text) ∧
      (∀ c ∈ p.comparisons, ∀ e ∈ elements twoLines "Lines",
        ∀ s ∈ elementTexts orders "Lines" e c.suffix, Alphanumeric s) ∧
      ∃ nodes c, visit orders [] "o"
          (.methodCall (.member (.param "o") "Lines") "Any" [.lambda "l" (lineBody "x" 2)]) =
            .ok nodes ∧
        Condition.ofNodes? nodes = some c ∧ c.truth .binary twoLinesStored = .yes ∧
        ¬ ∃ e ∈ elements twoLines "Lines", p.Holds (elementTexts orders "Lines" e) := by
  intro p
  have hbody := spells_lineBody "x" 2
  obtain ⟨nodes, f, hnodes, hreads, hclose, -⟩ := exists_nodes orders "Lines" hbody
  refine ⟨Interpretation.isBinary_binary, hbody, isStored_twoLines "x" 2, by decide +kernel,
    alphanumeric_twoLines "x" 2, nodes, p.condition "Lines", visit_quantified rfl hnodes,
    hreads.ofNodes?_eq hclose, by decide +kernel, ?_⟩
  simp only [p, linePredicate, ElementPredicate.Holds]
  decide +kernel

end Predicate

end DocStore
