import DocStore.Proofs.Outcome
import DocStore.Proofs.Schema.Reached

/-!
# Document order

`Document.Holds` tells which values a path has in a document and where: a position lists the array
items on the way to a value by their numbers, from the outside in. Following a path finds every
value that it has, in the order of their positions. The values of a member are read in this order,
so the first that is not one of its family is the error.
-/

namespace DocStore

namespace Document

/-- The path has this value at this position. Members of objects and items of arrays lead to its
end, where null is no value and the items of an array are values themselves. -/
inductive Holds : List String → Document → List Nat → Document → Prop
  | scalar {d : Document} (hnull : d.isNull = false) (harray : ∀ items, d ≠ array items) :
    Holds [] d [] d
  | entry {items : List Document} {i : Nat} {d : Document} (h : items[i]? = some d)
    (hnull : d.isNull = false) : Holds [] (array items) [i] d
  | member {name : String} {names : List String} {members : List (String × Document)}
    {p : List Nat} {d leaf : Document} (h : members.lookup name = some d)
    (hd : Holds names d p leaf) : Holds (name :: names) (object members) p leaf
  | item {name : String} {names : List String} {items : List Document} {i : Nat} {p : List Nat}
    {d leaf : Document} (h : items[i]? = some d) (hd : Holds (name :: names) d p leaf) :
    Holds (name :: names) (array items) (i :: p) leaf

/-- The documents are those at the positions where `R` has one, in the order of the positions. -/
def InOrder (R : List Nat → Document → Prop) (docs : List Document) : Prop :=
  ∃ entries : List (List Nat × Document), entries.map Prod.snd = docs ∧
    entries.Pairwise (fun a b => a.1 < b.1) ∧ ∀ p d, (p, d) ∈ entries ↔ R p d

namespace InOrder

variable {R S : List Nat → Document → Prop} {docs others : List Document}

theorem congr (h : InOrder R docs) (hRS : ∀ p d, S p d ↔ R p d) : InOrder S docs := by
  obtain ⟨entries, hdocs, hsorted, hmem⟩ := h
  exact ⟨entries, hdocs, hsorted, fun p d => (hmem p d).trans (hRS p d).symm⟩

theorem empty (h : ∀ p d, ¬ R p d) : InOrder R [] :=
  ⟨[], rfl, .nil, fun p d => ⟨nofun, fun hR => absurd hR (h p d)⟩⟩

theorem single (d : Document) : InOrder (fun p e => p = [] ∧ e = d) [d] := by
  refine ⟨[([], d)], rfl, List.pairwise_singleton _ _, fun p e => ?_⟩
  rw [List.mem_singleton, Prod.mk.injEq]

/-- One item further out. -/
theorem push (i : Nat) (h : InOrder R docs) :
    InOrder (fun p d => ∃ q, p = i :: q ∧ R q d) docs := by
  obtain ⟨entries, hdocs, hsorted, hmem⟩ := h
  refine ⟨entries.map fun x => (i :: x.1, x.2), ?_, ?_, ?_⟩
  · rw [List.map_map, ← hdocs]
    rfl
  · rw [List.pairwise_map]
    exact hsorted.imp fun hlt => List.cons_lt_cons_iff.2 (.inr ⟨rfl, hlt⟩)
  · intro p d
    rw [List.mem_map]
    constructor
    · rintro ⟨⟨q, e⟩, hentry, h⟩
      obtain ⟨rfl, rfl⟩ := Prod.mk.inj h
      exact ⟨q, rfl, (hmem q e).1 hentry⟩
    · rintro ⟨q, rfl, hq⟩
      exact ⟨(q, d), (hmem q d).2 hq, rfl⟩

theorem append (h : InOrder R docs) (h' : InOrder S others)
    (hlt : ∀ p d q e, R p d → S q e → p < q) :
    InOrder (fun p d => R p d ∨ S p d) (docs ++ others) := by
  obtain ⟨entries, hdocs, hsorted, hmem⟩ := h
  obtain ⟨entries', hothers, hsorted', hmem'⟩ := h'
  refine ⟨entries ++ entries', ?_, List.pairwise_append.2 ⟨hsorted, hsorted', ?_⟩, ?_⟩
  · rw [List.map_append, hdocs, hothers]
  · rintro ⟨p, d⟩ hp ⟨q, e⟩ hq
    exact hlt p d q e ((hmem p d).1 hp) ((hmem' q e).1 hq)
  · intro p d
    rw [List.mem_append, hmem, hmem']

/-- What is found in items, one after another, is in order behind their numbers from `start` on. -/
theorem flatMap_from {R : Document → List Nat → Document → Prop} {f : Document → List Document}
    {items : List Document} (h : ∀ d ∈ items, InOrder (R d) (f d)) (start : Nat) :
    InOrder (fun p leaf => ∃ i d q, items[i]? = some d ∧ p = (start + i) :: q ∧ R d q leaf)
      (items.flatMap f) := by
  induction items generalizing start with
  | nil => exact empty (by simp)
  | cons d items ih =>
    rw [List.forall_mem_cons] at h
    have happend := (h.1.push start).append (ih h.2 (start + 1)) (by
      rintro _ _ _ _ ⟨_, rfl, _⟩ ⟨i, _, _, _, rfl, _⟩
      exact List.cons_lt_cons_iff.2 (.inl (by omega)))
    refine happend.congr fun p leaf => ?_
    constructor
    · rintro ⟨i, e, q, hi, rfl, hq⟩
      cases i with
      | zero =>
        obtain rfl : d = e := Option.some.inj hi
        exact .inl ⟨q, rfl, hq⟩
      | succ i => exact .inr ⟨i, e, q, hi, by rw [Nat.add_right_comm, Nat.add_assoc], hq⟩
    · rintro (⟨q, rfl, hq⟩ | ⟨i, e, q, hi, rfl, hq⟩)
      · exact ⟨0, d, q, rfl, rfl, hq⟩
      · exact ⟨i + 1, e, q, hi, by rw [Nat.add_right_comm, Nat.add_assoc], hq⟩

/-- What is found in the items of an array is in order behind their numbers. -/
theorem flatMap {R : Document → List Nat → Document → Prop} {f : Document → List Document}
    {items : List Document} (h : ∀ d ∈ items, InOrder (R d) (f d)) :
    InOrder (fun p leaf => ∃ i d q, items[i]? = some d ∧ p = i :: q ∧ R d q leaf)
      (items.flatMap f) := by
  simpa only [Nat.zero_add] using flatMap_from h 0

end InOrder

theorem inOrder_scalar {d : Document} (hnull : d.isNull = false)
    (harray : ∀ items, d ≠ array items) : InOrder (Holds [] d) [d] := by
  refine (InOrder.single d).congr fun p leaf => ⟨fun h => ?_, ?_⟩
  · cases h with
    | scalar => exact ⟨rfl, rfl⟩
    | entry => exact absurd rfl (harray _)
  · rintro ⟨rfl, rfl⟩
    exact .scalar hnull harray

/-- An item of the array at the end of a path, unless it is null. -/
theorem inOrder_entry (d : Document) :
    InOrder (fun p leaf => p = [] ∧ leaf = d ∧ d.isNull = false)
      (if d.isNull then [] else [d]) := by
  cases hnull : d.isNull with
  | true => exact .empty fun p leaf h => by simp at h
  | false => exact (InOrder.single d).congr fun p leaf => by simp

theorem filter_eq_flatMap (items : List Document) :
    (items.filter fun item => !item.isNull) =
      items.flatMap fun item => if item.isNull then [] else [item] := by
  induction items with
  | nil => rfl
  | cons item items ih =>
    rw [List.filter_cons, List.flatMap_cons, ih]
    cases item.isNull <;> rfl

theorem inOrder_leaves (d : Document) : InOrder (Holds [] d) d.leaves := by
  cases d with
  | null =>
    refine .empty fun p leaf h => ?_
    cases h with
    | scalar hnull => cases hnull
  | array items =>
    rw [leaves, filter_eq_flatMap]
    have hitems := InOrder.flatMap fun d (_ : d ∈ items) => inOrder_entry d
    refine hitems.congr fun p leaf => ⟨fun h => ?_, ?_⟩
    · cases h with
      | scalar _ harray => exact absurd rfl (harray items)
      | @entry _ i _ h hnull => exact ⟨i, leaf, [], h, rfl, rfl, rfl, hnull⟩
    · rintro ⟨i, d, _, h, rfl, rfl, rfl, hnull⟩
      exact .entry h hnull
  | _ => exact inOrder_scalar rfl nofun

theorem branchItems_eq_flatMap (name : String) (next : Document → List Document)
    (items : List Document) : branchItems name next items = items.flatMap (branch name next) := by
  induction items with
  | nil => rfl
  | cons item items ih => rw [branchItems, ih, List.flatMap_cons]

theorem reached_array (name : String) (names : List String) (items : List Document) :
    (array items).reached (name :: names) = items.flatMap (reached (name :: names)) := by
  rw [reached, ends, branch, branchItems_eq_flatMap, List.flatMap_assoc]
  rfl

theorem reached_object (name : String) (names : List String)
    (members : List (String × Document)) : (object members).reached (name :: names) =
      ((members.lookup name).map (reached names)).getD [] := by
  rw [reached, ends, branch]
  cases members.lookup name <;> rfl

section

variable {name : String} {names : List String}

mutual

-- The name is followed through arrays within arrays; behind it, `ih` takes over.
theorem inOrder_reached_cons (ih : ∀ d : Document, InOrder (Holds names d) (d.reached names))
    (d : Document) : InOrder (Holds (name :: names) d) (d.reached (name :: names)) := by
  cases d with
  | object members =>
    rw [reached_object]
    cases hlookup : members.lookup name with
    | none =>
      refine .empty fun p leaf h => ?_
      cases h with
      | member h => cases hlookup.symm.trans h
    | some d =>
      refine (ih d).congr fun p leaf => ⟨fun h => ?_, .member hlookup⟩
      cases h with
      | member h hd =>
        obtain rfl := Option.some.inj (hlookup.symm.trans h)
        exact hd
  | array items =>
    rw [reached_array]
    have hitems := InOrder.flatMap (inOrder_reached_items ih items)
    refine hitems.congr fun p leaf => ⟨fun h => ?_, ?_⟩
    · cases h with
      | @item _ _ _ i p d _ h hd => exact ⟨i, d, p, h, rfl, hd⟩
    · rintro ⟨i, d, q, h, rfl, hd⟩
      exact .item h hd
  | _ => exact .empty fun p leaf h => nomatch h

theorem inOrder_reached_items (ih : ∀ d : Document, InOrder (Holds names d) (d.reached names))
    (items : List Document) :
    ∀ d ∈ items, InOrder (Holds (name :: names) d) (d.reached (name :: names)) := by
  cases items with
  | nil => exact nofun
  | cons d items =>
    exact List.forall_mem_cons.2 ⟨inOrder_reached_cons ih d, inOrder_reached_items ih items⟩

end

end

/-- What a path reaches are the values that it has, in the order of their positions. -/
theorem inOrder_reached (names : List String) (d : Document) :
    InOrder (Holds names d) (d.reached names) := by
  induction names generalizing d with
  | nil =>
    rw [reached, ends, List.flatMap_singleton]
    exact inOrder_leaves d
  | cons name names ih => exact inOrder_reached_cons ih d

/-- Arrays before a name are gone into at any depth, the one at the end only once. -/
example :
    let line (number : Document) := object [("No", number)]
    let lines := array [line (.integer 1), array [line (array [.integer 2, null,
      array [.integer 3]])], null, line (.integer 4)]
    (object [("Lines", lines)]).reached ["Lines", "No"] =
      [.integer 1, .integer 2, array [.integer 3], .integer 4] := rfl

end Document

namespace Accessor

/-- A member's values are read in document order. The nodes at the end of its path, found level by
level, are those that are found depth first. Null left out and one array opened, they are all the
values that the path has, in the order of their positions. These are converted one by one up to the
first that is none of the family, which is the error. -/
theorem readValues_in_document_order (a : Accessor) (item : Document) :
    let nodes := item.ends a.names
    let found := nodes.flatMap Document.leaves
    Document.follow a.names [item] = nodes ∧
      Document.InOrder (Document.Holds a.names item) found ∧
      (∀ values, a.readValues item = .ok values ↔
        List.Forall₂ (fun d v => Value.ofDocument a.family d = .ok v) found values) ∧
      ∀ e, a.readValues item = .error e ↔ ∃ before d after, found = before ++ d :: after ∧
        (∀ b ∈ before, ∃ v, Value.ofDocument a.family b = .ok v) ∧
          Value.ofDocument a.family d = .error e := by
  intro nodes found
  have hread : a.readValues item = found.mapM (Value.ofDocument a.family) := readValues_eq a item
  rw [hread]
  exact ⟨Document.follow_eq a.names item, Document.inOrder_reached a.names item,
    fun _ => mapM_eq_ok_iff, fun _ => mapM_eq_error_iff⟩

end Accessor

end DocStore
