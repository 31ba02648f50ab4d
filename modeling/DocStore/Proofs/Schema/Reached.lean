import DocStore.Proofs.Schema.Accepted
import DocStore.Schema.Reading

/-!
# What a path reaches

`Document.ends` follows a path depth first: each document that the first name leads to is followed
to the end of the path before the next one is looked at. Following the path level by level finds
the same documents in the same order (`follow_eq`). `Document.reached` are the scalars among them.
Setting one member of an object changes nothing of what other paths reach.
-/

namespace DocStore

namespace Document

section

variable (name : String) (next : Document → List Document)

mutual

/-- What `next` finds in the member of an object, in every object of an array. -/
def branch : Document → List Document
  | .object members =>
    match members.lookup name with
    | some member => next member
    | none => []
  | .array items => branchItems items
  | _ => []

def branchItems : List Document → List Document
  | [] => []
  | item :: others => branch item ++ branchItems others

end

end

/-- The documents at the end of a path, in the order in which they stand in the document. -/
def ends : List String → Document → List Document
  | [] => fun d => [d]
  | name :: names => branch name (ends names)

/-- The values of a path: null is none, and one array at the end is opened. -/
def reached (names : List String) (d : Document) : List Document :=
  (d.ends names).flatMap leaves

section

variable (name : String) (next : Document → List Document)

mutual

theorem branch_eq (d : Document) : branch name next d = (step name d).flatMap next := by
  cases d with
  | object members =>
    rw [branch, step]
    cases members.lookup name with
    | none => rfl
    | some member => exact (List.append_nil _).symm
  | array items => exact branchItems_eq items
  | _ => rfl

theorem branchItems_eq (items : List Document) :
    branchItems name next items = (stepItems name items).flatMap next := by
  cases items with
  | nil => rfl
  | cons item others =>
    rw [branchItems, stepItems, List.flatMap_append, branch_eq, branchItems_eq]

end

end

theorem follow_eq_flatMap (names : List String) (nodes : List Document) :
    follow names nodes = nodes.flatMap (ends names) := by
  induction names generalizing nodes with
  | nil => exact (List.flatMap_singleton' nodes).symm
  | cons name names ih =>
    have hbranch : ends (name :: names) = fun d => (step name d).flatMap (ends names) :=
      funext (branch_eq name (ends names))
    calc
      follow (name :: names) nodes = follow names (nodes.flatMap (step name)) := rfl
      _ = (nodes.flatMap (step name)).flatMap (ends names) := ih _
      _ = nodes.flatMap (ends (name :: names)) := by rw [hbranch, List.flatMap_assoc]

/-- Both ways to follow a path find the same documents in the same order. -/
theorem follow_eq (names : List String) (d : Document) : follow names [d] = d.ends names := by
  rw [follow_eq_flatMap, List.flatMap_singleton]

theorem ends_append (names others : List String) (d : Document) :
    d.ends (names ++ others) = (d.ends names).flatMap (ends others) := by
  rw [← follow_eq, follow, List.foldl_append, ← follow, ← follow, follow_eq, follow_eq_flatMap]

theorem branchItems_filter (name : String) (next : Document → List Document)
    (items : List Document) :
    branchItems name next items =
      (items.filter fun item => !item.isNull).flatMap (branch name next) := by
  induction items with
  | nil => rfl
  | cons item items ih =>
    rw [branchItems, ih, List.filter_cons]
    split
    · rfl
    · next hnull =>
      cases item with
      | null => rfl
      | _ => exact absurd rfl hnull

/-- A path that goes on finds in a document what it finds in its leaves: it skips nulls, and goes
into every item of an array. -/
theorem flatMap_leaves (name : String) (next : Document → List Document) (d : Document) :
    d.leaves.flatMap (branch name next) = branch name next d := by
  cases d with
  | null => rfl
  | array items => exact (branchItems_filter name next items).symm
  | _ => exact List.flatMap_singleton _ _

/-- What a longer path reaches is what its end reaches in what its beginning does. -/
theorem reached_append (names : List String) {others : List String} (hothers : others ≠ [])
    (d : Document) :
    d.reached (names ++ others) = (d.reached names).flatMap (reached others) := by
  cases others with
  | nil => exact absurd rfl hothers
  | cons name others =>
    have hreached : ∀ e, reached (name :: others) e =
        (leaves e).flatMap (reached (name :: others)) := by
      intro e
      calc
        reached (name :: others) e = (branch name (ends others) e).flatMap leaves := rfl
        _ = (e.leaves.flatMap (branch name (ends others))).flatMap leaves := by
          rw [flatMap_leaves]
        _ = e.leaves.flatMap (reached (name :: others)) := List.flatMap_assoc
    calc
      d.reached (names ++ name :: others)
        = (d.ends names).flatMap (reached (name :: others)) := by
          rw [reached, ends_append, List.flatMap_assoc]
          rfl
      _ = (d.ends names).flatMap fun e => (leaves e).flatMap (reached (name :: others)) :=
          congrArg (fun f => (d.ends names).flatMap f) (funext hreached)
      _ = (d.reached names).flatMap (reached (name :: others)) := by
          rw [reached, List.flatMap_assoc]

theorem not_isNull_of_mem_leaves {d leaf : Document} (h : leaf ∈ d.leaves) :
    leaf.isNull = false := by
  cases d with
  | null => cases h
  | array items => simpa using (List.mem_filter.1 h).2
  | _ =>
    obtain rfl := List.mem_singleton.1 h
    rfl

theorem not_isNull_of_mem_reached {names : List String} {d leaf : Document}
    (h : leaf ∈ d.reached names) : leaf.isNull = false := by
  obtain ⟨_, _, hleaf⟩ := List.mem_flatMap.1 h
  exact not_isNull_of_mem_leaves hleaf

def isScalar : Document → Bool
  | .array _ | .object _ => false
  | _ => true

theorem lookup_cons_eq (key k : String) (value : Document) (members : List (String × Document)) :
    List.lookup k ((key, value) :: members) = if k = key then some value else members.lookup k := by
  by_cases h : k = key
  · simp [h]
  · rw [List.lookup_cons, beq_false_of_ne h, if_neg h]

theorem lookup_insertMember (key k : String) (value : Document)
    (members : List (String × Document)) :
    (insertMember key value members).lookup k =
      if k = key then some value else members.lookup k := by
  induction members with
  | nil => exact lookup_cons_eq key k value []
  | cons m members ih =>
    obtain ⟨name, d⟩ := m
    rw [insertMember]
    split
    · next hkey =>
      subst hkey
      rw [lookup_cons_eq, lookup_cons_eq]
      split <;> rfl
    · next hkey =>
      split
      · exact lookup_cons_eq key k value _
      · rw [lookup_cons_eq, lookup_cons_eq, ih]
        by_cases h : k = name
        · subst h
          rw [if_pos rfl, if_neg (Ne.symm hkey), if_pos rfl]
        · rw [if_neg h, if_neg h]

theorem ends_of_isScalar {names : List String} {d : Document} (hd : d.isScalar = true)
    (hnames : names ≠ []) : d.ends names = [] := by
  cases names with
  | nil => exact absurd rfl hnames
  | cons name names =>
    cases d with
    | array => cases hd
    | object => cases hd
    | _ => rfl

/-- A path that goes on behind the member finds nothing there, as long as the member is and was a
scalar; all other paths do not meet it. -/
theorem ends_insert {names : List String} {key : String} {value : Document}
    {members : List (String × Document)} (hne : names ≠ []) (hkey : names ≠ [key])
    (hvalue : value.isScalar = true)
    (hold : ((members.lookup key).getD .null).isScalar = true) :
    ((object members).insert key value).ends names = (object members).ends names := by
  cases names with
  | nil => exact absurd rfl hne
  | cons name names =>
    have hbranch : ∀ ms : List (String × Document), (object ms).ends (name :: names) =
        match ms.lookup name with
        | some member => member.ends names
        | none => [] := fun _ => rfl
    rw [insert, hbranch, hbranch, lookup_insertMember]
    by_cases h : name = key
    · subst h
      have hnames : names ≠ [] := fun h => hkey (by rw [h])
      rw [if_pos rfl]
      simp only [ends_of_isScalar hvalue hnames]
      cases hlookup : members.lookup name with
      | none => rfl
      | some old =>
        rw [hlookup] at hold
        exact (ends_of_isScalar hold hnames).symm
    · rw [if_neg h]

end Document

theorem Accessor.readValues_eq (a : Accessor) (item : Document) :
    a.readValues item = (item.reached a.names).mapM (Value.ofDocument a.family) := by
  rw [readValues, Document.follow_eq, Document.reached]

theorem Text.intercalate_pieces (separator : Char) (text : List Char) :
    [separator].intercalate (pieces separator text) = text := by
  induction text with
  | nil => rfl
  | cons c text ih =>
    rw [pieces]
    split
    · next hc =>
      cases hpieces : pieces separator text with
      | nil => exact absurd hpieces (pieces_ne_nil separator text)
      | cons first others =>
        rw [hpieces] at ih
        rw [List.intercalate_cons_cons, ih, hc]
        rfl
    · cases hpieces : pieces separator text with
      | nil => exact absurd hpieces (pieces_ne_nil separator text)
      | cons first others =>
        rw [hpieces] at ih
        cases others with
        | nil => simpa using ih
        | cons second others => simpa using ih

theorem Text.pieces_append_separator (separator : Char) (text rest : List Char) :
    pieces separator (text ++ separator :: rest) =
      pieces separator text ++ pieces separator rest := by
  induction text with
  | nil =>
    rw [List.nil_append, pieces.eq_2, if_pos rfl]
    rfl
  | cons c text ih =>
    rw [List.cons_append, pieces, pieces, ih]
    split
    · rfl
    · cases hpieces : pieces separator text with
      | nil => exact absurd hpieces (pieces_ne_nil separator text)
      | cons first others => rfl

namespace Schema

def names (path : String) : List String :=
  (segments path).map String.ofList

theorem names_ne_nil (path : String) : names path ≠ [] := by
  rw [names, Ne, List.map_eq_nil_iff]
  exact Text.pieces_ne_nil _ _

theorem names_append (path rest : String) :
    names (path ++ "." ++ rest) = names path ++ names rest := by
  have hchars : (path ++ "." ++ rest).toList = path.toList ++ '.' :: rest.toList := by
    simp [String.toList_append]
  rw [names, segments, hchars, Text.pieces_append_separator, List.map_append]
  rfl

theorem segments_injective {p q : String} (h : segments p = segments q) : p = q := by
  have hl := congrArg (['.'].intercalate) h
  rw [segments, segments, Text.intercalate_pieces, Text.intercalate_pieces] at hl
  exact String.toList_inj.1 hl

end Schema

end DocStore
