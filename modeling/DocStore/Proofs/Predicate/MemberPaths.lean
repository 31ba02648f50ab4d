import Mathlib.Data.List.Nodup
import DocStore.Predicate.Member
import DocStore.Proofs.Schema.Reached

/-!
# Indexed members by their own paths

The member chain that spells the path of an indexed member refers to that member, unless its last
name is `HasValue`: such a chain asks for a value before the schema is looked at. A chain that ends
in `Value` refers to the member before it only if no member of its own path is indexed.
-/

namespace DocStore

variable {schema : Schema} {a : Accessor} {e : Expr} {parameter path : String}

def Expr.chain (parameter path : String) : Expr :=
  (Schema.names path).foldl member (param parameter)

theorem Text.intercalate_merge (separator : Char) (first second : List Char)
    (others : List (List Char)) :
    [separator].intercalate ((first ++ separator :: second) :: others) =
      [separator].intercalate (first :: second :: others) := by
  cases others with
  | nil => simp
  | cons third others => simp

theorem Text.before?_toList_eq_some_iff {ending text : String} {stem : List Char} :
    before? ending.toList text.toList = some stem ↔ text = String.ofList stem ++ ending := by
  rw [before?_eq_some_iff, ← String.toList_inj, String.toList_append, String.toList_ofList]

namespace Expr

theorem memberPath?_member (h : e.memberPath? parameter = some path) (hne : path ≠ "")
    (name : String) : (member e name).memberPath? parameter = some (path ++ "." ++ name) := by
  have hpath : path.isEmpty = false := by simpa using hne
  rw [memberPath?, h, Option.map_some, hpath]
  rfl

/-- Every access adds a dot and a name. -/
theorem memberPath?_foldl {first : List Char}
    (h : e.memberPath? parameter = some (String.ofList first)) (hne : first ≠ [])
    (others : List (List Char)) :
    ((others.map String.ofList).foldl member e).memberPath? parameter =
      some (String.ofList (['.'].intercalate (first :: others))) := by
  induction others generalizing e first with
  | nil => rw [List.intercalate_singleton, List.map_nil, List.foldl_nil, h]
  | cons second others ih =>
    have hjoin : String.ofList first ++ "." ++ String.ofList second =
        String.ofList (first ++ '.' :: second) := by
      rw [← String.toList_inj]
      simp
    have hmember := memberPath?_member h (by simpa using hne) (String.ofList second)
    rw [hjoin] at hmember
    rw [List.map_cons, List.foldl_cons, ih hmember (by simp), Text.intercalate_merge]

theorem memberPath?_chain (h : Schema.isPath path = true) :
    (chain parameter path).memberPath? parameter = some path := by
  have hjoin : ['.'].intercalate (Schema.segments path) = path.toList :=
    Text.intercalate_pieces '.' path.toList
  rw [chain, Schema.names]
  cases hsegments : Schema.segments path with
  | nil => exact absurd hsegments (Text.pieces_ne_nil _ _)
  | cons first others =>
    rw [Schema.isPath, hsegments, List.all_cons, Bool.and_eq_true] at h
    have hne : first ≠ [] := by
      rintro rfl
      cases h.1
    have hfirst : (member (param parameter) (String.ofList first)).memberPath? parameter =
        some (String.ofList first) := by
      rw [memberPath?, memberPath?, if_pos rfl]
      rfl
    rw [List.map_cons, List.foldl_cons, memberPath?_foldl hfirst hne, ← hsegments, hjoin,
      String.ofList_toList]

end Expr

namespace MemberRef

theorem ofPath_hasValue (schema : Schema) (stem : String) :
    ofPath schema (stem ++ ".HasValue") = resolve schema stem true := by
  have hends : Text.before? ".HasValue".toList (stem ++ ".HasValue").toList = some stem.toList := by
    rw [Text.before?_toList_eq_some_iff, String.ofList_toList]
  rw [ofPath, hends]
  exact congrArg (resolve schema · true) String.ofList_toList

theorem before?_hasValue_eq_none_iff :
    Text.before? ".HasValue".toList path.toList = none ↔ ¬∃ stem, path = stem ++ ".HasValue" := by
  rw [Option.eq_none_iff_forall_ne_some, not_exists]
  refine ⟨fun h stem hstem => h stem.toList ?_, fun h stem hstem => h (String.ofList stem) ?_⟩
  · rw [Text.before?_toList_eq_some_iff, String.ofList_toList, hstem]
  · exact Text.before?_toList_eq_some_iff.1 hstem

/-- An indexed path is not cut before `Value`. -/
theorem ofPath_of_indexed (h : ¬∃ stem, path = stem ++ ".HasValue")
    (hindexed : schema.accessor? path = some a) :
    ofPath schema path = resolve schema path false := by
  rw [ofPath, before?_hasValue_eq_none_iff.2 h]
  dsimp only
  split
  · rw [hindexed]
    rfl
  · rfl

theorem ofPath_value (h : schema.accessor? (path ++ ".Value") = none)
    (hindexed : schema.accessor? path = some a) :
    ofPath schema (path ++ ".Value") = resolve schema path false := by
  have hends : Text.before? ".Value".toList (path ++ ".Value").toList = some path.toList := by
    rw [Text.before?_toList_eq_some_iff, String.ofList_toList]
  have hother : ¬∃ stem, path ++ ".Value" = stem ++ ".HasValue" := by
    rintro ⟨stem, hstem⟩
    have hchars := congrArg String.toList hstem
    rw [String.toList_append, String.toList_append] at hchars
    have hlast : stem.toList ++ ".HasValue".toList =
        (stem.toList ++ ".Ha".toList) ++ "sValue".toList := by
      rw [List.append_assoc]
      rfl
    rw [hlast] at hchars
    exact absurd (List.append_inj_right' hchars rfl) (by decide)
  rw [ofPath, before?_hasValue_eq_none_iff.2 hother, hends]
  dsimp only
  rw [String.ofList_toList, h, hindexed]
  rfl

def ofAccessor (a : Accessor) : MemberRef where
  path := a.path
  parent := parent? a.path
  family := some a.storageFamily
  isId := false
  hasValue := false

theorem accessor?_of_mem (h : schema.Accepted) (ha : a ∈ schema.accessors) :
    schema.accessor? a.path = some a := by
  rw [Schema.accessor?]
  cases hfind : schema.accessors.find? fun b => b.path = a.path with
  | none => exact absurd (decide_eq_true rfl) (List.find?_eq_none.1 hfind a ha)
  | some b =>
    have hb : b.path = a.path := by simpa using List.find?_some hfind
    have hmem := List.mem_of_find?_eq_some hfind
    exact congrArg some (List.inj_on_of_nodup_map h.nodup_paths hmem ha hb)

theorem resolve_of_mem (h : schema.Accepted) (ha : a ∈ schema.accessors) :
    resolve schema a.path false = ofAccessor a := by
  have hid : schema.isId a.path = false := decide_eq_false (h.path_ne_id ha).symm
  rw [resolve, hid, accessor?_of_mem h ha]
  rfl

theorem ofExpr_of_memberPath? (h : e.memberPath? parameter = some path) (hne : path ≠ "") :
    ofExpr schema parameter e = .ok (ofPath schema path) := by
  have hempty : ¬path.isEmpty = true := by simpa using hne
  rw [ofExpr, h]
  exact if_neg hempty

/-- The chain of an indexed member refers to it if and only if the path does not end in `HasValue`,
and asks otherwise whether the member before has a value. A further `Value` that is not indexed
itself leads to every indexed member. -/
theorem ofExpr_chain (h : schema.Accepted) (ha : a ∈ schema.accessors) (parameter : String) :
    (ofExpr schema parameter (Expr.chain parameter a.path) = .ok (ofAccessor a) ↔
      ¬∃ stem, a.path = stem ++ ".HasValue") ∧
    (∀ stem, a.path = stem ++ ".HasValue" →
      ofExpr schema parameter (Expr.chain parameter a.path) = .ok (resolve schema stem true)) ∧
    (schema.accessor? (a.path ++ ".Value") = none →
      ofExpr schema parameter (.member (Expr.chain parameter a.path) "Value") =
        .ok (ofAccessor a)) := by
  have hne := Schema.ne_empty_of_isPath (h.isPath_of_mem ha)
  have hpath : (Expr.chain parameter a.path).memberPath? parameter = some a.path :=
    Expr.memberPath?_chain (h.isPath_of_mem ha)
  have hchain : ofExpr schema parameter (Expr.chain parameter a.path) =
      .ok (ofPath schema a.path) := ofExpr_of_memberPath? hpath hne
  have hindexed := accessor?_of_mem h ha
  refine ⟨⟨?_, fun hends => ?_⟩, fun stem hstem => ?_, fun hvalue => ?_⟩
  · rintro hplain ⟨stem, hstem⟩
    rw [hchain, hstem, ofPath_hasValue] at hplain
    injection hplain with hplain
    have hflag : true = false := congrArg MemberRef.hasValue hplain
    cases hflag
  · rw [hchain, ofPath_of_indexed hends hindexed, resolve_of_mem h ha]
  · rw [hchain, hstem, ofPath_hasValue]
  · have hlonger := Expr.memberPath?_member hpath hne "Value"
    rw [String.append_assoc] at hlonger
    rw [ofExpr_of_memberPath? hlonger (by simp)]
    exact congrArg Except.ok ((ofPath_value hvalue hindexed).trans (resolve_of_mem h ha))

/-- A schema whose members are named like the two endings. -/
def stock : Schema where
  name := "Item"
  id := ⟨"Id", .identity⟩
  accessors := [⟨"Stock.Value", .integer, none, false, false⟩,
    ⟨"Stock.HasValue", .boolean, none, false, false⟩]

/-- A member named `Value` is referred to by its own chain and by one that ends in `Value` twice, a
member named `HasValue` by the longer chain only. -/
theorem ofExpr_chain_of_stock :
    let value : Accessor := ⟨"Stock.Value", .integer, none, false, false⟩
    let hasValue : Accessor := ⟨"Stock.HasValue", .boolean, none, false, false⟩
    stock.Accepted ∧ value ∈ stock.accessors ∧ hasValue ∈ stock.accessors ∧
    ofExpr stock "i" (Expr.chain "i" "Stock.Value") = .ok (ofAccessor value) ∧
    ofExpr stock "i" (.member (Expr.chain "i" "Stock.Value") "Value") = .ok (ofAccessor value) ∧
    ofExpr stock "i" (Expr.chain "i" "Stock.HasValue") = .ok (resolve stock "Stock" true) ∧
    ofExpr stock "i" (.member (Expr.chain "i" "Stock.HasValue") "Value") =
      .ok (ofAccessor hasValue) := by
  intro value hasValue
  have haccepted : stock.Accepted := by decide
  have hvalue : value ∈ stock.accessors := by decide
  have hhasValue : hasValue ∈ stock.accessors := by decide
  have hends : ¬∃ stem, value.path = stem ++ ".HasValue" :=
    before?_hasValue_eq_none_iff.1 (by decide)
  have hplain := ofExpr_chain haccepted hvalue "i"
  have hcut := ofExpr_chain haccepted hhasValue "i"
  exact ⟨haccepted, hvalue, hhasValue, hplain.1.2 hends, hplain.2.2 (by decide),
    hcut.2.1 "Stock" (by decide), hcut.2.2 (by decide)⟩

/-- The chain of a member named `HasValue` asks about the member before instead. -/
theorem ofExpr_chain_ne_of_hasValue :
    let a : Accessor := ⟨"Stock.HasValue", .boolean, none, false, false⟩
    stock.Accepted ∧ a ∈ stock.accessors ∧
    ofExpr stock "i" (Expr.chain "i" "Stock.HasValue") = .ok ⟨"Stock", none, none, false, true⟩ ∧
    ofAccessor a = ⟨"Stock.HasValue", some "Stock", some .boolean, false, false⟩ :=
  ⟨by decide, by decide, rfl, rfl⟩

end MemberRef

end DocStore
