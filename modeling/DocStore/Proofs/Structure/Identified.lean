import DocStore.Proofs.GuidText
import DocStore.Proofs.Structure.Acceptance
import DocStore.Structure.Batch
import Mathlib.Algebra.Group.Int.Defs

/-!
# Identities of built items

An item keeps the identity that its document holds. An item without one is given an identity, once,
and is stored with a document that holds it.
-/

namespace DocStore

/-- The way in which a guid was generated, the 13th of its digits. -/
def Guid.version (g : Guid) : Nat :=
  (g.bits.extractLsb' 76 4).toNat

theorem Guid.isNil_of_version {g : Guid} (h : g.version = 7) : g.isNil = false := by
  by_contra hnil
  rw [Bool.not_eq_false, isNil, beq_iff_eq] at hnil
  rw [version, hnil] at h
  revert h
  decide

/-- A positive number or a guid that is not nil. -/
def StructureId.IsAssigned : StructureId → Prop
  | identity i => 1 ≤ i.toInt
  | guid g => g.isNil = false

namespace Document

/-- Setting a member leaves all others. -/
theorem filter_insertMember (key : String) (value : Document)
    (members : List (String × Document)) :
    (insertMember key value members).filter (fun m => m.1 ≠ key) =
      members.filter fun m => m.1 ≠ key := by
  induction members with
  | nil => simp [insertMember]
  | cons m members ih =>
    obtain ⟨name, d⟩ := m
    rw [insertMember]
    split
    · next hkey => simp [hkey]
    · split
      · simp
      · rw [List.filter_cons, List.filter_cons, ih]

end Document

namespace Structure

variable {schema : Schema} {serialize : BodySerializer} {checkedOut : Option StructureId}
  {fresh : Guid} {members : List (String × Document)} {id : StructureId}

/-- A document holds an identity that is written into it, and no other values stand for it. -/
theorem readId_idDocument (hk : id.kind = schema.id.kind)
    (hget : members.lookup schema.id.path = some (idDocument id)) :
    schema.readId (.object members) = .ok (some id) ↔ id.IsAssigned := by
  have hheld : (Document.object members).get? schema.id.path = some (idDocument id) := hget
  unfold Schema.readId
  rw [hheld, ← hk]
  cases id with
  | identity i =>
    have hmax := i.toInt_le
    by_cases hpositive : 1 ≤ i.toInt
    · simp [StructureId.kind, idDocument, StructureId.IsAssigned, hpositive, hmax]
    · simp [StructureId.kind, idDocument, StructureId.IsAssigned, hpositive]
  | guid g =>
    cases hnil : g.isNil <;>
      simp [StructureId.kind, idDocument, StructureId.IsAssigned, Guid.ofText?_text, hnil]

/-- The item is given the identity once, and its structure is made under it from a document that
holds it and is the item's document apart from that. -/
structure Assigns (schema : Schema) (serialize : BodySerializer)
    (members : List (String × Document)) (id : StructureId) (outcome : Outcome) : Prop where
  assigned : outcome.assigned = some id
  stored : ∃ stored : List (String × Document),
    outcome.result = ofIdentified schema serialize id (.object stored) ∧
      (stored.filter fun m => m.1 ≠ schema.id.path) =
        (members.filter fun m => m.1 ≠ schema.id.path) ∧
      (schema.readId (.object stored) = .ok (some id) ↔ id.IsAssigned)

/-- How an item gets the identity of its structure. -/
structure Identifies (schema : Schema) (serialize : BodySerializer)
    (checkedOut : Option StructureId) (fresh : Guid) (members : List (String × Document))
    (outcome : Outcome) : Prop where
  malformed : ∀ e, schema.readId (.object members) = .error e → outcome = ⟨.error e, none⟩
  held : ∀ id, schema.readId (.object members) = .ok (some id) →
    outcome = ⟨ofIdentified schema serialize id (.object members), none⟩
  missing : schema.readId (.object members) = .ok none → schema.id.kind = .identity →
    (∀ i, checkedOut ≠ some (.identity i)) →
      outcome = ⟨.error (Error.missingIdentity schema.name), none⟩
  checkedOut : schema.readId (.object members) = .ok none → schema.id.kind = .identity →
    ∀ i, checkedOut = some (.identity i) →
      Assigns schema serialize members (.identity i) outcome
  generated : schema.readId (.object members) = .ok none → schema.id.kind = .guid →
    fresh.isNil = false ∧ Assigns schema serialize members (.guid fresh) outcome

theorem build_of_newId (hread : schema.readId (.object members) = .ok none)
    (hnew : newId schema checkedOut fresh = .ok id) :
    build schema serialize (.ok (.object members)) checkedOut fresh =
      ⟨ofIdentified schema serialize id
        (.object (Document.insertMember schema.id.path (idDocument id) members)), some id⟩ := by
  simp only [build, hread, hnew, Document.insert]

theorem assigns_build (hread : schema.readId (.object members) = .ok none)
    (hnew : newId schema checkedOut fresh = .ok id) (hk : id.kind = schema.id.kind) :
    Assigns schema serialize members id
      (build schema serialize (.ok (.object members)) checkedOut fresh) := by
  rw [build_of_newId hread hnew]
  refine ⟨rfl, _, rfl, Document.filter_insertMember _ _ members, ?_⟩
  apply readId_idDocument hk
  rw [Document.lookup_insertMember, if_pos rfl]

theorem identifies_build (hfresh : fresh.isNil = false) :
    Identifies schema serialize checkedOut fresh members
      (build schema serialize (.ok (.object members)) checkedOut fresh) := by
  constructor
  case malformed =>
    intro e hread
    simp only [build, hread]
  case held =>
    intro id hread
    simp only [build, hread]
  case missing =>
    intro hread hk hnone
    have hnew : newId schema checkedOut fresh = .error (Error.missingIdentity schema.name) := by
      unfold newId
      rw [hk]
      split
      · next hguid => cases hguid
      · next i _ => exact absurd rfl (hnone i)
      · rfl
    simp only [build, hread, hnew]
  case checkedOut =>
    rintro hread hk i rfl
    have hnew : newId schema (some (.identity i)) fresh = .ok (.identity i) := by
      unfold newId
      rw [hk]
    exact assigns_build hread hnew hk.symm
  case generated =>
    intro hread hk
    have hnew : newId schema checkedOut fresh = .ok (.guid fresh) := by
      unfold newId
      rw [hk]
    exact ⟨hfresh, assigns_build hread hnew hk.symm⟩

/-- The structure is that of the item, under the item's own identity or else the one for its place
in the batch. -/
structure Places (schema : Schema) (serialize : BodySerializer) (start : Int) (fresh : Guid)
    (k : Nat) (item : Item) (b : Built) : Prop where
  built : ∃ i : Int64, i.toInt = start + k ∧
    build schema serialize item (some (.identity i)) fresh = ⟨.ok b.stored, b.assigned⟩
  own_or_next : ∃ d, item = .ok d ∧
    (schema.readId d = .ok (some b.stored.id) ∧ b.assigned = none ∨
      schema.readId d = .ok none ∧ b.assigned = some b.stored.id ∧
        (schema.id.kind = .identity → ∃ i : Int64, i.toInt = start + k ∧
          b.stored.id = .identity i) ∧
        (schema.id.kind = .guid → b.stored.id = .guid fresh))

theorem buildFrom_eq_ok {range : Option IdentityRange} {guids : Nat → Guid} {items : List Item}
    {offset : Nat} {built : List Built}
    (h : buildFrom schema serialize range guids offset items = .ok built) :
    built.length = items.length ∧ ∀ k item b, items[k]? = some item → built[k]? = some b →
      buildAt schema serialize range guids (offset + k) item = ⟨.ok b.stored, b.assigned⟩ := by
  induction items generalizing offset built with
  | nil =>
    cases h
    exact ⟨rfl, fun k item b hitem _ => by simp at hitem⟩
  | cons first items ih =>
    unfold buildFrom at h
    obtain ⟨b, hb, h⟩ := bind_eq_ok.1 h
    obtain ⟨others, hothers, h⟩ := bind_eq_ok.1 h
    obtain rfl := Except.ok.inj h
    obtain ⟨hlength, hrest⟩ := ih hothers
    have hfirst : buildAt schema serialize range guids offset first =
        ⟨.ok b.stored, b.assigned⟩ := by
      unfold Outcome.built at hb
      rcases ho : buildAt schema serialize range guids offset first with ⟨result, assigned⟩
      rw [ho] at hb
      cases result with
      | error e => cases hb
      | ok s =>
        cases hb
        rfl
    refine ⟨by simp [hlength], fun k item c hitem hc => ?_⟩
    cases k with
    | zero =>
      simp only [List.getElem?_cons_zero, Option.some.injEq] at hitem hc
      subst hitem hc
      exact hfirst
    | succ k =>
      rw [List.getElem?_cons_succ] at hitem hc
      have hk : offset + (k + 1) = offset + 1 + k := by omega
      rw [hk]
      exact hrest k item c hitem hc

/-- An item that was built has the identity of its document, or the new one. -/
theorem own_or_new {item : Item} {b : Built}
    (h : build schema serialize item checkedOut fresh = ⟨.ok b.stored, b.assigned⟩) :
    ∃ d, item = .ok d ∧ (schema.readId d = .ok (some b.stored.id) ∧ b.assigned = none ∨
      schema.readId d = .ok none ∧ b.assigned = some b.stored.id ∧
        newId schema checkedOut fresh = .ok b.stored.id) := by
  cases item with
  | error e => cases h
  | ok d =>
    refine ⟨d, rfl, ?_⟩
    unfold build at h
    dsimp only at h
    split at h
    · cases h
    · next id hread =>
      obtain ⟨hresult, hassigned⟩ := Outcome.mk.inj h
      obtain ⟨rfl, -⟩ := ofIdentified_eq_ok hresult
      exact .inl ⟨hread, hassigned.symm⟩
    · next hread =>
      split at h
      · cases h
      · next id hnew =>
        obtain ⟨hresult, hassigned⟩ := Outcome.mk.inj h
        obtain ⟨rfl, -⟩ := ofIdentified_eq_ok hresult
        exact .inr ⟨hread, hassigned.symm, hnew⟩

theorem places_of_buildAt {range : IdentityRange} {item : Item} {b : Built} {guids : Nat → Guid}
    {k : Nat} (hk : range.start.toInt + k < 2 ^ 63)
    (h : buildAt schema serialize (some range) guids k item = ⟨.ok b.stored, b.assigned⟩) :
    Places schema serialize range.start.toInt (guids k) k item b := by
  have hstart := range.start.le_toInt
  have hi : (Int64.ofInt (range.start.toInt + k)).toInt = range.start.toInt + k :=
    Int64.toInt_ofInt_of_le (by omega) hk
  have hat : range.at? k = .ok (.identity (Int64.ofInt (range.start.toInt + k))) := by
    unfold buildAt at h
    dsimp only at h
    unfold IdentityRange.at? StructureId.ofInt at h ⊢
    split at h
    · cases h
    · next id hid =>
      split at hid
      · cases hid
      · split at hid
        · cases hid
        · next hcount hpositive => rw [if_neg hcount, if_neg hpositive]
  have hbuilt : build schema serialize item
      (some (.identity (Int64.ofInt (range.start.toInt + k)))) (guids k) =
        ⟨.ok b.stored, b.assigned⟩ := by
    unfold buildAt at h
    simpa only [hat] using h
  refine ⟨⟨_, hi, hbuilt⟩, ?_⟩
  obtain ⟨d, rfl, hown | ⟨hread, hassigned, hnew⟩⟩ := own_or_new hbuilt
  · exact ⟨d, rfl, .inl hown⟩
  · refine ⟨d, rfl, .inr ⟨hread, hassigned, ?_, ?_⟩⟩
    · intro hkind
      unfold newId at hnew
      rw [hkind] at hnew
      exact ⟨_, hi, (Except.ok.inj hnew).symm⟩
    · intro hkind
      unfold newId at hnew
      rw [hkind] at hnew
      exact (Except.ok.inj hnew).symm

/-- The identities that were handed out are those of different places. -/
theorem nodup_assigned {start : Int} {guids : Nat → Guid} {items : List Item} {built : List Built}
    (hguids : schema.id.kind = .guid → Function.Injective guids)
    (hlength : built.length = items.length)
    (h : ∀ k item b, items[k]? = some item → built[k]? = some b →
      Places schema serialize start (guids k) k item b) :
    (built.filterMap Built.assigned).Nodup := by
  have hassigned : ∀ k (hk : k < built.length) id, built[k].assigned = some id →
      (schema.id.kind = .identity → ∃ i : Int64, i.toInt = start + k ∧ id = .identity i) ∧
        (schema.id.kind = .guid → id = .guid (guids k)) := by
    intro k hk id hid
    have hitem : items[k]? = some items[k] := List.getElem?_eq_getElem (hlength ▸ hk)
    obtain ⟨-, d, -, ⟨-, hnone⟩ | ⟨-, hsome, hidentity, hguid⟩⟩ :=
      h k _ _ hitem (List.getElem?_eq_getElem hk)
    · rw [hid] at hnone
      cases hnone
    · rw [hid] at hsome
      obtain rfl := Option.some.inj hsome
      exact ⟨hidentity, hguid⟩
  rw [List.Nodup, List.pairwise_filterMap, List.pairwise_iff_getElem]
  rintro j k hj hk hlt id hid other hother rfl
  obtain ⟨hidj, hguidj⟩ := hassigned j hj id hid
  obtain ⟨hidk, hguidk⟩ := hassigned k hk id hother
  cases hkind : schema.id.kind with
  | identity =>
    obtain ⟨i, hi, rfl⟩ := hidj hkind
    obtain ⟨i', hi', heq⟩ := hidk hkind
    obtain rfl := StructureId.identity.inj heq
    omega
  | guid =>
    have heq := StructureId.guid.inj ((hguidj hkind).symm.trans (hguidk hkind))
    have hjk := hguids hkind heq
    omega

/-- An item is stored under the identity that its document holds and is left alone, or it is given
the new one, and only where there is none it is refused; what is stored holds the identity. In a
batch every item that has no identity gets the one of its place, so that no two get the same. -/
theorem build_identifies_items (schema : Schema) (serialize : BodySerializer) (guids : Nat → Guid)
    (hguids : ∀ n, (guids n).version = 7) :
    (∀ members checkedOut n, Identifies schema serialize checkedOut (guids n) members
      (build schema serialize (.ok (.object members)) checkedOut (guids n))) ∧
    ∀ (items : List Item) (range : IdentityRange) (built : List Built),
      range.start.toInt + items.length ≤ 2 ^ 63 →
      buildMany schema serialize items (some range) guids = .ok built →
        built.length = items.length ∧
        (∀ k item b, items[k]? = some item → built[k]? = some b →
          Places schema serialize range.start.toInt (guids k) k item b) ∧
        ((schema.id.kind = .guid → Function.Injective guids) →
          (built.filterMap Built.assigned).Nodup) := by
  constructor
  · intro members checkedOut n
    exact identifies_build (Guid.isNil_of_version (hguids n))
  · intro items range built hrange hbuilt
    obtain ⟨hlength, hall⟩ := buildFrom_eq_ok hbuilt
    have hplaces : ∀ k item b, items[k]? = some item → built[k]? = some b →
        Places schema serialize range.start.toInt (guids k) k item b := by
      intro k item b hitem hb
      obtain ⟨hk, -⟩ := List.getElem?_eq_some_iff.1 hitem
      have hat := hall k item b hitem hb
      rw [Nat.zero_add] at hat
      exact places_of_buildAt (by omega) hat
    exact ⟨hlength, hplaces, fun hinjective => nodup_assigned hinjective hlength hplaces⟩

/-- A number that is not positive can be checked out as it is; the order is stored under it with a
document that is read as having no identity. -/
theorem build_stores_zero :
    let schema : Schema := ⟨"Order", ⟨"Id", .identity⟩, [⟨"No", .integer, none, false, false⟩]⟩
    let members : List (String × Document) := [("No", .integer 7)]
    let stored : List (String × Document) := [("Id", .integer 0), ("No", .integer 7)]
    schema.Accepted ∧ schema.readId (.object members) = .ok none ∧
      build schema .documentText (.ok (.object members)) (some (.identity 0)) ⟨0⟩ =
        ⟨ofIdentified schema .documentText (.identity 0) (.object stored), some (.identity 0)⟩ ∧
      schema.readId (.object stored) = .ok none := by
  intro schema members stored
  have hread : schema.readId (.object members) = .ok none := rfl
  have hnew : newId schema (some (.identity 0)) ⟨0⟩ = .ok (.identity 0) := rfl
  have hstored : Document.insertMember schema.id.path (idDocument (.identity 0)) members =
      stored :=
    (if_neg (by decide)).trans (if_pos (by decide +kernel))
  refine ⟨by decide +kernel, hread, ?_, rfl⟩
  rw [build_of_newId hread hnew, hstored]

/-- The first order has an identity, the second is given the one of its place. -/
theorem build_identifies_orders :
    let schema : Schema := ⟨"Order", ⟨"Id", .identity⟩, [⟨"No", .integer, none, false, false⟩]⟩
    let guids : Nat → Guid := fun n => ⟨0x0191e3c17fd17b5a9c4e#80 ++ BitVec.ofNat 48 n⟩
    let items : List Item := [
      .ok (.object [("Id", .integer 3), ("No", .integer 7)]),
      .ok (.object [("Id", .integer 0), ("No", .integer 8)])]
    let entry : Int64 → Int64 → IndexEntry := fun id no =>
      ⟨.identity id, "No", .integer no, .integer, none⟩
    let built : List Built := [⟨⟨.identity 3, "Order", "...", [entry 3 7]⟩, none⟩,
      ⟨⟨.identity 11, "Order", "...", [entry 11 8]⟩, some (.identity 11)⟩]
    (∀ n, (guids n).version = 7) ∧ (10 : Int64).toInt + items.length ≤ 2 ^ 63 ∧
      buildMany schema (fun _ => .ok "...") items (some ⟨10, 2⟩) guids = .ok built ∧
      Identifies schema (fun _ => .ok "...") none (guids 0) [("No", .integer 7)]
        ⟨.error (Error.missingIdentity "Order"), none⟩ ∧
      (built.filterMap Built.assigned).Nodup := by
  intro schema guids items entry built
  have hguids : ∀ n, (guids n).version = 7 := by
    intro n
    have hpart : (0x0191e3c17fd17b5a9c4e#80 ++ BitVec.ofNat 48 n).extractLsb' 76 4 = 7#4 := by
      rw [BitVec.extractLsb'_append_eq_of_le (by decide)]
      decide
    exact congrArg BitVec.toNat hpart
  have hbuilt : buildMany schema (fun _ => .ok "...") items (some ⟨10, 2⟩) guids = .ok built := rfl
  have hrange : (10 : Int64).toInt + items.length ≤ 2 ^ 63 := by decide
  obtain ⟨hone, hmany⟩ := build_identifies_items schema (fun _ => .ok "...") guids hguids
  obtain ⟨-, -, hnodup⟩ := hmany items ⟨10, 2⟩ built hrange hbuilt
  exact ⟨hguids, hrange, hbuilt, hone [("No", .integer 7)] none 0, hnodup nofun⟩

end Structure

end DocStore
