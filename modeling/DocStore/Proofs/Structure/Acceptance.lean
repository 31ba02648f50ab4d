import DocStore.Proofs.Schema.Reached
import DocStore.Proofs.Structure.Built
import Mathlib.Data.List.Nodup

/-!
# Which items can be built

A member of a document can be indexed when every value that its path reaches is one of its family,
when a unique member reaches exactly one value, and when it does not reach several that its table
cannot hold. An item is built exactly when all members of its schema can be indexed, and then has
one entry for each of them.
-/

namespace DocStore

namespace Value

def isOf : IndexTable → Value → Bool
  | .integers, integer _ | .fractals, fractal _ | .booleans, boolean _ | .dates, dateTime _
  | .guids, guid _ | .strings, string _ | .texts, string _ => true
  | _, _ => false

theorem ne_null_of_isOf {t : IndexTable} {v : Value} (h : v.isOf t = true) : v ≠ .null := by
  rintro rfl
  cases t <;> cases h

theorem exists_text_of_isOf {t : IndexTable} {v : Value} (h : v.isOf t = true) :
    ∃ s, v.text? = some s := by
  cases v with
  | null => exact absurd rfl (ne_null_of_isOf h)
  | _ => exact ⟨_, rfl⟩

theorem isOf_string {family : Family} (h : family.isTextual = true) (s : String) :
    (string s).isOf family.indexTable = true := by
  cases family <;> first | rfl | cases h

/-- What is read from anything but null is a value of the family's table. -/
theorem isOf_of_ofDocument {family : Family} {d : Document} {v : Value} (hd : d.isNull = false)
    (h : ofDocument family d = .ok v) : v.isOf family.indexTable = true := by
  rw [ofDocument_eq_ok, ofDocument?.eq_def] at h
  split at h
  · cases hd
  all_goals first
    | contradiction
    | (obtain ⟨_, _, rfl⟩ := Option.map_eq_some_iff.1 h; rfl)
    | (cases h; rfl)

end Value

namespace Composite

/-- Values that are not null make a composite, and no values make none. -/
theorem ofValues_cases {t : IndexTable} {values : List Value}
    (h : ∀ v ∈ values, v.isOf t = true) :
    values = [] ∧ ofValues values = .null ∨ values ≠ [] ∧ ∃ s, ofValues values = .string s := by
  cases values with
  | nil => exact .inl ⟨rfl, rfl⟩
  | cons v values =>
    obtain ⟨s, hs⟩ := Value.exists_text_of_isOf (h v List.mem_cons_self)
    have htexts : Value.texts (v :: values) = s :: Value.texts values := by
      rw [Value.texts, hs]
    refine .inr ⟨List.cons_ne_nil _ _, ofTexts (distinct [] (Value.texts (v :: values))), ?_⟩
    rw [ofValues, htexts, distinct, if_neg List.not_mem_nil]

end Composite

namespace Accessor

variable {a : Accessor} {item : Document} {values : List Value} {v : Value}

/-- The member of the document can be indexed. -/
structure Fits (a : Accessor) (item : Document) : Prop where
  readable : ∀ d ∈ item.reached a.names, ∃ v, Value.ofDocument a.family d = .ok v
  unique : a.isUnique = true → (item.reached a.names).length = 1
  single : a.isCollection = false → a.family.isTextual = false →
    (item.reached a.names).length ≤ 1

theorem Fits.congr {stored : Document} (h : a.Fits item)
    (hreached : stored.reached a.names = item.reached a.names) : a.Fits stored :=
  ⟨hreached ▸ h.readable, hreached ▸ h.unique, hreached ▸ h.single⟩

theorem exists_readValues :
    (∃ values, a.readValues item = .ok values) ↔
      ∀ d ∈ item.reached a.names, ∃ v, Value.ofDocument a.family d = .ok v := by
  rw [readValues_eq, exists_mapM_eq_ok]

theorem length_of_readValues (h : a.readValues item = .ok values) :
    values.length = (item.reached a.names).length := by
  rw [readValues_eq] at h
  exact (forall₂_of_mapM h).length_eq.symm

theorem isOf_of_readValues (h : a.readValues item = .ok values) :
    ∀ v ∈ values, v.isOf a.family.indexTable = true := by
  rw [readValues_eq] at h
  intro v hv
  obtain ⟨d, hd, hread⟩ := exists_of_forall₂ (forall₂_of_mapM h) hv
  exact Value.isOf_of_ofDocument (Document.not_isNull_of_mem_reached hd) hread

/-- Composites are stored in families of strings. -/
theorem isTextual_storageFamily (h : a.isCollection = true ∨ a.family.isTextual = true) :
    a.storageFamily.isTextual = true := by
  rw [storageFamily]
  split
  · rfl
  · next hc =>
    rcases h with h | h
    · have htext : a.family = .text := by simpa [h] using hc
      rw [htext]
      rfl
    · exact h

theorem storageFamily_of_not_isCollection (h : a.isCollection = false) :
    a.storageFamily = a.family := by
  rw [storageFamily, h]
  rfl

/-- Only several values of a family that makes no composites cannot be stored. -/
theorem exists_indexValue : (∃ v, a.indexValue values = .ok v) ↔
    (a.isCollection = false → a.family.isTextual = false → values.length ≤ 1) := by
  cases hc : a.isCollection with
  | true => simp [indexValue, hc]
  | false =>
    rcases values with _ | ⟨v, _ | ⟨w, values⟩⟩
    · simp [indexValue, hc]
    · simp [indexValue, hc]
    · cases ht : a.family.isTextual <;> simp [indexValue, hc, ht]

/-- What is stored is null for no values, and else a value of the member's table. -/
theorem indexValue_cases (hvalues : ∀ v ∈ values, v.isOf a.family.indexTable = true)
    (h : a.indexValue values = .ok v) :
    values = [] ∧ v = .null ∨ values ≠ [] ∧ v.isOf a.storageFamily.indexTable = true := by
  have hcomposite : (a.isCollection = true ∨ a.family.isTextual = true) →
      v = Composite.ofValues values →
      values = [] ∧ v = .null ∨ values ≠ [] ∧ v.isOf a.storageFamily.indexTable = true := by
    rintro hc rfl
    obtain hnone | ⟨hsome, s, hs⟩ := Composite.ofValues_cases hvalues
    · exact .inl hnone
    · rw [hs]
      exact .inr ⟨hsome, Value.isOf_string (isTextual_storageFamily hc) s⟩
  unfold indexValue at h
  split at h
  · next hc => exact hcomposite (.inl hc) (Except.ok.inj h).symm
  · next hc =>
    split at h
    · exact .inl ⟨rfl, (Except.ok.inj h).symm⟩
    · next w =>
      obtain rfl := Except.ok.inj h
      rw [storageFamily_of_not_isCollection (Bool.eq_false_iff.2 hc)]
      exact .inr ⟨List.cons_ne_nil _ _, hvalues w List.mem_cons_self⟩
    · split at h
      · next ht => exact hcomposite (.inr ht) (Except.ok.inj h).symm
      · cases h

end Accessor

namespace Structure

variable {schema : Schema} {a : Accessor} {item : Document} {id : StructureId}
  {entry : IndexEntry} {indexes : List IndexEntry}

structure Stores (id : StructureId) (item : Document) (a : Accessor) (entry : IndexEntry) :
    Prop where
  id : entry.id = id
  path : entry.path = a.path
  family : entry.family = a.storageFamily
  unique : entry.unique = a.unique
  null_iff : entry.value = .null ↔ item.reached a.names = []
  kind : entry.value ≠ .null → entry.value.isOf entry.table = true

theorem exists_checkUnique {values : List Value} :
    (∃ u, checkUnique schema id a values = .ok u) ↔ (a.isUnique = true → values.length = 1) := by
  cases hu : a.unique with
  | none => simp [checkUnique, Accessor.isUnique, hu]
  | some mode =>
    match values with
    | [] => simp [checkUnique, Accessor.isUnique, hu]
    | [v] => simp [checkUnique, Accessor.isUnique, hu]
    | _ :: _ :: _ => simp [checkUnique, Accessor.isUnique, hu]

theorem exists_buildIndex :
    (∃ entry, buildIndex schema id item a = .ok entry) ↔ a.Fits item := by
  constructor
  · rintro ⟨entry, h⟩
    obtain ⟨values, hvalues, h⟩ := bind_eq_ok.1 h
    obtain ⟨u, hu, h⟩ := bind_eq_ok.1 h
    obtain ⟨v, hv, _⟩ := bind_eq_ok.1 h
    have hlength := Accessor.length_of_readValues hvalues
    refine ⟨Accessor.exists_readValues.1 ⟨values, hvalues⟩, ?_, ?_⟩
    · exact hlength ▸ exists_checkUnique.1 ⟨u, hu⟩
    · exact hlength ▸ Accessor.exists_indexValue.1 ⟨v, hv⟩
  · rintro ⟨hread, hunique, hsingle⟩
    obtain ⟨values, hvalues⟩ := Accessor.exists_readValues.2 hread
    have hlength := Accessor.length_of_readValues hvalues
    rw [← hlength] at hunique hsingle
    obtain ⟨u, hu⟩ : ∃ u, checkUnique schema id a values = .ok u := exists_checkUnique.2 hunique
    obtain ⟨v, hv⟩ := Accessor.exists_indexValue.2 hsingle
    exact ⟨_, bind_eq_ok.2 ⟨values, hvalues, bind_eq_ok.2 ⟨u, hu, bind_eq_ok.2 ⟨v, hv, rfl⟩⟩⟩⟩

theorem stores_of_buildIndex (h : buildIndex schema id item a = .ok entry) :
    Stores id item a entry := by
  obtain ⟨values, hvalues, h⟩ := bind_eq_ok.1 h
  obtain ⟨_, _, h⟩ := bind_eq_ok.1 h
  obtain ⟨v, hv, h⟩ := bind_eq_ok.1 h
  obtain rfl := Except.ok.inj h
  have hempty : values = [] ↔ item.reached a.names = [] := by
    rw [← List.length_eq_zero_iff, Accessor.length_of_readValues hvalues,
      List.length_eq_zero_iff]
  obtain ⟨hnone, rfl⟩ | ⟨hsome, hkind⟩ :=
    Accessor.indexValue_cases (Accessor.isOf_of_readValues hvalues) hv
  · exact ⟨rfl, rfl, rfl, rfl, iff_of_true rfl (hempty.1 hnone), fun hne => absurd rfl hne⟩
  · exact ⟨rfl, rfl, rfl, rfl, iff_of_false (Value.ne_null_of_isOf hkind)
      (fun hnone => hsome (hempty.2 hnone)), fun _ => hkind⟩

theorem stores_of_mapM (h : schema.accessors.mapM (buildIndex schema id item) = .ok indexes) :
    List.Forall₂ (Stores id item) schema.accessors indexes :=
  (forall₂_of_mapM h).imp fun _ _ => stores_of_buildIndex

/-- Distinct paths have one entry each, so the entries make a structure. -/
theorem ofParts_eq_ok (h : schema.Accepted)
    (hindexes : schema.accessors.mapM (buildIndex schema id item) = .ok indexes)
    (name body : String) : ofParts id name body indexes = .ok ⟨id, name, body, indexes⟩ := by
  have hpaths : indexes.map IndexEntry.path = schema.accessors.map Accessor.path :=
    map_path ((forall₂_of_mapM hindexes).imp fun _ _ => buildIndex_indexes)
  have hnodup : (indexes.map IndexEntry.path).Nodup := hpaths ▸ h.nodup_paths
  have honce : ∀ path, occurrences indexes path ≤ 1 := by
    intro path
    calc
      occurrences indexes path = (indexes.map IndexEntry.path).count path := by
        rw [occurrences, List.count, List.countP_map, List.countP_eq_length_filter]
        rfl
      _ ≤ 1 := List.nodup_iff_count_le_one.1 hnodup path
  have hfind : (indexes.filter IndexEntry.isUnique).find?
      (fun entry => decide (1 < occurrences indexes entry.path)) = none := by
    rw [List.find?_eq_none]
    intro entry _
    simpa using honce entry.path
  rw [ofParts]
  simp only [uniques, hfind]

theorem ofIdentified_eq (h : schema.Accepted) (id : StructureId) (item : Document) :
    ofIdentified schema .documentText id item =
      (schema.accessors.mapM (buildIndex schema id item)).map
        (⟨id, schema.name, item.text, ·⟩) := by
  rw [ofIdentified]
  cases hindexes : schema.accessors.mapM (buildIndex schema id item) with
  | error e => rfl
  | ok indexes => exact ofParts_eq_ok h hindexes schema.name item.text

/-- The identity under which an item with this document is stored. -/
def ResolvesTo (schema : Schema) (checkedOut : Option StructureId) (fresh : Guid) (d : Document)
    (id : StructureId) : Prop :=
  schema.readId d = .ok (some id) ∨
    schema.readId d = .ok none ∧ newId schema checkedOut fresh = .ok id

theorem isScalar_of_readId {members : List (String × Document)}
    (h : schema.readId (.object members) = .ok none) :
    ((members.lookup schema.id.path).getD .null).isScalar = true := by
  have hget : (Document.object members).get? schema.id.path = members.lookup schema.id.path := rfl
  unfold Schema.readId at h
  rw [hget] at h
  cases hold : (members.lookup schema.id.path).getD .null with
  | array items => cases hk : schema.id.kind <;> simp [hold, hk] at h
  | object members => cases hk : schema.id.kind <;> simp [hold, hk] at h
  | _ => rfl

theorem isScalar_idDocument (id : StructureId) : (idDocument id).isScalar = true := by
  cases id <;> rfl

theorem names_ne_id (h : schema.Accepted) (ha : a ∈ schema.accessors) :
    a.names ≠ [schema.id.path] := by
  intro hnames
  have hsegments : Schema.segments a.path = [schema.id.path.toList] := by
    simpa [Accessor.names, Function.comp_def] using congrArg (List.map String.toList) hnames
  refine h.path_ne_id ha (Schema.segments_injective ?_)
  rw [hsegments, Schema.segments, Text.pieces_of_notMem h.dot_notMem_id]

/-- The structure is made from a document that differs from the item's in the identity at most, so
its members reach what they reach in the item. -/
theorem exists_identified (h : schema.Accepted) {members : List (String × Document)}
    {checkedOut : Option StructureId} {fresh : Guid}
    (hid : ResolvesTo schema checkedOut fresh (.object members) id) (serialize : BodySerializer) :
    ∃ stored, (build schema serialize (.ok (.object members)) checkedOut fresh).result =
        ofIdentified schema serialize id stored ∧
      ∀ a ∈ schema.accessors,
        stored.reached a.names = (Document.object members).reached a.names := by
  obtain hread | ⟨hread, hnew⟩ := hid
  · refine ⟨.object members, ?_, fun _ _ => rfl⟩
    simp only [build, hread]
  · refine ⟨(Document.object members).insert schema.id.path (idDocument id), ?_, ?_⟩
    · simp only [build, hread, hnew]
    · intro a ha
      have hnames : a.names ≠ [] := Schema.names_ne_nil a.path
      rw [Document.reached, Document.reached, Document.ends_insert hnames (names_ne_id h ha)
        (isScalar_idDocument id) (isScalar_of_readId hread)]

theorem Stores.congr {stored : Document} (h : Stores id stored a entry)
    (hreached : stored.reached a.names = item.reached a.names) : Stores id item a entry :=
  { h with null_iff := hreached ▸ h.null_iff }

theorem stores_uniques {indexes : List IndexEntry}
    (h : List.Forall₂ (Stores id item) schema.accessors indexes) :
    List.Forall₂ (Stores id item) schema.uniqueAccessors (indexes.filter IndexEntry.isUnique) :=
  List.rel_filter
    (fun _ _ hentry => by simp only [Accessor.isUnique, IndexEntry.isUnique, hentry.unique]) h

/-- An item whose identity resolves is built exactly when all members of the schema can be indexed.
Its structure then has one entry for each member in their order, and the unique entries are those
of the unique members and not null; entries of members are never refused by `ofParts`. -/
theorem builds_fitting_items (h : schema.Accepted) (members : List (String × Document))
    (checkedOut : Option StructureId) (fresh : Guid)
    (hid : ResolvesTo schema checkedOut fresh (.object members) id) :
    let result := (build schema .documentText (.ok (.object members)) checkedOut fresh).result
    ((∃ s, result = .ok s) ↔ ∀ a ∈ schema.accessors, a.Fits (.object members)) ∧
      (∀ s, result = .ok s → s.id = id ∧
        List.Forall₂ (Stores id (.object members)) schema.accessors s.indexes ∧
        List.Forall₂ (Stores id (.object members)) schema.uniqueAccessors s.uniques ∧
        ∀ entry ∈ s.uniques, entry.value ≠ .null) ∧
      ∀ item indexes body, schema.accessors.mapM (buildIndex schema id item) = .ok indexes →
        ofParts id schema.name body indexes = .ok ⟨id, schema.name, body, indexes⟩ := by
  intro result
  obtain ⟨stored, hresult, hreached⟩ := exists_identified h hid .documentText
  have hbuilt : ∀ s, result = .ok s ↔ ∃ indexes,
      schema.accessors.mapM (buildIndex schema id stored) = .ok indexes ∧
        s = ⟨id, schema.name, stored.text, indexes⟩ := by
    intro s
    rw [show result = _ from hresult, ofIdentified_eq h]
    cases schema.accessors.mapM (buildIndex schema id stored) with
    | error e => simp [Except.map]
    | ok indexes => simp [Except.map, eq_comm]
  have hfits : (∃ s, result = .ok s) ↔ ∀ a ∈ schema.accessors, a.Fits (.object members) := by
    calc
      (∃ s, result = .ok s)
        ↔ ∃ indexes, schema.accessors.mapM (buildIndex schema id stored) = .ok indexes := by
          simp only [hbuilt]
          exact ⟨fun ⟨_, indexes, hindexes, _⟩ => ⟨indexes, hindexes⟩,
            fun ⟨indexes, hindexes⟩ => ⟨_, indexes, hindexes, rfl⟩⟩
      _ ↔ ∀ a ∈ schema.accessors, a.Fits stored := by
          rw [exists_mapM_eq_ok]
          exact forall₂_congr fun a _ => exists_buildIndex
      _ ↔ ∀ a ∈ schema.accessors, a.Fits (.object members) :=
          forall₂_congr fun a ha =>
            ⟨fun hf => hf.congr (hreached a ha).symm, fun hf => hf.congr (hreached a ha)⟩
  refine ⟨hfits, ?_, fun item indexes body hindexes => ofParts_eq_ok h hindexes schema.name body⟩
  intro s hs
  have hall := hfits.1 ⟨s, hs⟩
  obtain ⟨indexes, hindexes, rfl⟩ := (hbuilt s).1 hs
  have hstores : List.Forall₂ (Stores id (.object members)) schema.accessors indexes :=
    ((List.forall₂_and_left _ _).2 ⟨hreached, stores_of_mapM hindexes⟩).imp
      fun _ _ hentry => hentry.2.congr hentry.1
  refine ⟨rfl, hstores, stores_uniques hstores, fun entry hentry => ?_⟩
  obtain ⟨a, ha, hstored⟩ := exists_of_forall₂ (stores_uniques hstores) hentry
  obtain ⟨ha, hunique⟩ := List.mem_filter.1 ha
  rw [Ne, hstored.null_iff]
  intro hnone
  have hone := (hall a ha).unique hunique
  rw [hnone] at hone
  cases hone

/-- An order with a number, two tags and two lines is built under a new guid. -/
theorem builds_fitting_items_of_order :
    let schema : Schema := ⟨"Order", ⟨"Id", .guid⟩,
      [⟨"No", .integer, some .perType, false, false⟩, ⟨"Tags", .string, none, true, false⟩,
        ⟨"Lines.Quantity", .integer, none, false, true⟩, ⟨"Note", .text, none, false, false⟩]⟩
    let members : List (String × Document) :=
      [("Lines", .array [.object [("Quantity", .integer 2)], .object [("Quantity", .string "3")]]),
        ("No", .integer 7), ("Tags", .array [.string "a", .null, .string "b"])]
    let id : StructureId := .guid ⟨1⟩
    schema.Accepted ∧ ResolvesTo schema none ⟨1⟩ (.object members) id ∧
      ∃ s, (build schema .documentText (.ok (.object members)) none ⟨1⟩).result = .ok s ∧
        s.id = id ∧
        List.Forall₂ (Stores id (.object members)) schema.uniqueAccessors s.uniques := by
  intro schema members id
  have h : schema.Accepted := by decide +kernel
  have hid : ResolvesTo schema none ⟨1⟩ (.object members) id := .inr ⟨by decide +kernel, rfl⟩
  have hfits : ∀ a ∈ schema.accessors, a.Fits (.object members) := by
    intro a ha
    simp only [schema, List.mem_cons, List.not_mem_nil, or_false] at ha
    rcases ha with rfl | rfl | rfl | rfl
    · exact ⟨Accessor.exists_readValues.1 ⟨[.integer 7], by decide +kernel⟩, by decide +kernel,
        by decide +kernel⟩
    · exact ⟨Accessor.exists_readValues.1 ⟨[.string "a", .string "b"], by decide +kernel⟩,
        by decide +kernel, by decide +kernel⟩
    · exact ⟨Accessor.exists_readValues.1 ⟨[.integer 2, .integer 3], by decide +kernel⟩,
        by decide +kernel, by decide +kernel⟩
    · exact ⟨Accessor.exists_readValues.1 ⟨[], by decide +kernel⟩, by decide +kernel,
        by decide +kernel⟩
  obtain ⟨hiff, hentries, -⟩ := builds_fitting_items h members none ⟨1⟩ hid
  obtain ⟨s, hs⟩ := hiff.2 hfits
  obtain ⟨hsid, -, huniques, -⟩ := hentries s hs
  exact ⟨h, hid, s, hs, hsid, huniques⟩

end Structure

end DocStore
