import DocStore.Proofs.Outcome
import DocStore.Proofs.Schema.Accepted
import DocStore.Structure.Builder
import DocStore.Writer.Rows

/-!
# Built structures

A structure that was built has one index entry per member, in the order of the schema, in the
table of the member's family. An entry whose table has no column for whole strings has no string
for its value, so that nothing is cut from it.
-/

namespace DocStore

namespace Structure

variable {schema : Schema} {s : Structure} {a : Accessor}

def IsBuilt (schema : Schema) (s : Structure) : Prop :=
  ∃ serialize item checkedOut fresh,
    (build schema serialize item checkedOut fresh).result = .ok s

/-- The entry of a member, with a value that its table holds whole. -/
structure Indexes (id : StructureId) (a : Accessor) (entry : IndexEntry) : Prop where
  id : entry.id = id
  path : entry.path = a.path
  table : entry.table = a.storageFamily.indexTable
  whole : entry.table.hasStringValue = false → ∀ maxLength,
    Rows.cut maxLength entry.value = entry.value

theorem ofIdentified_eq_ok {serialize : BodySerializer} {id : StructureId} {item : Document}
    (h : ofIdentified schema serialize id item = .ok s) :
    s.id = id ∧ schema.accessors.mapM (buildIndex schema id item) = .ok s.indexes := by
  obtain ⟨indexes, hindexes, h⟩ := bind_eq_ok.1 h
  obtain ⟨body, _, h⟩ := bind_eq_ok.1 h
  rw [ofParts] at h
  split at h
  · cases h
  · obtain rfl := Except.ok.inj h
    exact ⟨rfl, hindexes⟩

theorem IsBuilt.mapM (h : s.IsBuilt schema) : ∃ item,
    schema.accessors.mapM (buildIndex schema s.id item) = .ok s.indexes := by
  obtain ⟨serialize, item, checkedOut, fresh, h⟩ := h
  cases item with
  | error e => cases h
  | ok d =>
    simp only [build] at h
    split at h
    · cases h
    · next id _ =>
      obtain ⟨rfl, hindexes⟩ := ofIdentified_eq_ok h
      exact ⟨d, hindexes⟩
    · split at h
      · cases h
      · next id _ =>
        obtain ⟨rfl, hindexes⟩ := ofIdentified_eq_ok h
        exact ⟨_, hindexes⟩

theorem cut_eq_self {v : Value} (h : v.string? = none) (maxLength : Nat) :
    Rows.cut maxLength v = v := by
  cases v with
  | string s => cases h
  | _ => rfl

/-- Families of other values do not read strings. -/
theorem string?_ofDocument {family : Family} {d : Document} {v : Value}
    (hf : family.isTextual = false) (h : Value.ofDocument family d = .ok v) : v.string? = none := by
  rw [Value.ofDocument_eq_ok, Value.ofDocument?.eq_def] at h
  split at h
  all_goals first
    | (cases h <;> rfl)
    | contradiction
    | (obtain ⟨_, _, rfl⟩ := Option.map_eq_some_iff.1 h; rfl)

/-- Where the table has no column for whole strings, the member is neither a collection nor one of
strings. -/
theorem not_textual {a : Accessor} (h : a.storageFamily.indexTable.hasStringValue = false) :
    a.isCollection = false ∧ a.family.isTextual = false := by
  revert h
  rw [Accessor.storageFamily]
  cases a.isCollection <;> cases a.family <;> decide

theorem string?_indexValue {item : Document} {values : List Value} {v : Value}
    (h : a.storageFamily.indexTable.hasStringValue = false)
    (hvalues : a.readValues item = .ok values) (hv : a.indexValue values = .ok v) :
    v.string? = none := by
  obtain ⟨hcollection, htextual⟩ := not_textual h
  have hread := forall₂_of_mapM hvalues
  simp only [Accessor.indexValue, hcollection, htextual, Bool.false_eq_true, if_false] at hv
  split at hv
  · obtain rfl := Except.ok.inj hv
    rfl
  · obtain rfl := Except.ok.inj hv
    obtain ⟨d, _, hd, _, _⟩ := List.forall₂_cons_right_iff.1 hread
    exact string?_ofDocument htextual hd
  · cases hv

theorem buildIndex_indexes {id : StructureId} {item : Document} {entry : IndexEntry}
    (h : buildIndex schema id item a = .ok entry) : Indexes id a entry := by
  obtain ⟨values, hvalues, h⟩ := bind_eq_ok.1 h
  obtain ⟨_, _, h⟩ := bind_eq_ok.1 h
  obtain ⟨value, hvalue, h⟩ := bind_eq_ok.1 h
  obtain rfl := Except.ok.inj h
  exact ⟨rfl, rfl, rfl, fun htable => cut_eq_self (string?_indexValue htable hvalues hvalue)⟩

theorem map_path {id : StructureId} {accessors : List Accessor} {indexes : List IndexEntry}
    (h : List.Forall₂ (Indexes id) accessors indexes) :
    indexes.map IndexEntry.path = accessors.map Accessor.path := by
  induction h with
  | nil => rfl
  | cons hentry _ ih => rw [List.map_cons, List.map_cons, hentry.path, ih]

/-- A built structure has the entries of all members, one after another. -/
theorem IsBuilt.indexes (h : s.IsBuilt schema) :
    List.Forall₂ (Indexes s.id) schema.accessors s.indexes := by
  obtain ⟨item, hitem⟩ := h.mapM
  exact (forall₂_of_mapM hitem).imp fun a entry he => buildIndex_indexes he

end Structure

end DocStore
