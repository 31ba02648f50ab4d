import DocStore.Proofs.Database.Scanning
import DocStore.Schema.ColumnName
import DocStore.Schema.Layout

/-!
# Accepted schemas

What `Schema.ofParts` promises of a schema, and what follows for names: tables and columns of an
accepted schema can be written between brackets as they are.
-/

namespace DocStore

def Schema.Accepted (schema : Schema) : Prop :=
  Schema.ofParts schema.name (some schema.id) schema.accessors = .ok schema

instance (schema : Schema) : Decidable schema.Accepted :=
  inferInstanceAs (Decidable (Schema.ofParts _ _ _ = _))

namespace Schema

theorem checkAccessors_eq_ok {idPath : String} {seen : List String} {accessors : List Accessor}
    (h : checkAccessors idPath seen accessors = .ok ()) :
    (∀ a ∈ accessors, isPath a.path = true ∧ a.path ≠ idPath ∧ a.path ∉ seen) ∧
      (accessors.map Accessor.path).Nodup := by
  induction accessors generalizing seen with
  | nil => exact ⟨nofun, .nil⟩
  | cons a accessors ih =>
    rw [checkAccessors] at h
    split at h
    · cases h
    · next hp =>
      split at h
      · cases h
      · next hid =>
        split at h
        · cases h
        · next hs =>
          obtain ⟨hall, hn⟩ := ih h
          refine ⟨?_, ?_⟩
          · rw [List.forall_mem_cons]
            refine ⟨⟨by simpa using hp, hid, hs⟩, ?_⟩
            intro b hb
            obtain ⟨hpath, hne, hseen⟩ := hall b hb
            exact ⟨hpath, hne, fun h => hseen (List.mem_cons_of_mem _ h)⟩
          · rw [List.map_cons, List.nodup_cons]
            refine ⟨?_, hn⟩
            intro hmem
            obtain ⟨b, hb, hpath⟩ := List.mem_map.1 hmem
            exact (hall b hb).2.2 (hpath ▸ List.mem_cons_self)

namespace Accepted

variable {schema : Schema} (h : schema.Accepted)

include h

theorem parts : isIdentifier schema.name.toList = true ∧ isPath schema.id.path = true ∧
    checkAccessors schema.id.path [] schema.accessors = .ok () := by
  rw [Accepted, ofParts] at h
  split at h
  · cases h
  · next hname =>
    split at h
    · cases h
    · next hid =>
      split at h
      · cases h
      · split at h
        · cases h
        · next hcheck => exact ⟨by simpa using hname, by simpa using hid, hcheck⟩

theorem isIdentifier_name : isIdentifier schema.name.toList = true :=
  h.parts.1

theorem isPath_of_mem {a : Accessor} (ha : a ∈ schema.accessors) : isPath a.path = true :=
  ((checkAccessors_eq_ok h.parts.2.2).1 a ha).1

theorem nodup_paths : (schema.accessors.map Accessor.path).Nodup :=
  (checkAccessors_eq_ok h.parts.2.2).2

theorem path_ne_id {a : Accessor} (ha : a ∈ schema.accessors) : a.path ≠ schema.id.path :=
  ((checkAccessors_eq_ok h.parts.2.2).1 a ha).2.1

/-- The identity is a member of the document itself. -/
theorem dot_notMem_id : '.' ∉ schema.id.path.toList := by
  rw [Accepted, ofParts] at h
  split at h
  · cases h
  · split at h
    · cases h
    · split at h
      · cases h
      · next hdot => simpa using hdot

end Accepted

theorem mem_of_isIdentifier {name : List Char} (h : isIdentifier name = true) {c : Char}
    (hc : c ∈ name) : isNameChar c = true := by
  cases name with
  | nil => cases hc
  | cons d rest =>
    rw [isIdentifier, Bool.and_eq_true, isNameStart, List.all_eq_true] at h
    rcases List.mem_cons.1 hc with rfl | hc
    · rw [isNameChar, Char.isAlphanum]
      cases hd : c.isAlpha with
      | true => rfl
      | false =>
        have hu : c = '_' := by simpa [hd] using h.1
        simp [hu]
    · exact h.2 c hc

theorem mem_pieces (separator : Char) {c : Char} {text : List Char} (hc : c ∈ text) :
    c = separator ∨ ∃ piece ∈ Text.pieces separator text, c ∈ piece := by
  induction text with
  | nil => cases hc
  | cons d text ih =>
    by_cases hd : d = separator
    · rcases List.mem_cons.1 hc with rfl | hc
      · exact .inl hd
      · rw [Text.pieces, if_pos hd]
        obtain h | ⟨piece, hp, hin⟩ := ih hc
        · exact .inl h
        · exact .inr ⟨piece, List.mem_cons_of_mem _ hp, hin⟩
    · rw [Text.pieces, if_neg hd]
      cases hpieces : Text.pieces separator text with
      | nil => exact absurd hpieces (Text.pieces_ne_nil separator text)
      | cons first others =>
        rcases List.mem_cons.1 hc with rfl | hc
        · exact .inr ⟨c :: first, List.mem_cons_self, List.mem_cons_self⟩
        · obtain h | ⟨piece, hp, hin⟩ := ih hc
          · exact .inl h
          · rw [hpieces] at hp
            rcases List.mem_cons.1 hp with rfl | hp
            · exact .inr ⟨d :: piece, List.mem_cons_self, List.mem_cons_of_mem _ hin⟩
            · exact .inr ⟨piece, List.mem_cons_of_mem _ hp, hin⟩

theorem mem_of_isPath {path : String} (h : isPath path = true) {c : Char}
    (hc : c ∈ path.toList) : c = '.' ∨ isNameChar c = true := by
  obtain hdot | ⟨piece, hp, hin⟩ := mem_pieces '.' hc
  · exact .inl hdot
  · exact .inr (mem_of_isIdentifier (List.all_eq_true.1 h piece hp) hin)

theorem ne_empty_of_isPath {path : String} (h : isPath path = true) : path ≠ "" := by
  rintro rfl
  cases h

end Schema

/-- Names of name characters can be written in any list. -/
theorem plain_of_isNameChar {name : String} (hne : name ≠ "")
    (h : name.toList.all Schema.isNameChar = true) : Plain name := by
  have hno : ∀ c, Schema.isNameChar c = false → c ∉ name.toList := by
    intro c hc hin
    rw [List.all_eq_true.1 h c hin] at hc
    cases hc
  exact ⟨⟨hne, hno ']' (by decide)⟩, hno ',' (by decide), hno '(' (by decide), hno ')' (by decide)⟩

end DocStore
