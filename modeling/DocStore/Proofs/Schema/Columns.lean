import DocStore.Proofs.Schema.Names
import Mathlib.Algebra.Group.Nat.Defs
import Mathlib.Data.List.Nodup

/-!
# Distinct columns

The default naming gives two paths one column name in three ways: they are short and differ in dots
and underscores only, both are cut and have one beginning and one checksum, or one is short and
spells what the other is cut to. A path is named like the identity column only if it is spelt like
it. Where none of this happens among its members, and only there, a schema's member columns are
distinct and every column is found at its own position.
-/

namespace DocStore

namespace Hex

theorem digit_inj {m n : Nat} (h : digit m = digit n) : m % 16 = n % 16 := by
  have hinj : ∀ i < 16, ∀ j < 16, Nat.digitChar i = Nat.digitChar j → i = j := by decide
  exact hinj _ (Nat.mod_lt m (by decide)) _ (Nat.mod_lt n (by decide)) h

theorem mod_eq_of_digits {count m n : Nat} (h : digits count m = digits count n) :
    m % 16 ^ count = n % 16 ^ count := by
  induction count with
  | zero => rw [Nat.pow_zero, Nat.mod_one, Nat.mod_one]
  | succ count ih =>
    obtain ⟨hdigit, hrest⟩ := List.cons.inj h
    have hfirst : m / 16 ^ count % 16 = n / 16 ^ count % 16 := digit_inj hdigit
    rw [Nat.pow_succ, Nat.mod_mul, Nat.mod_mul, ih hrest, hfirst]

end Hex

theorem Checksum.hex_inj {a b : BitVec 32} (h : hex a = hex b) : a = b := by
  have hmod : a.toNat % 16 ^ 8 = b.toNat % 16 ^ 8 := Hex.mod_eq_of_digits h
  have hlt : ∀ x : BitVec 32, x.toNat % 16 ^ 8 = x.toNat := fun x => Nat.mod_eq_of_lt x.isLt
  rwa [hlt, hlt, BitVec.toNat_inj] at hmod

namespace ColumnName

variable {maxLength : Nat} {p q : String}

/-- Why two paths have one column name; a cut name ends in nine characters of its own. -/
inductive Collides (maxLength : Nat) (p q : String) : Prop
  | flat (hp : (flat p).length ≤ limit maxLength) (hq : (flat q).length ≤ limit maxLength)
    (h : flat p = flat q)
  | cut (hp : limit maxLength < (flat p).length) (hq : limit maxLength < (flat q).length)
    (hfront : (flat p).take (limit maxLength - 9) = (flat q).take (limit maxLength - 9))
    (hsum : Checksum.ofText p = Checksum.ofText q)
  | spelt (hp : (flat p).length ≤ limit maxLength) (hq : limit maxLength < (flat q).length)
    (h : flat p = (flat q).take (limit maxLength - 9) ++
      '_' :: Checksum.hex (Checksum.ofText q))

theorem ofPath_of_le (h : (flat p).length ≤ limit maxLength) :
    ofPath maxLength p = String.ofList (flat p) :=
  if_pos h

theorem ofPath_of_lt (h : limit maxLength < (flat p).length) :
    ofPath maxLength p = String.ofList ((flat p).take (limit maxLength - 9) ++
      '_' :: Checksum.hex (Checksum.ofText p)) :=
  if_neg (Nat.not_le.2 h)

theorem ofPath_eq_of_collides (h : Collides maxLength p q) :
    ofPath maxLength p = ofPath maxLength q := by
  cases h with
  | flat hp hq h => rw [ofPath_of_le hp, ofPath_of_le hq, h]
  | cut hp hq hfront hsum => rw [ofPath_of_lt hp, ofPath_of_lt hq, hfront, hsum]
  | spelt hp hq h => rw [ofPath_of_le hp, ofPath_of_lt hq, h]

theorem ofPath_eq_iff : ofPath maxLength p = ofPath maxLength q ↔
    Collides maxLength p q ∨ Collides maxLength q p := by
  constructor
  · intro h
    rcases Nat.lt_or_ge (limit maxLength) (flat p).length with hp | hp <;>
      rcases Nat.lt_or_ge (limit maxLength) (flat q).length with hq | hq
    · rw [ofPath_of_lt hp, ofPath_of_lt hq, String.ofList_inj] at h
      have hlength : ((flat p).take (limit maxLength - 9)).length =
          ((flat q).take (limit maxLength - 9)).length := by
        rw [List.length_take, List.length_take]
        omega
      obtain ⟨hfront, hend⟩ := List.append_inj h hlength
      exact .inl (.cut hp hq hfront (Checksum.hex_inj (List.cons.inj hend).2))
    · rw [ofPath_of_lt hp, ofPath_of_le hq, String.ofList_inj] at h
      exact .inr (.spelt hq hp h.symm)
    · rw [ofPath_of_le hp, ofPath_of_lt hq, String.ofList_inj] at h
      exact .inl (.spelt hp hq h)
    · rw [ofPath_of_le hp, ofPath_of_le hq, String.ofList_inj] at h
      exact .inl (.flat hp hq h)
  · rintro (h | h)
    · exact ofPath_eq_of_collides h
    · exact (ofPath_eq_of_collides h).symm

theorem flat_eq_self (h : ∀ c ∈ p.toList, c = '.' → False) : flat p = p.toList := by
  have hchars : ∀ c ∈ p.toList, (if c = '.' then '_' else c) = c := fun c hc => if_neg (h c hc)
  rw [flat, List.map_congr_left hchars, List.map_id']

/-- A name with neither dots nor underscores is that of the path that spells it, if it fits the
limit. -/
theorem ofPath_eq_spelt_iff {name : String} (hdot : '.' ∉ name.toList) (hline : '_' ∉ name.toList) :
    ofPath maxLength p = name ↔ p = name ∧ name.toList.length ≤ limit maxLength := by
  constructor
  · intro h
    rcases Nat.lt_or_ge (limit maxLength) (flat p).length with hp | hp
    · rw [ofPath_of_lt hp] at h
      subst h
      simp at hline
    · rw [ofPath_of_le hp] at h
      have hflat : flat p = name.toList := by rw [← h, String.toList_ofList]
      have hself : flat p = p.toList := by
        refine flat_eq_self fun c hc hcdot => hline ?_
        rw [← hflat, flat]
        exact List.mem_map.2 ⟨c, hc, if_pos hcdot⟩
      exact ⟨String.toList_inj.1 (hself.symm.trans hflat), hflat ▸ hp⟩
  · rintro ⟨rfl, hle⟩
    have hself : flat p = p.toList := flat_eq_self fun c hc hcdot => hdot (hcdot ▸ hc)
    rw [ofPath_of_le (hself ▸ hle), hself, String.ofList_toList]

end ColumnName

namespace TableLayout

variable {layout : TableLayout}

theorem getElem?_of_ordinal? {column : String} {k : Nat} (h : layout.ordinal? column = some k) :
    layout.columns[k]? = some column := by
  obtain ⟨⟨name, i⟩, hlast, hi⟩ := Option.map_eq_some_iff.1 h
  obtain ⟨hmem, hname⟩ := List.mem_filter.1 (List.mem_of_getLast? hlast)
  obtain rfl : i = k := hi
  obtain rfl : name = column := of_decide_eq_true hname
  exact List.mem_zipIdx_iff_getElem?.1 hmem

/-- Columns are distinct exactly when each is found at its own position. -/
theorem nodup_iff_ordinal? : layout.columns.Nodup ↔
    ∀ k name, layout.columns[k]? = some name → layout.ordinal? name = some k := by
  constructor
  · intro hn k name hk
    cases ho : layout.ordinal? name with
    | none =>
      rw [ordinal?, Option.map_eq_none_iff, List.getLast?_eq_none_iff, List.filter_eq_nil_iff] at ho
      have hmem : (name, k) ∈ layout.columns.zipIdx := List.mem_zipIdx_iff_getElem?.2 hk
      exact absurd (decide_eq_true rfl) (ho _ hmem)
    | some i =>
      have hi := getElem?_of_ordinal? ho
      obtain ⟨hlt, -⟩ := List.getElem?_eq_some_iff.1 hi
      rw [(List.getElem?_inj hlt hn).1 (hi.trans hk.symm)]
  · intro h
    rw [List.nodup_iff_getElem?_ne_getElem?]
    intro i j hij hj heq
    have hname : layout.columns[j]? = some layout.columns[j] := List.getElem?_eq_getElem hj
    have hi := h i _ (heq.trans hname)
    rw [h j _ hname] at hi
    exact absurd (Option.some.inj hi) (Nat.ne_of_gt hij)

end TableLayout

namespace Schema

variable {schema : Schema} {maxLength : Nat}

/-- No member has the column of another one or that of the identity. A column cannot be named like
the identity's where the limit is below its eleven letters. -/
structure ColumnsApart (schema : Schema) (maxLength : Nat) : Prop where
  identity : 11 ≤ ColumnName.limit maxLength →
    ∀ a ∈ schema.accessors, a.path ≠ Column.structureId
  members : ∀ a ∈ schema.accessors, ∀ b ∈ schema.accessors, a.path ≠ b.path →
    ¬ ColumnName.Collides maxLength a.path b.path

theorem structureId_mem_iff : (Column.structureId ∈ schema.accessors.map fun a =>
      ColumnName.ofPath maxLength a.path) ↔
    11 ≤ ColumnName.limit maxLength ∧ ∃ a ∈ schema.accessors, a.path = Column.structureId := by
  have hname : ∀ p, ColumnName.ofPath maxLength p = Column.structureId ↔
      p = Column.structureId ∧ 11 ≤ ColumnName.limit maxLength := fun _ =>
    ColumnName.ofPath_eq_spelt_iff (by decide) (by decide)
  simp only [List.mem_map, hname]
  constructor
  · rintro ⟨a, ha, hpath, hlimit⟩
    exact ⟨hlimit, a, ha, hpath⟩
  · rintro ⟨hlimit, a, ha, hpath⟩
    exact ⟨a, ha, hpath, hlimit⟩

theorem nodup_names_iff (h : schema.Accepted) :
    (schema.accessors.map fun a => ColumnName.ofPath maxLength a.path).Nodup ↔
      ∀ a ∈ schema.accessors, ∀ b ∈ schema.accessors, a.path ≠ b.path →
        ¬ ColumnName.Collides maxLength a.path b.path := by
  have hpaths := h.nodup_paths
  have hmap : (schema.accessors.map fun a => ColumnName.ofPath maxLength a.path) =
      (schema.accessors.map Accessor.path).map (ColumnName.ofPath maxLength) := by
    rw [List.map_map]
    rfl
  rw [hmap, List.nodup_map_iff_inj_on hpaths]
  simp only [List.forall_mem_map, ColumnName.ofPath_eq_iff]
  constructor
  · intro hinj a ha b hb hne hcollides
    exact hne (hinj a ha b hb (.inl hcollides))
  · intro happart a ha b hb hcollides
    by_contra hne
    rcases hcollides with hcollides | hcollides
    · exact happart a ha b hb hne hcollides
    · exact happart b hb a ha (Ne.symm hne) hcollides

theorem nodup_columns_iff (h : schema.Accepted) :
    (Column.structureId :: schema.accessors.map fun a =>
      ColumnName.ofPath maxLength a.path).Nodup ↔ schema.ColumnsApart maxLength := by
  rw [List.nodup_cons, structureId_mem_iff, nodup_names_iff h]
  constructor
  · rintro ⟨hid, hmembers⟩
    exact ⟨fun hlimit a ha hpath => hid ⟨hlimit, a, ha, hpath⟩, hmembers⟩
  · rintro ⟨hid, hmembers⟩
    exact ⟨fun ⟨hlimit, a, ha, hpath⟩ => hid hlimit a ha hpath, hmembers⟩

/-- The columns of a layout are distinct, the column definitions are distinct and none is named
like the identity, and every column is found at its own position, each exactly if no member has
the column of another one or of the identity. -/
theorem columns_apart_iff (h : schema.Accepted) (maxLength : Nat) :
    let naming := ColumnName.ofPath maxLength
    let layout := (Layout.ofSchema naming schema).memberColumns
    let defined := (Definition.memberColumns naming schema).map ColumnDefinition.name
    (layout.columns.Nodup ↔ schema.ColumnsApart maxLength) ∧
      (defined.Nodup ∧ Column.structureId ∉ defined ↔ schema.ColumnsApart maxLength) ∧
      ((∀ k name, layout.columns[k]? = some name → layout.ordinal? name = some k) ↔
        schema.ColumnsApart maxLength) := by
  intro naming layout defined
  have hdefined : layout.columns = Column.structureId :: defined := by
    simp only [layout, defined, Layout.ofSchema, Definition.memberColumns, List.map_map]
    rfl
  have hcolumns : layout.columns.Nodup ↔ schema.ColumnsApart maxLength := nodup_columns_iff h
  refine ⟨hcolumns, ?_, TableLayout.nodup_iff_ordinal?.symm.trans hcolumns⟩
  rw [← hcolumns, hdefined, List.nodup_cons]
  exact and_comm

/-- Three members of an order, one of them with an underscore, have columns of their own. -/
theorem columns_apart_of_order :
    let schema : Schema := ⟨"Order", ⟨"Id", .identity⟩,
      [⟨"Address.City", .string, none, false, false⟩, ⟨"Address_Zip", .string, none, false, false⟩,
        ⟨"Customer.DeliveryAddress.Street", .string, none, false, false⟩]⟩
    let layout := (Layout.ofSchema (ColumnName.ofPath 20) schema).memberColumns
    schema.Accepted ∧ layout.columns.Nodup ∧
      ∀ k name, layout.columns[k]? = some name → layout.ordinal? name = some k := by
  intro schema layout
  have h : schema.Accepted := by decide +kernel
  have hn : layout.columns.Nodup := by decide +kernel
  obtain ⟨hcolumns, -, hordinals⟩ := columns_apart_iff h 20
  exact ⟨h, hn, hordinals.2 (hcolumns.1 hn)⟩

/-- The members `Address.City` and `Address_City` of an accepted schema share a column, at which
only the second one is found. -/
theorem columns_collide_of_underscore :
    let schema : Schema := ⟨"Order", ⟨"Id", .identity⟩,
      [⟨"Address.City", .string, none, false, false⟩,
        ⟨"Address_City", .string, none, false, false⟩]⟩
    let layout := (Layout.ofSchema (ColumnName.ofPath 128) schema).memberColumns
    schema.Accepted ∧ layout.columns = ["StructureId", "Address_City", "Address_City"] ∧
      ¬ layout.columns.Nodup ∧ layout.columns[1]? = some "Address_City" ∧
      layout.ordinal? "Address_City" = some 2 := by
  decide +kernel

end Schema

end DocStore
