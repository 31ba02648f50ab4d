import DocStore.Proofs.Sync.Changes

/-!
# Reconciling schema and database

What a synchronization leaves in every table, and that nothing is left to do: the columns of
members that are gone are dropped, those of new members are added without values, obsolete unique
rows are deleted, and the next plan is empty.
-/

namespace DocStore

section Changed

variable {names columns : List String} {row : List Value}

theorem not_drops (names : List String) (c : String) :
    (!drops names c) = decide (c = Column.structureId ∨ c ∈ names) := by
  rw [Bool.eq_iff_iff, Bool.not_eq_true', drops_eq_false, or_comm, decide_eq_true_iff]

theorem adds_eq (hid : Column.structureId ∉ names) :
    adds names columns = names.filter fun c => c ∉ columns := by
  refine List.filter_congr fun c hc => ?_
  have hne : c ≠ Column.structureId := fun h => hid (h ▸ hc)
  simp [hne]

theorem changedColumns_eq (hid : Column.structureId ∉ names) :
    changedColumns names columns =
      (columns.filter fun c => c = Column.structureId ∨ c ∈ names) ++
        names.filter fun c => c ∉ columns := by
  rw [changedColumns, adds_eq hid]
  simp only [not_drops]

theorem changedRow_eq (hid : Column.structureId ∉ names) :
    changedRow names columns row =
      ((columns.zip row).filter fun c => c.1 = Column.structureId ∨ c.1 ∈ names).map Prod.snd ++
        (names.filter fun c => c ∉ columns).map fun _ => .null := by
  rw [changedRow, adds_eq hid, Table.kept]
  simp only [not_drops]

end Changed

namespace Synchronizer

variable {s : Synchronizer} {schema : Schema} {db : Database} {memo : SyncMemo} {t : Table}

/-- A table with the columns of the members, and no obsolete unique rows, leave nothing to plan. -/
theorem planOf_eq_empty {uniques : Option Table}
    (hc : ∀ c, c ∈ t.columns ↔ c ∈ s.names schema ∨ c = Column.structureId)
    (hid : Column.structureId ∉ s.names schema) :
    s.planOf schema t (uniques.map (pruned schema)) = {} := by
  have hlogical : (Definition.memberColumns s.naming schema).map ColumnDefinition.name =
      s.names schema := List.map_map
  have hmembers : ∀ c, c ∈ (t.columns.filter fun c => c ≠ Column.structureId) ↔
      c ∈ s.names schema := by
    intro c
    rw [List.mem_filter, hc]
    constructor
    · rintro ⟨h | rfl, hne⟩
      · exact h
      · simp at hne
    · intro h
      have hne : c ≠ Column.structureId := fun he => hid (he ▸ h)
      exact ⟨.inl h, by simpa using hne⟩
  have hpaths : obsoletePaths schema (uniques.map (pruned schema)) = [] := by
    cases uniques with
    | none => rfl
    | some u => exact obsolete_pruned schema u
  rw [planOf, SyncPlan.ofColumns, hpaths, SyncPlan.mk.injEq]
  refine ⟨List.filter_eq_nil_iff.2 fun c hmem => ?_, List.filter_eq_nil_iff.2 fun c hmem => ?_, rfl⟩
  · rw [hlogical]
    simpa using (hmembers c).1 hmem
  · have hname : c.name ∈ s.names schema := hlogical ▸ List.mem_map_of_mem hmem
    simpa using (hmembers c.name).2 hname

/-- Synchronization reconciles exactly. The table of member columns keeps its columns of the
identity and of members, in their order, with their cells, and gets the missing columns of members
behind them, in the order of the members and without values. The table of uniques loses the rows
whose path is a string that is not the path of a unique member, and no other table changes. The
type is remembered, and the next plan is empty. -/
theorem synchronize_reconciles (h : schema.Accepted) (hd : ∀ c ∈ s.names schema, Definable c)
    (hnames : (s.names schema).Nodup) (hid : Column.structureId ∉ s.names schema)
    (hmemo : schema.name ∉ memo) (hf : db.failing = [])
    (ht : db.table? (TableName.memberColumns schema.name) = some t)
    (hidentity : Column.structureId ∈ t.columns) (hcols : ∀ c ∈ t.columns, Quotable c)
    (hl : ∀ row ∈ t.rows, row.length = t.columns.length)
    (hu : ∀ u, db.table? (TableName.uniques schema.name) = some u →
      Column.uniqueMemberPath ∈ u.columns) :
    ∃ plan memo' db' t', (s.synchronize memo schema).on db = (.ok (plan, memo'), db') ∧
      memo' = memo.mark schema.name ∧
      db'.table? (TableName.memberColumns schema.name) = some t' ∧
      t'.columns = (t.columns.filter fun c => c = Column.structureId ∨ c ∈ s.names schema) ++
        (s.names schema).filter (fun c => c ∉ t.columns) ∧
      t'.rows = t.rows.map (fun row => ((t.columns.zip row).filter fun c =>
        c.1 = Column.structureId ∨ c.1 ∈ s.names schema).map Prod.snd ++
          ((s.names schema).filter fun c => c ∉ t.columns).map fun _ => .null) ∧
      db'.table? (TableName.uniques schema.name) =
        (db.table? (TableName.uniques schema.name)).map (pruned schema) ∧
      (∀ name, name ≠ TableName.memberColumns schema.name →
        name ≠ TableName.uniques schema.name → db'.table? name = db.table? name) ∧
      ∃ again, (s.plan schema).on db' = (.ok again, db') ∧ again.isEmpty = true := by
  obtain ⟨db', hon, hfail, htables⟩ :=
    synchronize_yields h hd hmemo hf ht hu hcols hl hnames hid
  have ht' : db'.table? (TableName.memberColumns schema.name) =
      some (changed (s.names schema) t) := by
    rw [htables, Function.update_of_ne TableName.uniques_ne_memberColumns.symm,
      Function.update_self]
  have hu' : db'.table? (TableName.uniques schema.name) =
      (db.table? (TableName.uniques schema.name)).map (pruned schema) := by
    rw [htables, Function.update_self]
  have hpath : ∀ u, db'.table? (TableName.uniques schema.name) = some u →
      Column.uniqueMemberPath ∈ u.columns := by
    intro u hsome
    rw [hu', Option.map_eq_some_iff] at hsome
    obtain ⟨old, hold, rfl⟩ := hsome
    exact hu old hold
  have hagain : (s.plan schema).on db' = _ :=
    plan_on (TableName.quotable_uniques h.isIdentifier_name) (hfail.trans hf) ht' hpath
  rw [hu', planOf_eq_empty (fun c => mem_changedColumns hid hidentity) hid] at hagain
  refine ⟨_, _, db', _, hon, rfl, ht', changedColumns_eq hid, ?_, hu', ?_, {}, hagain, rfl⟩
  · exact List.map_congr_left fun row _ => changedRow_eq hid
  · intro name hmembers huniques
    rw [htables, Function.update_of_ne huniques, Function.update_of_ne hmembers]

/-- Names that are not defined as they are leave something to do: each of these, beside `Total`, is
added under another name or not at all, or it hides the column behind it. -/
theorem synchronize_leaves_plan :
    let schema : Schema := ⟨"Order", ⟨"Id", .identity⟩,
      [⟨"City", .string, none, false, false⟩, ⟨"Total", .integer, none, false, false⟩]⟩
    let members : Table := ⟨["StructureId"], []⟩
    let db : Database := ⟨[("OrderIndexes", members)], [], [], []⟩
    let s : String → Synchronizer := fun column =>
      ⟨.offsetFetch, fun path => if path = "City" then column else path⟩
    schema.Accepted ∧ ∀ column ∈ ["Address,City", "A(", "A]", ""],
      (s column).names schema = [column, "Total"] ∧
        [column, "Total"].Nodup ∧ Column.structureId ∉ [column, "Total"] ∧
        ¬ ∃ plan memo db' again,
          ((s column).synchronize [] schema).on db = (.ok (plan, memo), db') ∧
          ((s column).plan schema).on db' = (.ok again, db') ∧ again.isEmpty = true := by
  intro schema members db s
  have hnames : ∀ column ∈ ["Address,City", "A(", "A]", ""],
      [column, "Total"].Nodup ∧ Column.structureId ∉ [column, "Total"] := by decide
  have hagain : ∀ column ∈ ["Address,City", "A(", "A]", ""],
      (((s column).plan schema).on (((s column).synchronize [] schema).on db).2).1.map
        SyncPlan.isEmpty = .ok false := by decide +kernel
  refine ⟨by decide +kernel, fun column hcolumn => ⟨rfl, (hnames column hcolumn).1,
    (hnames column hcolumn).2, ?_⟩⟩
  rintro ⟨plan, memo, db', again, hon, hplan, hempty⟩
  have hleft := hagain column hcolumn
  rw [hon] at hleft
  dsimp only at hleft
  rw [hplan] at hleft
  change Except.ok again.isEmpty = .ok false at hleft
  rw [hempty] at hleft
  cases hleft

/-- `Old` is dropped and `Total` is added beside `Name`, which is unique: of the unique rows only
that of `Old` is deleted, and not the one without a path. -/
theorem synchronize_reconciles_orders :
    let schema : Schema := ⟨"Order", ⟨"Id", .identity⟩,
      [⟨"Total", .integer, none, false, false⟩, ⟨"Name", .string, some .perType, false, false⟩]⟩
    let members : Table := ⟨["Old", "StructureId", "Name"],
      [[.boolean true, .integer 1, .string "a"], [.null, .integer 2, .null]]⟩
    let uniques : Table := ⟨["UqMemberPath", "UqValue"],
      [[.string "Old", .string "x"], [.string "Name", .string "a"], [.null, .string "y"]]⟩
    let db : Database := ⟨[("OrderIndexes", members), ("OrderUniques", uniques)], [], [], []⟩
    let s : Synchronizer := ⟨.offsetFetch, ColumnName.ofPath 128⟩
    ∃ plan memo db', (s.synchronize [] schema).on db = (.ok (plan, memo), db') ∧
      db'.table? "OrderIndexes" = some ⟨["StructureId", "Name", "Total"],
        [[.integer 1, .string "a", .null], [.integer 2, .null, .null]]⟩ ∧
      db'.table? "OrderUniques" = some ⟨["UqMemberPath", "UqValue"],
        [[.string "Name", .string "a"], [.null, .string "y"]]⟩ ∧
      ∃ again, (s.plan schema).on db' = (.ok again, db') ∧ again.isEmpty = true := by
  intro schema members uniques db s
  have haccepted : schema.Accepted := by decide +kernel
  have hdefinable : ∀ c ∈ s.names schema, Definable c := fun c hc =>
    (plain_names (ColumnName.isPlain_ofPath 128) haccepted c hc).definable
  have hcols : ∀ c ∈ members.columns, Quotable c := by decide +kernel
  have hpath : ∀ u, db.table? (TableName.uniques schema.name) = some u →
      Column.uniqueMemberPath ∈ u.columns := by
    intro u hu
    have huniques : db.table? (TableName.uniques schema.name) = some uniques := by decide +kernel
    obtain rfl := Option.some.inj (huniques.symm.trans hu)
    decide
  obtain ⟨plan, memo, db', t', hon, _, ht', hcolumns, hrows, hu', _, hagain⟩ :=
    synchronize_reconciles haccepted hdefinable (by decide +kernel) (by decide +kernel)
      List.not_mem_nil rfl (show db.table? (TableName.memberColumns schema.name) = some members
        by decide +kernel) (by decide) hcols (by decide) hpath
  have htable : t' = ⟨["StructureId", "Name", "Total"],
      [[.integer 1, .string "a", .null], [.integer 2, .null, .null]]⟩ := by
    have hc : t'.columns = ["StructureId", "Name", "Total"] := hcolumns.trans (by decide +kernel)
    have hr : t'.rows = [[.integer 1, .string "a", .null], [.integer 2, .null, .null]] :=
      hrows.trans (by decide +kernel)
    rw [← hc, ← hr]
  refine ⟨plan, memo, db', hon, ?_, hu'.trans (by decide +kernel), hagain⟩
  rw [← htable]
  exact ht'

end Synchronizer

end DocStore
