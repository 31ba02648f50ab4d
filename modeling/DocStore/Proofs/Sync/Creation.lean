import DocStore.Proofs.Writer.Batches
import DocStore.Sync.Upsert
import Mathlib.Data.List.Nodup

/-!
# Creating tables

For a type without a table of member columns, `Synchronizer.upsert` creates all tables that are
missing, with the columns of the layout and without rows.
-/

namespace DocStore

def Layout.tables (layout : Layout) : List TableLayout :=
  layout.body :: layout.uniques :: IndexTable.all.map layout.index ++ [layout.memberColumns]

namespace Layout

variable (layout : Layout)

theorem body_mem_tables : layout.body ∈ layout.tables :=
  List.mem_cons_self

theorem uniques_mem_tables : layout.uniques ∈ layout.tables :=
  List.mem_cons_of_mem _ List.mem_cons_self

theorem index_mem_tables (t : IndexTable) : layout.index t ∈ layout.tables := by
  simp [tables, List.mem_map_of_mem (IndexTable.mem_all t)]

theorem memberColumns_mem_tables : layout.memberColumns ∈ layout.tables :=
  List.mem_append_right _ (List.mem_singleton_self _)

end Layout

theorem Database.holdsType_of_tables {db : Database} {layout : Layout}
    (h : ∀ l ∈ layout.tables, db.Holds l) : db.HoldsType layout where
  body := h _ layout.body_mem_tables
  uniques := h _ layout.uniques_mem_tables
  index t := h _ (layout.index_mem_tables t)
  memberColumns := h _ layout.memberColumns_mem_tables

namespace Synchronizer

variable {s : Synchronizer} {schema : Schema} {db : Database}

def Creates (entry : String × Command) (layout : TableLayout) : Prop :=
  entry.1 = layout.table ∧
    Statement.ofText? entry.2.sql = some (.create layout.table layout.columns)

theorem isType_id (schema : Schema) {ending : String}
    (h : ending = " not null primary key" ∨ ending = " not null" ∨ ending = " null") :
    Statement.IsType (Definition.idType schema ++ ending) := by
  rw [Definition.idType]
  rcases h with rfl | rfl | rfl <;> cases schema.id.kind
  · exact ⟨by decide, 'y', by decide, by decide⟩
  · exact ⟨by decide, 'y', by decide, by decide⟩
  all_goals exact ⟨by decide, 'l', by decide, by decide⟩

theorem isType_value (dialect : Dialect) (t : IndexTable) :
    Statement.IsType (Definition.valueType dialect t ++ " null") := by
  cases dialect <;> cases t <;> exact ⟨by decide, 'l', by decide, by decide⟩

theorem isType_text {type : String} (h : type = "nvarchar(max) not null" ∨
    type = "nvarchar(max) null" ∨ type = "nvarchar(300) not null") : Statement.IsType type := by
  rcases h with rfl | rfl | rfl <;> exact ⟨by decide, 'l', by decide, by decide⟩

theorem creates_createTable {layout : TableLayout} {definitions : List Sql}
    {columns : List (Option String)} (hq : Quotable layout.table)
    (h : List.Forall₂ Statement.IsDefinition definitions columns)
    (hc : columns.filterMap id = layout.columns) :
    Creates (layout.table, Definition.createTable layout.table definitions) layout :=
  ⟨rfl, hc ▸ Statement.ofText?_createTable hq h⟩

theorem creates_body (h : schema.Accepted) :
    Creates ((Layout.ofSchema s.naming schema).body.table,
      Definition.createBody schema (Layout.ofSchema s.naming schema))
        (Layout.ofSchema s.naming schema).body := by
  have hid := Statement.isDefinition_column Column.plain_structureId.definable
    (isType_id schema (.inl rfl))
  have hjson := Statement.isDefinition_column (Layout.plain_body Column.json (by simp)).definable
    (isType_text (.inl rfl))
  exact creates_createTable (TableName.quotable_body h.isIdentifier_name)
    (.cons hid (.cons hjson .nil)) rfl

theorem creates_uniques (h : schema.Accepted) :
    Creates ((Layout.ofSchema s.naming schema).uniques.table,
      Definition.createUniques schema (Layout.ofSchema s.naming schema))
        (Layout.ofSchema s.naming schema).uniques := by
  have hid := Statement.isDefinition_column Column.plain_structureId.definable
    (isType_id schema (.inr (.inl rfl)))
  have hscope := Statement.isDefinition_column
    (Layout.plain_uniques Column.uniqueStructureId (by simp)).definable
    (isType_id schema (.inr (.inr rfl)))
  have hpath := Statement.isDefinition_column
    (Layout.plain_uniques Column.uniqueMemberPath (by simp)).definable
    (isType_text (.inr (.inr rfl)))
  have hvalue := Statement.isDefinition_column
    (Layout.plain_uniques Column.uniqueValue (by simp)).definable (isType_text (.inr (.inr rfl)))
  exact creates_createTable (TableName.quotable_uniques h.isIdentifier_name)
    (.cons hid (.cons hscope (.cons hpath (.cons hvalue
      (.cons Statement.isDefinition_uniqueConstraint .nil))))) rfl

theorem creates_index (h : schema.Accepted) (t : IndexTable) :
    Creates (((Layout.ofSchema s.naming schema).index t).table,
      Definition.createIndex s.dialect schema (Layout.ofSchema s.naming schema) t)
        ((Layout.ofSchema s.naming schema).index t) := by
  have hid := Statement.isDefinition_column Column.plain_structureId.definable
    (isType_id schema (.inr (.inl rfl)))
  have hpath := Statement.isDefinition_column (Layout.plain_index t Column.memberPath
    (by simp [Layout.indexColumns])).definable (isType_text (.inr (.inr rfl)))
  have hvalue := Statement.isDefinition_column (Layout.plain_index t Column.value
    (by simp [Layout.indexColumns])).definable (isType_value s.dialect t)
  rw [Definition.createIndex]
  cases ht : t.hasStringValue with
  | false =>
    refine creates_createTable (TableName.quotable_index h.isIdentifier_name t)
      (.cons hid (.cons hpath (.cons hvalue .nil))) ?_
    change _ = Layout.indexColumns t
    rw [Layout.indexColumns, ht]
    rfl
  | true =>
    have hstring := Statement.isDefinition_column (Layout.plain_index t Column.stringValue
      (by simp [Layout.indexColumns, ht])).definable (isType_text (.inr (.inl rfl)))
    refine creates_createTable (TableName.quotable_index h.isIdentifier_name t)
      (.cons hid (.cons hpath (.cons hvalue (.cons hstring .nil)))) ?_
    change _ = Layout.indexColumns t
    rw [Layout.indexColumns, ht]
    rfl

theorem creates_memberColumns (h : schema.Accepted)
    (hd : ∀ c ∈ Definition.memberColumns s.naming schema, Definable c.name) :
    Creates ((Layout.ofSchema s.naming schema).memberColumns.table,
      Definition.createMemberColumns s.dialect schema (Layout.ofSchema s.naming schema)
        (Definition.memberColumns s.naming schema))
          (Layout.ofSchema s.naming schema).memberColumns := by
  have hid := Statement.isDefinition_column Column.plain_structureId.definable
    (isType_id schema (.inl rfl))
  have hmembers := Statement.forall₂_sparse s.dialect hd
  refine creates_createTable (TableName.quotable_memberColumns h.isIdentifier_name)
    (.cons hid hmembers) ?_
  have hnames : ((Definition.memberColumns s.naming schema).map fun c => some c.name).filterMap
      id = schema.accessors.map fun a => s.naming a.path := by
    rw [Definition.memberColumns, List.map_map, List.filterMap_map]
    exact congrFun List.filterMap_eq_map schema.accessors
  exact congrArg (Column.structureId :: ·) hnames

theorem creates_wanted (h : schema.Accepted)
    (hd : ∀ c ∈ Definition.memberColumns s.naming schema, Definable c.name) :
    List.Forall₂ Creates (s.wanted schema) (Layout.ofSchema s.naming schema).tables := by
  have hindexes : List.Forall₂ Creates
      (IndexTable.all.map fun t => (((Layout.ofSchema s.naming schema).index t).table,
        Definition.createIndex s.dialect schema (Layout.ofSchema s.naming schema) t))
      (IndexTable.all.map (Layout.ofSchema s.naming schema).index) := by
    rw [List.forall₂_map_left_iff, List.forall₂_map_right_iff, List.forall₂_same]
    exact fun t _ => creates_index h t
  exact .cons (creates_body h) (.cons (creates_uniques h)
    (List.rel_append hindexes (.cons (creates_memberColumns h hd) .nil)))

section Supplied

variable {l : TableLayout} {layouts front back : List TableLayout} {name : String}
  {tables : String → Option Table}

def missing (layouts : List TableLayout) (tables : String → Option Table) : List String :=
  (layouts.filter fun l => (tables l.table).isNone).map TableLayout.table

/-- The tables that are there, and those of the layouts that are missing, without rows. -/
def supplied (layouts : List TableLayout) (tables : String → Option Table) (name : String) :
    Option Table :=
  (tables name).or ((layouts.find? fun l => l.table = name).map fun l => ⟨l.columns, []⟩)

theorem supplied_nil : supplied [] tables = tables :=
  funext fun _ => Option.or_none

theorem supplied_append :
    supplied (front ++ back) tables = supplied back (supplied front tables) := by
  funext name
  rw [supplied, supplied, supplied, List.find?_append, Option.map_or, Option.or_assoc]

theorem supplied_supplied :
    supplied layouts (supplied layouts tables) = supplied layouts tables := by
  funext name
  rw [supplied, supplied, Option.or_assoc, Option.or_self]

/-- Supplying some of the tables beforehand changes nothing. -/
theorem supplied_append_supplied :
    supplied (front ++ back) (supplied front tables) = supplied (front ++ back) tables := by
  rw [supplied_append, supplied_supplied, ← supplied_append]

theorem supplied_of_some {t : Table} (ht : tables name = some t) :
    supplied layouts tables name = some t := by
  rw [supplied, ht, Option.some_or]

theorem supplied_of_notMem (h : name ∉ layouts.map TableLayout.table) :
    supplied layouts tables name = tables name := by
  have hnone : (layouts.find? fun l => l.table = name) = none := by
    rw [List.find?_eq_none]
    intro l hl hname
    exact h (List.mem_map.2 ⟨l, hl, of_decide_eq_true hname⟩)
  rw [supplied, hnone, Option.map_none, Option.or_none]

theorem supplied_of_mem (hn : (layouts.map TableLayout.table).Nodup) (hl : l ∈ layouts) :
    supplied layouts tables l.table = some ((tables l.table).getD ⟨l.columns, []⟩) := by
  have hfind : (layouts.find? fun m => m.table = l.table) = some l := by
    induction layouts with
    | nil => cases hl
    | cons m layouts ih =>
      rw [List.map_cons, List.nodup_cons] at hn
      rcases List.mem_cons.1 hl with rfl | hl
      · rw [List.find?_cons_of_pos (by simp)]
      · have hne : m.table ≠ l.table := fun he => hn.1 (he ▸ List.mem_map_of_mem hl)
        rw [List.find?_cons_of_neg (by simpa using hne), ih hn.2 hl]
  rw [supplied, hfind]
  cases tables l.table <;> rfl

theorem supplied_cons_of_some {t : Table} (ht : tables l.table = some t) :
    supplied (l :: layouts) tables = supplied layouts tables := by
  have hone : supplied [l] tables = tables := by
    funext name
    by_cases hname : name = l.table
    · rw [hname, ht, supplied_of_some ht]
    · exact supplied_of_notMem (by simpa using hname)
  rw [← List.singleton_append, supplied_append, hone]

theorem supplied_cons_of_none (ht : tables l.table = none) : supplied (l :: layouts) tables =
    supplied layouts (Function.update tables l.table (some ⟨l.columns, []⟩)) := by
  have hone : supplied [l] tables = Function.update tables l.table (some ⟨l.columns, []⟩) := by
    funext name
    by_cases hname : name = l.table
    · rw [hname, supplied_of_mem (by simp) List.mem_cons_self, ht, Function.update_self]
      rfl
    · rw [supplied_of_notMem (by simpa using hname), Function.update_of_ne hname]
  rw [← List.singleton_append, supplied_append, hone]

theorem missing_cons_of_some {t : Table} (ht : tables l.table = some t) :
    missing (l :: layouts) tables = missing layouts tables := by
  rw [missing, List.filter_cons_of_neg (by simp [ht])]
  rfl

theorem missing_cons_of_none (ht : tables l.table = none)
    (hn : ((l :: layouts).map TableLayout.table).Nodup) (t : Table) :
    missing (l :: layouts) tables =
      l.table :: missing layouts (Function.update tables l.table (some t)) := by
  rw [List.map_cons, List.nodup_cons] at hn
  have hothers : layouts.filter (fun m => (tables m.table).isNone) =
      layouts.filter fun m => (Function.update tables l.table (some t) m.table).isNone := by
    refine List.filter_congr fun m hm => ?_
    have hne : m.table ≠ l.table := fun he => hn.1 (he ▸ List.mem_map_of_mem hm)
    rw [Function.update_of_ne hne]
  rw [missing, List.filter_cons_of_pos (by simp [ht]), List.map_cons, hothers]
  rfl

end Supplied

variable {wanted : List (String × Command)} {layouts : List TableLayout}

/-- Where no table fails, the missing ones are created in their order, and no other changes. -/
theorem createMissing_yields (hw : List.Forall₂ Creates wanted layouts)
    (hn : (layouts.map TableLayout.table).Nodup) (hf : ∀ l ∈ layouts, l.table ∉ db.failing) :
    (createMissing wanted).Yields db (missing layouts db.table?) (supplied layouts db.table?) := by
  induction hw generalizing db with
  | nil =>
    rw [supplied_nil]
    exact .pure [] db
  | @cons entry l wanted layouts hentry hw ih =>
    obtain ⟨table, command⟩ := entry
    obtain ⟨rfl, hcommand⟩ := hentry
    rw [List.forall_mem_cons] at hf
    have hn' := hn
    rw [List.map_cons, List.nodup_cons] at hn'
    have hexists := Database.tableExists_on hf.1
    cases ht : db.table? l.table with
    | some t =>
      rw [ht] at hexists
      rw [supplied_cons_of_some ht, missing_cons_of_some ht]
      exact .after hexists rfl (ih hn'.2 hf.2)
    | none =>
      rw [ht] at hexists
      obtain ⟨db', hon, hfail, htables⟩ := Database.create_yields hcommand hf.1 ht
      rw [supplied_cons_of_none ht, missing_cons_of_none ht hn ⟨l.columns, []⟩, ← htables]
      exact .after hexists rfl (.after hon hfail ((ih hn'.2 (hfail ▸ hf.2)).bind_pure _))

/-- Where a table fails, creation ends at the first one that does; those before it are supplied. -/
theorem createMissing_interrupted (hw : List.Forall₂ Creates wanted layouts)
    (hf : ∃ l ∈ layouts, l.table ∈ db.failing) :
    ∃ front l back e db', layouts = front ++ l :: back ∧
      (createMissing wanted).on db = (.error e, db') ∧ db'.failing = db.failing ∧
      db'.table? = supplied front db.table? := by
  induction hw generalizing db with
  | nil =>
    obtain ⟨_, hl, _⟩ := hf
    cases hl
  | @cons entry l wanted layouts hentry hw ih =>
    obtain ⟨table, command⟩ := entry
    obtain ⟨rfl, hcommand⟩ := hentry
    by_cases hfl : l.table ∈ db.failing
    · refine ⟨[], l, layouts, Error.tableUnavailable l.table, db, rfl, ?_, rfl, supplied_nil.symm⟩
      rw [createMissing, Action.on_bind, Database.tableExists_of_failing hfl]
    · have hrest : ∃ m ∈ layouts, m.table ∈ db.failing := by
        obtain ⟨m, hm, hfm⟩ := hf
        rcases List.mem_cons.1 hm with rfl | hm
        · exact absurd hfm hfl
        · exact ⟨m, hm, hfm⟩
      have hexists := Database.tableExists_on hfl
      cases ht : db.table? l.table with
      | some t =>
        obtain ⟨front, m, back, e, db', rfl, hon, hfail, htables⟩ := ih hrest
        refine ⟨l :: front, m, back, e, db', rfl, ?_, hfail, ?_⟩
        · rw [createMissing, Action.on_bind, hexists, ht]
          exact hon
        · rw [supplied_cons_of_some ht, htables]
      | none =>
        obtain ⟨db₁, hcreate, hfail₁, htables₁⟩ := Database.create_yields hcommand hfl ht
        obtain ⟨front, m, back, e, db', rfl, hon, hfail, htables⟩ := ih (hfail₁.symm ▸ hrest)
        refine ⟨l :: front, m, back, e, db', rfl, ?_, hfail.trans hfail₁, ?_⟩
        · rw [createMissing, Action.on_bind, hexists, ht]
          change (_ >>= _ : Action (List String)).on db = _
          rw [Action.on_bind, hcreate]
          dsimp only
          rw [Action.on_bind, hon]
        · rw [supplied_cons_of_none ht, ← htables₁, htables]

theorem nodup_tables (naming : ColumnNaming) (schema : Schema) :
    ((Layout.ofSchema naming schema).tables.map TableLayout.table).Nodup :=
  TableName.nodup_all schema.name

/-- A type without a table of member columns gets all of its tables, whatever it has of them. -/
theorem upsert_supplies {memo : SyncMemo} (h : schema.Accepted)
    (hd : ∀ c ∈ Definition.memberColumns s.naming schema, Definable c.name)
    (hmemo : schema.name ∉ memo)
    (hf : ∀ l ∈ (Layout.ofSchema s.naming schema).tables, l.table ∉ db.failing)
    (hnone : db.table? (TableName.memberColumns schema.name) = none) :
    (s.upsert memo schema).Yields db
      (⟨missing (Layout.ofSchema s.naming schema).tables db.table?, {}⟩, memo.mark schema.name)
      (supplied (Layout.ofSchema s.naming schema).tables db.table?) := by
  have hcreated := createMissing_yields (creates_wanted h hd) (nodup_tables s.naming schema) hf
  have hfail : TableName.memberColumns schema.name ∉ db.failing :=
    hf _ (Layout.ofSchema s.naming schema).memberColumns_mem_tables
  have hmissing : (Database.tableExists (TableName.memberColumns schema.name)).on db =
      (.ok false, db) := by
    rw [Database.tableExists_on hfail, hnone]
    rfl
  rw [upsert, if_neg (mt SyncMemo.isSynced_iff.1 hmemo)]
  exact .after hmissing rfl (hcreated.bind_pure _)

theorem upsert_yields {memo : SyncMemo} (h : schema.Accepted)
    (hd : ∀ c ∈ Definition.memberColumns s.naming schema, Definable c.name)
    (hmemo : schema.name ∉ memo)
    (hf : ∀ l ∈ (Layout.ofSchema s.naming schema).tables, l.table ∉ db.failing)
    (hnone : db.table? (TableName.memberColumns schema.name) = none) :
    ∃ created tables, (s.upsert memo schema).Yields db (⟨created, {}⟩, memo.mark schema.name)
      tables ∧
      ∀ l ∈ (Layout.ofSchema s.naming schema).tables,
        tables l.table = some ((db.table? l.table).getD ⟨l.columns, []⟩) :=
  ⟨_, _, upsert_supplies h hd hmemo hf hnone,
    fun _ hl => supplied_of_mem (nodup_tables s.naming schema) hl⟩

/-- An upsert creates the tables that are missing, in their order, if that of member columns is one
of them. Each new table has the columns of its layout in their order and no rows, and no other table
changes. -/
theorem upsert_creates_layouts {memo : SyncMemo} (dialect : Dialect) (maxLength : Nat)
    (h : schema.Accepted) (hmemo : schema.name ∉ memo) (hf : db.failing = [])
    (hnone : db.table? (TableName.memberColumns schema.name) = none) :
    let s : Synchronizer := ⟨dialect, ColumnName.ofPath maxLength⟩
    let layout := Layout.ofSchema s.naming schema
    layout.tables.map TableLayout.table = TableName.all schema.name ∧
      ∃ db', (s.upsert memo schema).on db =
          (.ok (⟨(TableName.all schema.name).filter fun name => (db.table? name).isNone, {}⟩,
            memo.mark schema.name), db') ∧
        (∀ l ∈ layout.tables, db.table? l.table = none →
          db'.table? l.table = some ⟨l.columns, []⟩) ∧
        ∀ name, db.table? name ≠ none ∨ name ∉ TableName.all schema.name →
          db'.table? name = db.table? name := by
  intro s layout
  have hall : layout.tables.map TableLayout.table = TableName.all schema.name := rfl
  have hcreated : missing layout.tables db.table? =
      (TableName.all schema.name).filter fun name => (db.table? name).isNone := by
    rw [missing, ← hall, List.filter_map]
    rfl
  obtain ⟨db', hon, -, htables⟩ := upsert_supplies (s := s) h
    ((ColumnName.isPlain_ofPath maxLength).definable_memberColumns h)
    hmemo (fun _ _ => hf ▸ List.not_mem_nil) hnone
  refine ⟨hall, db', hcreated ▸ hon, ?_, ?_⟩
  · intro l hl hmissing
    rw [htables, supplied_of_mem (nodup_tables s.naming schema) hl, hmissing]
    rfl
  · rintro name (hthere | hother)
    · obtain ⟨t, ht⟩ := Option.ne_none_iff_exists'.1 hthere
      rw [htables, supplied_of_some ht, ht]
    · rw [htables, supplied_of_notMem (hall ▸ hother)]

/-- Orders have a table of strings of another shape, which stays; a collection and a member whose
name is cut get their columns. -/
theorem upsert_creates_layouts_of_orders :
    let schema : Schema := ⟨"Order", ⟨"Id", .guid⟩,
      [⟨"Lines.Price", .fractal, none, false, true⟩,
        ⟨"Number", .integer, some .perType, false, false⟩,
        ⟨"Customer.Address", .text, none, false, false⟩]⟩
    let s : Synchronizer := ⟨.rowNumber, ColumnName.ofPath 12⟩
    let strings : Table := ⟨["Value"], [[.string "a"]]⟩
    let db : Database := { tables := [("OrderStrings", strings)] }
    ∃ db', (s.upsert [] schema).on db = (.ok (⟨["OrderStructure", "OrderUniques", "OrderIntegers",
        "OrderFractals", "OrderBooleans", "OrderDates", "OrderGuids", "OrderTexts", "OrderIndexes"],
        {}⟩, ["Order"]), db') ∧
      db'.table? "OrderTexts" =
        some ⟨["StructureId", "MemberPath", "Value", "StringValue"], []⟩ ∧
      db'.table? "OrderIndexes" =
        some ⟨["StructureId", "Lines_Price", "Number", "Cus_a9eb18d0"], []⟩ ∧
      db'.table? "OrderStrings" = some strings := by
  intro schema s strings db
  have haccepted : schema.Accepted := by decide +kernel
  have hmissing : db.table? (TableName.memberColumns schema.name) = none := by decide +kernel
  have hstrings : db.table? "OrderStrings" = some strings := by decide +kernel
  obtain ⟨-, db', hon, hcreated, hkept⟩ := upsert_creates_layouts .rowNumber 12 haccepted
    List.not_mem_nil rfl hmissing
  have hindexes := hcreated _ (Layout.memberColumns_mem_tables _) hmissing
  refine ⟨db', ?_, hcreated _ (Layout.index_mem_tables _ .texts) (by decide +kernel), ?_, ?_⟩
  · have hnames : (TableName.all schema.name).filter (fun name => (db.table? name).isNone) =
        ["OrderStructure", "OrderUniques", "OrderIntegers", "OrderFractals", "OrderBooleans",
          "OrderDates", "OrderGuids", "OrderTexts", "OrderIndexes"] := by decide +kernel
    rw [hon, hnames]
    rfl
  · exact hindexes.trans (by decide +kernel)
  · exact (hkept "OrderStrings" (.inl (by rw [hstrings]; exact nofun))).trans hstrings

end Synchronizer

end DocStore
