import DocStore.Proofs.Query.Joined
import DocStore.Proofs.Sync.Creation

/-!
# Agreement of writing and querying

The writer and the compiler of queries choose tables and columns independently of each other. The
from clause of a query over a batch that was written to new tables has one row per structure, with
the whole value of each member under the column that the query reads.
-/

namespace DocStore

open CompiledQuery Compiler

variable {schema : Schema} {structures : List Structure} {s : Structure} {db : Database}
  {members : List MemberColumn} {m : MemberColumn}

/-- A member of the schema has one entry, which holds its value. -/
theorem Structure.exists_entry (h : schema.Accepted) (hb : s.IsBuilt schema)
    (hm : IsMember schema m) : ∃ entry ∈ s.indexes,
      (∀ other ∈ s.indexes, other.path = m.path ↔ other = entry) ∧
        s.value m.path = entry.value := by
  obtain ⟨a, ha, hpath, _⟩ := hm
  obtain ⟨entry, _, hfilter⟩ := filter_path hb.indexes h.nodup_paths ha
  rw [hpath] at hfilter
  have hiff : ∀ other, other ∈ s.indexes ∧ other.path = m.path ↔ other = entry := by
    intro other
    rw [← List.mem_singleton (b := entry), ← hfilter, List.mem_filter, decide_eq_true_eq]
  have hentry := (hiff entry).2 rfl
  refine ⟨entry, hentry.1, ?_, ?_⟩
  · intro other hother
    rw [← hiff other, and_iff_right hother]
  · rw [value, index?, find?_of_filter hfilter]

theorem CompiledQuery.lookup_rowOf
    (hn : (reserved ++ members.map MemberColumn.aliasName).Nodup) (hm : m ∈ members) :
    (rowOf members s).lookup m.aliasName = some (s.value m.path) := by
  have hnames : (rowOf members s).map Prod.fst =
      [Column.structureId, Column.json] ++ members.map MemberColumn.aliasName := by
    simp [rowOf]
  have hsub : [Column.structureId, Column.json].Sublist reserved :=
    (List.nil_sublist [Column.rowNumber]).append_left [Column.structureId, Column.json]
  refine lookup_of_mem ?_ ?_
  · rw [hnames]
    exact hn.sublist (hsub.append_right _)
  · have hin : (m.aliasName, s.value m.path) ∈
        members.map fun m => (m.aliasName, s.value m.path) := List.mem_map_of_mem hm
    exact List.mem_cons_of_mem _ (List.mem_cons_of_mem _ hin)

theorem Database.isNew_of_tables {layout : Layout} (hf : db.failing = [])
    (h : ∀ l ∈ layout.tables, db.table? l.table = some ⟨l.columns, []⟩) : db.IsNew layout := by
  have hholds : ∀ l ∈ layout.tables, db.Holds l := by
    intro l hl
    refine ⟨?_, _, h l hl, fun c hc => hc⟩
    rw [hf]
    exact List.not_mem_nil
  refine ⟨holdsType_of_tables hholds, h _ layout.body_mem_tables, ?_⟩
  intro table t ht
  rw [h _ (layout.index_mem_tables table)] at ht
  rw [← Option.some.inj ht]

/-- A type is new after it was upserted to an empty database. -/
theorem Synchronizer.isNew_of_upsert {s : Synchronizer} (hn : s.naming.IsPlain)
    (h : schema.Accepted) : ∃ outcome db, (s.upsert [] schema).on .empty =
      (.ok outcome, db) ∧ db.IsNew (Layout.ofSchema s.naming schema) := by
  have hnone : Database.empty.table? (TableName.memberColumns schema.name) = none := rfl
  obtain ⟨_, tables, ⟨db, hon, hf, htables⟩, hall⟩ :=
    upsert_yields h (hn.definable_memberColumns h) List.not_mem_nil
      (fun _ _ => List.not_mem_nil) hnone
  refine ⟨_, db, hon, db.isNew_of_tables hf ?_⟩
  intro l hl
  rw [htables, hall l hl]
  rfl

namespace Writer

/-- What is written to new tables is what a compiled query reads: one row per structure, and in the
column of each member that the query refers to the whole value of its entry. The name of the column
tells it from the others, as every search for an alias ends at a free one. -/
theorem insert_agrees_with_source {w : Writer} {cache : LayoutCache} {naming : ColumnNaming}
    {query : Query} {compiled : CompiledQuery} (hn : w.naming.IsPlain) (h : schema.Accepted)
    (hcache : cache.Faithful w.naming) (hdb : db.IsNew (Layout.ofSchema w.naming schema))
    (hb : ∀ s ∈ structures, s.IsBuilt schema) (hids : (structures.map Structure.id).Nodup)
    (hquery : query.compile naming schema = .ok compiled) :
    compiled.Refers query ∧ ∃ stats db' clause,
      (w.insert cache schema structures).1.on db = (.ok stats, db') ∧
      FromClause.ofText? (compiled.source schema.name false).render = some clause ∧
      clause.rows? db' = some (structures.map (rowOf compiled.members)) ∧
      ∀ s ∈ structures, ∀ m ∈ compiled.members, ∃ entry ∈ s.indexes,
        (∀ other ∈ s.indexes, other.path = m.path ↔ other = entry) ∧
        s.value m.path = entry.value ∧
        (FindsAliases naming compiled.members →
          (rowOf compiled.members s).lookup m.aliasName = some entry.value) := by
  obtain ⟨hcollected, hrefers⟩ := Query.compile_refers hquery
  have hmembers : ∀ m ∈ compiled.members, IsMember schema m := hcollected.table_eq
  obtain ⟨stats, db', hon, hstores⟩ := insert_stores hn h hcache hdb structures
  refine ⟨hrefers, stats, db', _, hon, ofText?_source compiled schema.name,
    rows?_fromClause h hb hids hstores hmembers, ?_⟩
  intro s hs m hm
  obtain ⟨entry, hentry, honly, hvalue⟩ := Structure.exists_entry h (hb s hs) (hmembers m hm)
  refine ⟨entry, hentry, honly, hvalue, ?_⟩
  intro hfinds
  rw [lookup_rowOf (hcollected.nodup_aliases hfinds) hm, hvalue]

/-- Strings are cut to three characters, a member has the name of a column of its own, and the
second order has neither a total nor tags. -/
theorem insert_agrees_with_source_of_orders :
    let schema : Schema := ⟨"Order", ⟨"Id", .identity⟩, [⟨"Json", .string, none, false, false⟩,
      ⟨"Total", .integer, none, false, false⟩, ⟨"Tags", .string, none, true, false⟩]⟩
    let ref : String → Family → MemberRef := fun path family =>
      ⟨path, none, some family, false, false⟩
    let query : Query := {
      structureName := "Order"
      predicate := [.member (ref "Tags" .string), .operator .like, .value (.string "%iron%"),
        .operator .or, .member (ref "Json" .string), .operator .isNot, .null]
      sortings := [⟨ref "Total" .integer, .desc⟩] }
    let entry : Int64 → String → Value → Family → IndexEntry := fun id path value family =>
      ⟨.identity id, path, value, family, none⟩
    let first : Structure := ⟨.identity 1, "Order", "first",
      [entry 1 "Json" (.string "anvil") .string, entry 1 "Total" (.integer 7) .integer,
        entry 1 "Tags" (.string "<$iron$><$tool$>") .string]⟩
    let second : Structure := ⟨.identity 2, "Order", "second",
      [entry 2 "Json" (.string "rope") .string, entry 2 "Total" .null .integer,
        entry 2 "Tags" .null .string]⟩
    let naming := ColumnName.ofPath 128
    ∃ outcome db stats db' compiled clause,
      (Synchronizer.upsert ⟨.offsetFetch, naming⟩ [] schema).on .empty = (.ok outcome, db) ∧
      query.compile naming schema = .ok compiled ∧ compiled.Refers query ∧
      (Writer.insert ⟨naming, 10, 3⟩ .empty schema [first, second]).1.on db = (.ok stats, db') ∧
      FromClause.ofText? (compiled.source "Order" false).render = some clause ∧
      clause.rows? db' = some [
        [("StructureId", .integer 1), ("Json", .string "first"),
          ("Tags", .string "<$iron$><$tool$>"), ("Json_1", .string "anvil"), ("Total", .integer 7)],
        [("StructureId", .integer 2), ("Json", .string "second"), ("Tags", .null),
          ("Json_1", .string "rope"), ("Total", .null)]] ∧
      (rowOf compiled.members first).lookup "Json_1" = some (.string "anvil") := by
  intro schema ref query entry first second naming
  have hschema : schema.Accepted := by decide +kernel
  have hplain : naming.IsPlain := ColumnName.isPlain_ofPath 128
  have hfirst : first.IsBuilt schema :=
    ⟨fun _ => .ok "first", .ok (.object [("Id", .integer 1), ("Json", .string "anvil"),
      ("Tags", .array [.string "iron", .string "tool"]), ("Total", .integer 7)]), none, default,
      by decide +kernel⟩
  have hsecond : second.IsBuilt schema :=
    ⟨fun _ => .ok "second", .ok (.object [("Id", .integer 2), ("Json", .string "rope")]), none,
      default, by decide +kernel⟩
  have hbuilt : ∀ s ∈ [first, second], s.IsBuilt schema := by
    intro s hs
    rcases List.mem_pair.1 hs with rfl | rfl
    · exact hfirst
    · exact hsecond
  obtain ⟨outcome, db, hon, hnew⟩ :=
    Synchronizer.isNew_of_upsert (s := ⟨.offsetFetch, naming⟩) hplain hschema
  let members : List MemberColumn :=
    [⟨"Tags", "Tags", .strings⟩, ⟨"Json", "Json_1", .strings⟩, ⟨"Total", "Total", .integers⟩]
  let compiled : CompiledQuery := ⟨members,
    [.column (.aliased "Tags"), .operator .like, .parameter 0, .operator .or,
      .column (.aliased "Json_1"), .operator .isNot, .null],
    [(.aliased "Total", .desc)], [], [.string "%iron%"]⟩
  have hcompiled : query.compile naming schema = .ok compiled := by decide +kernel
  obtain ⟨hrefers, stats, db', clause, hinsert, hclause, hrows, hvalues⟩ :=
    insert_agrees_with_source (w := ⟨naming, 10, 3⟩) hplain hschema
      (LayoutCache.faithful_empty naming) hnew hbuilt (by decide) hcompiled
  refine ⟨outcome, db, stats, db', compiled, clause, hon, hcompiled, hrefers, hinsert, hclause,
    hrows, ?_⟩
  have hjson : ⟨"Json", "Json_1", .strings⟩ ∈ compiled.members := by decide
  obtain ⟨found, _, honly, _, hlookup⟩ := hvalues first (by decide) _ hjson
  have hfound : entry 1 "Json" (.string "anvil") .string = found :=
    (honly _ (by decide)).1 rfl
  rw [hlookup (by decide +kernel), ← hfound]

end Writer

end DocStore
