import DocStore.Proofs.Database.Locality
import DocStore.Proofs.Schema.LayoutCache
import DocStore.Proofs.Sync.Creation

/-!
# Isolation of structure types

What is done for a structure type reads and changes its own ten tables only, whatever comes of it;
and two types of different names have no table in common.
-/

namespace DocStore

open Database Statement

namespace Synchronizer

variable {s : Synchronizer} {schema : Schema}

/-- Every wanted table is one of the type, with a statement that creates a table of that name. -/
theorem exists_createTable_of_mem_wanted {entry : String × Command} (he : entry ∈ s.wanted schema) :
    entry.1 ∈ TableName.all schema.name ∧
      ∃ definitions, entry.2 = Definition.createTable entry.1 definitions := by
  simp only [wanted, List.cons_append, List.mem_cons, List.mem_append, List.mem_map,
    List.not_mem_nil, or_false] at he
  simp only [TableName.all, List.cons_append, List.mem_cons, List.mem_append, List.mem_map,
    List.not_mem_nil, or_false]
  rcases he with rfl | rfl | ⟨t, ht, rfl⟩ | rfl
  · exact ⟨.inl rfl, _, rfl⟩
  · exact ⟨.inr (.inl rfl), _, rfl⟩
  · exact ⟨.inr (.inr (.inl ⟨t, ht, rfl⟩)), _, rfl⟩
  · exact ⟨.inr (.inr (.inr rfl)), _, rfl⟩

theorem createMissing_local {wanted : List (String × Command)} {names : List String}
    (h : ∀ entry ∈ wanted, entry.1 ∈ names ∧ Addresses entry.2.sql entry.1) :
    (createMissing wanted).Local names := by
  induction wanted with
  | nil => exact .pure []
  | cons entry wanted ih =>
    rw [List.forall_mem_cons] at h
    obtain ⟨⟨hn, haddresses⟩, hrest⟩ := h
    refine .bind (tableExists_local hn) fun there => ?_
    cases there with
    | true => exact ih hrest
    | false =>
      exact .bind (execute_local hn haddresses) fun _ => .bind (ih hrest) fun _ => .pure _

theorem memberColumns_mem_all (name : String) :
    TableName.memberColumns name ∈ TableName.all name :=
  List.mem_append_right _ List.mem_cons_self

theorem uniques_mem_all (name : String) : TableName.uniques name ∈ TableName.all name :=
  List.mem_cons_of_mem _ List.mem_cons_self

variable (h : schema.Accepted)

include h

theorem createMissing_wanted_local :
    (createMissing (s.wanted schema)).Local (TableName.all schema.name) := by
  refine createMissing_local fun entry he => ?_
  obtain ⟨hn, definitions, hdefinitions⟩ := exists_createTable_of_mem_wanted he
  refine ⟨hn, ?_⟩
  rw [hdefinitions]
  exact addresses_createTable (TableName.quotable_of_mem_all h.isIdentifier_name hn) definitions

theorem plan_local : (s.plan schema).Local (TableName.all schema.name) := by
  have hn := uniques_mem_all schema.name
  have hobsolete : (obsoleteUniques schema).Local (TableName.all schema.name) := by
    refine .bind (tableExists_local hn) fun there => ?_
    cases there with
    | true =>
      refine .bind (queryColumn_local hn (selectDistinct?_storedUniquePaths ?_)) fun _ => .pure _
      exact TableName.quotable_uniques h.isIdentifier_name
    | false => exact .pure []
  exact .bind (columnNames_local (memberColumns_mem_all schema.name)) fun _ =>
    .bind hobsolete fun _ => .pure _

theorem apply_local (plan : SyncPlan) :
    (s.apply schema plan).Local (TableName.all schema.name) := by
  have hcolumns : (executeBatch (plan.columnCommands s.dialect
      (TableName.memberColumns schema.name))).Local (TableName.all schema.name) := by
    have hq := TableName.quotable_memberColumns h.isIdentifier_name
    refine executeBatch_local fun command hc => ?_
    refine execute_local (memberColumns_mem_all schema.name) ?_
    rw [SyncPlan.columnCommands, List.mem_append] at hc
    rcases hc with hc | hc <;> split at hc
    · cases hc
    · obtain rfl := List.mem_singleton.1 hc
      exact addresses_dropColumns hq _
    · cases hc
    · obtain rfl := List.mem_singleton.1 hc
      exact addresses_addColumns hq _ _
  have huniques : (executeBatch (plan.uniqueCommands (TableName.uniques schema.name))).Local
      (TableName.all schema.name) := by
    have hq := TableName.quotable_uniques h.isIdentifier_name
    refine executeBatch_local fun command hc => ?_
    obtain ⟨path, -, rfl⟩ := List.mem_map.1 hc
    exact execute_local (uniques_mem_all schema.name) (addresses_deleteUniqueRows hq path)
  exact .bind hcolumns fun _ => .bind huniques fun _ => .pure _

theorem synchronize_local (memo : SyncMemo) :
    (s.synchronize memo schema).Local (TableName.all schema.name) := by
  rw [synchronize]
  split
  · exact .pure _
  · refine .bind (tableExists_local (memberColumns_mem_all schema.name)) fun there => ?_
    cases there with
    | true => exact .bind (plan_local h) fun plan => .bind (apply_local h plan) fun _ => .pure _
    | false => exact .pure _

theorem upsert_local (memo : SyncMemo) :
    (s.upsert memo schema).Local (TableName.all schema.name) := by
  rw [upsert]
  split
  · exact .pure _
  · refine .bind (tableExists_local (memberColumns_mem_all schema.name)) fun existed => ?_
    refine .bind (createMissing_wanted_local h) fun created => ?_
    cases existed with
    | true => exact .bind (synchronize_local h memo) fun _ => .pure _
    | false => exact .pure _

end Synchronizer

namespace Writer

variable {w : Writer} {schema : Schema} {names : List String}

theorem writeGroup_local {source : RowSource} (hn : source.table ∈ names)
    (hq : Quotable source.table) : (w.writeGroup source).Local names := by
  have hinsert : (insertOne source).Local names :=
    .bind (.ofExcept _) fun _ => execute_local hn (addresses_insertRow hq _ _)
  rw [writeGroup]
  split
  · exact .bind (bulkCopy_local hn _ _ _) fun _ => .pure _
  · exact .bind hinsert fun _ => .pure _

theorem writeGroups_local {sources : List RowSource}
    (h : ∀ source ∈ sources, source.table ∈ names ∧ Quotable source.table) :
    (w.writeGroups sources).Local names := by
  induction sources with
  | nil => exact .pure []
  | cons source sources ih =>
    rw [List.forall_mem_cons] at h
    exact .bind (writeGroup_local h.1.1 h.1.2) fun _ => .bind (ih h.2) fun _ => .pure _

theorem table_of_mem_groups {naming : ColumnNaming} {structures : List Structure}
    {source : RowSource}
    (hs : source ∈ w.groups (Layout.ofSchema naming schema) schema structures) :
    source.table ∈ TableName.all schema.name := by
  have hlayout : ∀ l ∈ (Layout.ofSchema naming schema).tables,
      l.table ∈ TableName.all schema.name := fun l hl => List.mem_map_of_mem hl
  obtain rfl | ⟨t, _, rfl⟩ | ⟨_, rfl⟩ | ⟨_, rfl⟩ := cases_of_mem_groups hs
  · exact hlayout _ (Layout.body_mem_tables _)
  · exact hlayout _ (Layout.index_mem_tables _ t)
  · exact hlayout _ (Layout.uniques_mem_tables _)
  · exact hlayout _ (Layout.memberColumns_mem_tables _)

theorem insert_local {cache : LayoutCache} (h : schema.Accepted) (hcache : cache.Coherent)
    (structures : List Structure) :
    (w.insert cache schema structures).1.Local (TableName.all schema.name) := by
  obtain ⟨⟨naming, hlayout⟩, -⟩ := hcache.getOrCreate w.naming schema
  rw [insert]
  split
  · exact .pure _
  · dsimp only
    rw [hlayout]
    refine .bind (writeGroups_local fun source hs => ?_) fun _ => .pure _
    have hn := table_of_mem_groups hs
    exact ⟨hn, TableName.quotable_of_mem_all h.isIdentifier_name hn⟩

theorem insert_coherent {cache : LayoutCache} (hcache : cache.Coherent)
    (structures : List Structure) : (w.insert cache schema structures).2.Coherent := by
  rw [insert]
  split
  · exact hcache
  · exact (hcache.getOrCreate w.naming schema).2

end Writer

/-- The ten tables of a type have different names, and none of them is a table of a type of another
name. Whatever is upserted, synchronized or inserted for a type, and whether it succeeds or fails,
the tables of the other type stay as they are. Writers may share the cache that they leave. -/
theorem types_isolated {schema other : Schema} (h : schema.Accepted)
    (hne : schema.name ≠ other.name) :
    (TableName.all schema.name).Nodup ∧
      (TableName.all schema.name).Disjoint (TableName.all other.name) ∧
      ∀ (db : Database), ∀ name ∈ TableName.all other.name,
        (∀ (s : Synchronizer) (memo : SyncMemo),
          ((s.upsert memo schema).on db).2.table? name = db.table? name ∧
            ((s.synchronize memo schema).on db).2.table? name = db.table? name) ∧
        ∀ (w : Writer) (cache : LayoutCache) (structures : List Structure), cache.Coherent →
          (w.insert cache schema structures).2.Coherent ∧
            ((w.insert cache schema structures).1.on db).2.table? name = db.table? name := by
  have hdisjoint := TableName.disjoint_all hne
  refine ⟨TableName.nodup_all schema.name, hdisjoint, fun db name hname => ?_⟩
  have hforeign : name ∉ TableName.all schema.name := fun hown => hdisjoint hown hname
  refine ⟨fun s memo => ⟨?_, ?_⟩, fun w cache structures hcache => ⟨?_, ?_⟩⟩
  · exact (Synchronizer.upsert_local h memo).frame db name hforeign
  · exact (Synchronizer.synchronize_local h memo).frame db name hforeign
  · exact Writer.insert_coherent hcache structures
  · exact (Writer.insert_local h hcache structures).frame db name hforeign

/-- One type has the name of a table of the other; the upsert of that other one is interrupted, and
the first one's bodies stay. -/
theorem types_isolated_of_orders :
    let order : Schema := ⟨"Order", ⟨"Id", .identity⟩, [⟨"Total", .integer, none, false, false⟩]⟩
    let strings : Schema := ⟨"OrderStrings", ⟨"Id", .guid⟩, []⟩
    let s : Synchronizer := ⟨.rowNumber, ColumnName.ofPath 128⟩
    let bodies : Table := ⟨["StructureId", "Json"], [[.string "a", .string "b"]]⟩
    let db : Database :=
      { tables := [("OrderStringsStructure", bodies)], failing := ["OrderUniques"] }
    TableName.index order.name .strings = strings.name ∧
      (TableName.all order.name).Disjoint (TableName.all strings.name) ∧
      ((s.upsert [] order).on db).1.toOption = none ∧
      ((s.upsert [] order).on db).2.table? "OrderStringsStructure" = some bodies := by
  intro order strings s bodies db
  have haccepted : order.Accepted := by decide +kernel
  have hne : order.name ≠ strings.name := by decide
  obtain ⟨-, hdisjoint, hframe⟩ := types_isolated haccepted hne
  obtain ⟨hupsert, -⟩ := hframe db "OrderStringsStructure" (by decide)
  refine ⟨rfl, hdisjoint, by decide +kernel, (hupsert s []).1.trans (by decide +kernel)⟩

end DocStore
