import DocStore.Proofs.Sql.References
import DocStore.Proofs.Sql.Source
import DocStore.Proofs.Writer.Indexed

/-!
# Rows of the derived table

The from clause of a query is evaluated over what a batch has stored: the joins add one source per
member to the row of a structure, and none of them multiplies or drops a row.
-/

namespace DocStore

open Table (under)

theorem mapM_map {α β γ : Type} {f : β → Option γ} {g : α → β} {h : α → γ} {items : List α}
    (hf : ∀ a ∈ items, f (g a) = some (h a)) : (items.map g).mapM f = some (items.map h) := by
  induction items with
  | nil => rfl
  | cons a items ih =>
    rw [List.forall_mem_cons] at hf
    rw [List.map_cons, List.mapM_cons, hf.1, ih hf.2]
    rfl

theorem lookup_of_mem {α : Type} {pairs : List (String × α)} {k : String} {a : α}
    (hn : (pairs.map Prod.fst).Nodup) (h : (k, a) ∈ pairs) : pairs.lookup k = some a := by
  induction pairs with
  | nil => cases h
  | cons p pairs ih =>
    obtain ⟨l, b⟩ := p
    rw [List.map_cons, List.nodup_cons] at hn
    rcases List.mem_cons.1 h with he | h
    · obtain ⟨rfl, rfl⟩ := Prod.mk.inj he
      simp
    · have hne : k ≠ l := fun hk => hn.1 (List.mem_map.2 ⟨(k, a), h, hk⟩)
      rw [Table.lookup_ne hne, ih hn.2 h]

namespace FromClause

variable {α β : Type} {db : Database} {scope : Scope}

theorem meeting?_map {items : List α} {row : α → List Value} {condition : List Value → Option Bool}
    {meets : α → Bool} (h : ∀ a ∈ items, condition (row a) = some (meets a)) :
    meeting? condition (items.map row) = some ((items.filter meets).map row) := by
  induction items with
  | nil => rfl
  | cons a items ih =>
    rw [List.forall_mem_cons] at h
    rw [List.map_cons, meeting?, h.1, ih h.2, List.filter_cons]
    dsimp only
    split <;> rfl

/-- Joins that find at most one partner add a source to every row and keep all of them. -/
theorem joinAll?_map {items : List α} {joins : List β} {join : β → LeftJoin} {start : α → Scope}
    {partner : β → α → String × List String × Option (List Value)} (keeps : α → Scope → Prop)
    (hstart : ∀ a ∈ items, keeps a (start a))
    (hjoin : ∀ b ∈ joins, ∀ a ∈ items, ∀ scope, keeps a scope →
      joined? db (join b) scope = some [partner b a :: scope] ∧
        keeps a (partner b a :: scope)) :
    joinAll? db (joins.map join) (items.map start) = some (items.map fun a =>
      (joins.map fun b => partner b a).reverse ++ start a) := by
  -- `keeps` is what every join needs to find its columns, and what it has to leave behind.
  induction joins generalizing start with
  | nil => rfl
  | cons b joins ih =>
    rw [List.forall_mem_cons] at hjoin
    have hnext : (items.map start).mapM (joined? db (join b)) =
        some (items.map fun a => [partner b a :: start a]) :=
      mapM_map fun a ha => (hjoin.1 a ha _ (hstart a ha)).1
    have hflat : (items.map fun a => [partner b a :: start a]).flatten =
        items.map fun a => partner b a :: start a := by
      rw [← List.flatMap_def]
      exact List.map_eq_flatMap.symm
    rw [List.map_cons, joinAll?, hnext, Option.bind_eq_bind, Option.bind_some, hflat,
      ih (fun a ha => (hjoin.1 a ha _ (hstart a ha)).2) hjoin.2]
    refine congrArg some (List.map_congr_left fun a _ => ?_)
    rw [List.map_cons, List.reverse_cons, List.append_assoc, List.singleton_append]

theorem value?_cons_self {source c : String} {columns : List String} {row : Option (List Value)}
    (hc : c ∈ columns) :
    Scope.value? ((source, columns, row) :: scope) ⟨source, c⟩ = some (valueOf columns c row) := by
  simp [Scope.value?, hc]

theorem equal_toValue (id other : StructureId) :
    equal id.toValue other.toValue = decide (id = other) := by
  cases id <;> cases other <;>
    simp [equal, StructureId.toValue, Value.same, Value.isNull, beq_eq_decide]

theorem equal_string (s t : String) : equal (.string s) (.string t) = decide (s = t) := by
  simp [equal, Value.same, Value.isNull, beq_eq_decide]

end FromClause

namespace CompiledQuery

open FromClause Structure Writer

variable {schema : Schema} {structures : List Structure} {s : Structure} {db : Database}
  {maxLength : Nat} {t : Table} {m : MemberColumn × Nat} {scope : Scope} {entry : IndexEntry}

theorem memberSource_ne_s (i : Nat) : memberSource i ≠ "s" := by
  intro h
  have hl := congrArg String.toList h
  simp [memberSource] at hl

theorem memberSource_injective {i j : Nat} (h : memberSource i = memberSource j) : i = j :=
  numbered_inj h

def HasBody (s : Structure) (scope : Scope) : Prop :=
  scope.lookup "s" =
    some ([Column.structureId, Column.json], some [s.id.toValue, .string s.body])

/-- A row of an index table is joined where it is the row of the structure and the member. -/
theorem holds?_indexRow (ht : ∀ c ∈ Layout.indexColumns m.1.table, c ∈ t.columns)
    (hs : HasBody s scope) (structureName : String) :
    holds? (leftJoin structureName m) ((memberSource m.2, t.columns,
      some (indexRow maxLength m.1.table t entry)) :: scope) =
        some (decide (entry.id = s.id ∧ entry.path = m.1.path)) := by
  have hid : Column.structureId ∈ t.columns := ht _ (by simp [Layout.indexColumns])
  have hpath : Column.memberPath ∈ t.columns := ht _ (by simp [Layout.indexColumns])
  have hbody : Scope.value? ((memberSource m.2, t.columns,
      some (indexRow maxLength m.1.table t entry)) :: scope) ⟨"s", Column.structureId⟩ =
        some s.id.toValue := by
    rw [Scope.value?, Table.lookup_ne (memberSource_ne_s m.2).symm, hs]
    rfl
  rw [holds?, leftJoin]
  dsimp only
  rw [value?_cons_self hid, hbody, value?_cons_self hpath]
  dsimp only [valueOf]
  rw [under_structureId ht, under_memberPath ht, equal_toValue, equal_string, Bool.decide_and]

/-- The source that the join of a member adds to the row of a structure. -/
def partner (maxLength : Nat) (tables : IndexTable → Table) (m : MemberColumn × Nat)
    (s : Structure) : String × List String × Option (List Value) :=
  (memberSource m.2, (tables m.1.table).columns,
    ((s.index? m.1.path).filter fun entry => !entry.value.isNull).map
      (indexRow maxLength m.1.table (tables m.1.table)))

def IsMember (schema : Schema) (m : MemberColumn) : Prop :=
  ∃ a ∈ schema.accessors, a.path = m.path ∧ m.table = a.storageFamily.indexTable

variable {tables : IndexTable → Table}

/-- The join finds the row of the structure and the member, if there is one. -/
theorem joined?_leftJoin (h : schema.Accepted) (hb : ∀ s ∈ structures, s.IsBuilt schema)
    (hn : (structures.map Structure.id).Nodup) (hs : s ∈ structures) (hm : IsMember schema m.1)
    (ht : ∀ c ∈ Layout.indexColumns m.1.table, c ∈ (tables m.1.table).columns)
    (hdb : db.table? (TableName.index schema.name m.1.table) =
      some ⟨(tables m.1.table).columns, (entriesOf m.1.table structures).map
        (indexRow maxLength m.1.table (tables m.1.table))⟩) (hbody : HasBody s scope) :
    joined? db (leftJoin schema.name m) scope = some [partner maxLength tables m s :: scope] := by
  obtain ⟨a, ha, hpath, htable⟩ := hm
  obtain ⟨entry, _, hindex, hfilter⟩ := filter_entriesOf h hb hn hs ha
  rw [← htable, hpath] at hfilter
  rw [hpath] at hindex
  have hmeeting : meeting? (fun row => holds? (leftJoin schema.name m)
      ((memberSource m.2, (tables m.1.table).columns, some row) :: scope))
      ((entriesOf m.1.table structures).map (indexRow maxLength m.1.table (tables m.1.table))) =
      some (((entriesOf m.1.table structures).filter fun e =>
        e.id = s.id ∧ e.path = m.1.path).map
          (indexRow maxLength m.1.table (tables m.1.table))) :=
    meeting?_map fun e _ => holds?_indexRow ht hbody schema.name
  rw [joined?]
  simp only [leftJoin] at hmeeting ⊢
  rw [hdb, Option.bind_eq_bind, Option.bind_some]
  dsimp only
  rw [hmeeting, Option.bind_eq_bind, Option.bind_some, hfilter, partner, hindex]
  cases hnull : entry.value.isNull <;> simp [Option.filter, hnull]

/-- Read through the join, the member has its whole value. -/
theorem valueOf_partner (h : schema.Accepted) (hb : s.IsBuilt schema) (hm : IsMember schema m.1)
    (ht : ∀ c ∈ Layout.indexColumns m.1.table, c ∈ (tables m.1.table).columns) :
    valueOf (tables m.1.table).columns m.1.valueColumn (partner maxLength tables m s).2.2 =
      s.value m.1.path := by
  obtain ⟨a, ha, hpath, htable⟩ := hm
  obtain ⟨entry, hentry, hfilter⟩ := filter_path hb.indexes h.nodup_paths ha
  have hindex : s.index? m.1.path = some entry := hpath ▸ find?_of_filter hfilter
  rw [partner, Structure.value, hindex]
  cases hnull : entry.value.isNull with
  | true =>
    have hvalue : entry.value = .null := (Value.isNull_iff _).1 hnull
    simp [Option.filter, hvalue, valueOf, Value.isNull]
  | false =>
    have hwhole := hentry.whole
    rw [hentry.table, ← htable] at hwhole
    simp only [Option.filter, hnull, Bool.not_false, if_true, Option.map_some, valueOf,
      MemberColumn.valueColumn]
    exact under_valueColumn ht fun htext => hwhole htext maxLength

def rowOf (members : List MemberColumn) (s : Structure) : List (String × Value) :=
  (Column.structureId, s.id.toValue) :: (Column.json, .string s.body) ::
    members.map fun m => (m.aliasName, s.value m.path)

def scopeOf (maxLength : Nat) (tables : IndexTable → Table) (members : List (MemberColumn × Nat))
    (s : Structure) : Scope :=
  (members.map fun m => partner maxLength tables m s).reverse ++
    [("s", [Column.structureId, Column.json], some [s.id.toValue, .string s.body])]

theorem hasBody_scopeOf (members : List (MemberColumn × Nat)) :
    HasBody s (scopeOf maxLength tables members s) := by
  have hnone : (members.map fun m => partner maxLength tables m s).reverse.lookup "s" = none := by
    rw [List.lookup_eq_none_iff]
    intro p hp
    obtain ⟨m, _, rfl⟩ := List.mem_map.1 (List.mem_reverse.1 hp)
    simpa [partner] using (memberSource_ne_s m.2).symm
  rw [HasBody, scopeOf, List.lookup_append, hnone]
  rfl

theorem nodup_sources (members : List MemberColumn) (k : Nat) :
    ((members.zipIdx k).map fun m => memberSource m.2).Nodup := by
  have hindices : (members.zipIdx k).map (fun m => memberSource m.2) =
      (List.range' k members.length).map memberSource := by
    rw [← List.zipIdx_map_snd k members, List.map_map]
    rfl
  rw [hindices, List.nodup_map_iff fun _ _ => memberSource_injective]
  exact List.nodup_range'

theorem lookup_scopeOf {members : List MemberColumn} (hm : m ∈ members.zipIdx) :
    (scopeOf maxLength tables members.zipIdx s).lookup (memberSource m.2) =
      some (partner maxLength tables m s).2 := by
  have hnodup : ((members.zipIdx.map fun m => partner maxLength tables m s).reverse.map
      Prod.fst).Nodup := by
    rw [List.map_reverse, List.nodup_reverse, List.map_map]
    exact nodup_sources members 0
  have hmem : (memberSource m.2, (partner maxLength tables m s).2) ∈
      (members.zipIdx.map fun m => partner maxLength tables m s).reverse :=
    List.mem_reverse.2 (List.mem_map.2 ⟨m, hm, rfl⟩)
  rw [scopeOf, List.lookup_append, lookup_of_mem hnodup hmem]
  rfl

theorem rows?_bodies (hstores : Stores db maxLength schema structures) (source : String) :
    (FromClause.table (TableName.body schema.name) source).rows? db =
      some (structures.map (rowOf [])) := by
  rw [rows?, hstores.body, Option.bind_eq_bind, Option.bind_some, List.map_map]
  rfl

theorem value?_member {members : List MemberColumn} (h : schema.Accepted) (hb : s.IsBuilt schema)
    (hm : ∀ m ∈ members, IsMember schema m)
    (ht : ∀ table, ∀ c ∈ Layout.indexColumns table, c ∈ (tables table).columns)
    (hmem : m ∈ members.zipIdx) :
    (scopeOf maxLength tables members.zipIdx s).value? (memberColumn m).1 =
      some (s.value m.1.path) := by
  have hcolumn : m.1.valueColumn ∈ (tables m.1.table).columns := by
    refine ht m.1.table _ ?_
    rw [MemberColumn.valueColumn]
    cases m.1.table <;> decide
  have hvalue : valueOf (tables m.1.table).columns m.1.valueColumn
      (partner maxLength tables m s).2.2 = s.value m.1.path :=
    valueOf_partner h hb (hm m.1 (List.fst_mem_of_mem_zipIdx hmem)) (ht m.1.table)
  rw [memberColumn, Scope.value?, lookup_scopeOf hmem, ← hvalue]
  exact if_pos hcolumn

theorem mapM_columns {members : List MemberColumn} (h : schema.Accepted) (hb : s.IsBuilt schema)
    (hm : ∀ m ∈ members, IsMember schema m)
    (ht : ∀ table, ∀ c ∈ Layout.indexColumns table, c ∈ (tables table).columns) :
    ((⟨"s", Column.structureId⟩, Column.structureId) :: (⟨"s", Column.json⟩, Column.json) ::
      members.zipIdx.map memberColumn).mapM (fun c =>
        ((scopeOf maxLength tables members.zipIdx s).value? c.1).map fun v => (c.2, v)) =
      some (rowOf members s) := by
  have hbody : HasBody s (scopeOf maxLength tables members.zipIdx s) :=
    hasBody_scopeOf members.zipIdx
  have hid : (scopeOf maxLength tables members.zipIdx s).value? ⟨"s", Column.structureId⟩ =
      some s.id.toValue := by
    rw [Scope.value?, hbody]
    rfl
  have hjson : (scopeOf maxLength tables members.zipIdx s).value? ⟨"s", Column.json⟩ =
      some (.string s.body) := by
    rw [Scope.value?, hbody]
    rfl
  have hmembers : (members.zipIdx.map memberColumn).mapM (fun c =>
      ((scopeOf maxLength tables members.zipIdx s).value? c.1).map fun v => (c.2, v)) =
      some (members.zipIdx.map fun m => (m.1.aliasName, s.value m.1.path)) := by
    refine mapM_map fun m hmem => ?_
    rw [value?_member h hb hm ht hmem]
    rfl
  have hnames : members.zipIdx.map (fun m => (m.1.aliasName, s.value m.1.path)) =
      members.map fun m => (m.aliasName, s.value m.path) := by
    have hfst := congrArg (List.map fun m => (m.aliasName, s.value m.path))
      (List.zipIdx_map_fst 0 members)
    rwa [List.map_map] at hfst
  rw [List.mapM_cons, hid, List.mapM_cons, hjson, hmembers, hnames]
  rfl

/-- A batch of built structures is found whole: every structure has one row, with the value of each
member in its column. -/
theorem rows?_fromClause {compiled : CompiledQuery} (h : schema.Accepted)
    (hb : ∀ s ∈ structures, s.IsBuilt schema) (hn : (structures.map Structure.id).Nodup)
    (hstores : Stores db maxLength schema structures)
    (hm : ∀ m ∈ compiled.members, IsMember schema m) :
    (compiled.fromClause schema.name).rows? db =
      some (structures.map (rowOf compiled.members)) := by
  by_cases hempty : compiled.members = []
  · rw [fromClause, hempty]
    exact rows?_bodies hstores "rs"
  · obtain ⟨tables, htables⟩ := Classical.axiomOfChoice hstores.index
    have hjoins : joinAll? db (compiled.members.zipIdx.map (leftJoin schema.name))
        (structures.map fun s => [("s", [Column.structureId, Column.json],
          some [s.id.toValue, .string s.body])]) =
        some (structures.map (scopeOf maxLength tables compiled.members.zipIdx)) := by
      refine joinAll?_map HasBody (fun s _ => rfl) ?_
      intro m hmem s hs scope hbody
      refine ⟨joined?_leftJoin h hb hn hs (hm _ (List.fst_mem_of_mem_zipIdx hmem))
        (htables m.1.table).1 (htables m.1.table).2 hbody, ?_⟩
      exact (Table.lookup_ne (memberSource_ne_s m.2).symm).trans hbody
    rw [fromClause, if_neg (by simpa using hempty), rows?, hstores.body, Option.bind_eq_bind,
      Option.bind_some]
    dsimp only
    rw [List.map_map]
    exact (congrArg (Option.bind · _) hjoins).trans
      (mapM_map fun s hs => mapM_columns h (hb s hs) hm fun table => (htables table).1)

end CompiledQuery

end DocStore
