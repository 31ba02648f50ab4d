import DocStore.Proofs.Database.Effects

/-!
# Locality

Each statement that is written for a table is read as a statement about that table, whatever else
its text holds (`Statement.addresses_createTable` and its siblings). So what an action does can be
confined to the tables that it names: `Action.Local` says that it changes no other table, and that
its result and what it leaves in these tables depend on nothing but them.
-/

namespace DocStore

namespace Statement

def table : Statement → String
  | create name _ | dropColumns name _ | addColumns name _ | delete name _ _ | insert name _ _ =>
    name

def Addresses (sql table : String) : Prop :=
  ∀ statement, ofText? sql = some statement → statement.table = table

/-- The words that a statement begins with, up to its table. -/
def openings : List String :=
  ["create table ", "alter table ", "delete from ", "insert into "]

variable {opening words table : String} {tail rest text : List Char} {statement : Statement}

/-- No two openings begin alike, so that only the right one is read from a text. -/
theorem eq_of_words? (hw : words ∈ openings) (ho : opening ∈ openings)
    (h : words? words.toList (Text.trimStart (opening.toList ++ tail)) = some rest) :
    rest = tail := by
  simp only [openings, List.mem_cons, List.not_mem_nil, or_false] at hw ho
  rcases hw with rfl | rfl | rfl | rfl <;> rcases ho with rfl | rfl | rfl | rfl <;> cases h <;> rfl

def Opens (text : List Char) (table : String) : Prop :=
  ∀ words ∈ openings, ∀ rest, words? words.toList (Text.trimStart text) = some rest →
    ∃ tail, rest = (Piece.name table).chars ++ tail

theorem opens_append (ho : opening ∈ openings) (table : String) (tail : List Char) :
    Opens (opening.toList ++ ((Piece.name table).chars ++ tail)) table :=
  fun _ hw _ h => ⟨tail, eq_of_words? hw ho h⟩

theorem Opens.bracketed? (h : Opens text table) (hq : Quotable table) (hw : words ∈ openings)
    (hrest : words? words.toList (Text.trimStart text) = some rest) {name : String}
    {behind : List Char} (hname : Statement.bracketed? rest = some (name, behind)) :
    name = table := by
  obtain ⟨tail, rfl⟩ := h words hw rest hrest
  rw [bracketed?_name hq] at hname
  exact (Prod.mk.inj (Option.some.inj hname)).1.symm

section

variable (h : Opens text table) (hq : Quotable table)

include h hq

theorem table_of_create? (hs : create? text = some statement) : statement.table = table := by
  obtain ⟨rest, hrest, hs⟩ := Option.bind_eq_some_iff.1 hs
  obtain ⟨⟨name, behind⟩, hname, hs⟩ := Option.bind_eq_some_iff.1 hs
  dsimp only at hs
  split at hs
  · obtain ⟨body, _, rfl⟩ := Option.map_eq_some_iff.1 hs
    exact h.bracketed? hq (by decide) hrest hname
  · cases hs

theorem table_of_dropColumns? (hs : dropColumns? text = some statement) :
    statement.table = table := by
  obtain ⟨rest, hrest, hs⟩ := Option.bind_eq_some_iff.1 hs
  obtain ⟨⟨name, behind⟩, hname, hs⟩ := Option.bind_eq_some_iff.1 hs
  obtain ⟨columns, _, hs⟩ := Option.bind_eq_some_iff.1 hs
  obtain rfl := Option.some.inj hs
  exact h.bracketed? hq (by decide) hrest hname

theorem table_of_addColumns? (hs : addColumns? text = some statement) :
    statement.table = table := by
  obtain ⟨rest, hrest, hs⟩ := Option.bind_eq_some_iff.1 hs
  obtain ⟨⟨name, behind⟩, hname, hs⟩ := Option.bind_eq_some_iff.1 hs
  obtain ⟨columns, _, hs⟩ := Option.bind_eq_some_iff.1 hs
  obtain rfl := Option.some.inj hs
  exact h.bracketed? hq (by decide) hrest hname

theorem table_of_delete? (hs : delete? text = some statement) : statement.table = table := by
  obtain ⟨rest, hrest, hs⟩ := Option.bind_eq_some_iff.1 hs
  obtain ⟨⟨name, behind⟩, hname, hs⟩ := Option.bind_eq_some_iff.1 hs
  obtain ⟨_, _, hs⟩ := Option.bind_eq_some_iff.1 hs
  obtain ⟨⟨column, _⟩, _, hs⟩ := Option.bind_eq_some_iff.1 hs
  obtain ⟨_, _, hs⟩ := Option.bind_eq_some_iff.1 hs
  obtain ⟨parameter, _, hs⟩ := Option.bind_eq_some_iff.1 hs
  obtain rfl := Option.some.inj hs
  exact h.bracketed? hq (by decide) hrest hname

theorem table_of_insert? (hs : insert? text = some statement) : statement.table = table := by
  obtain ⟨rest, hrest, hs⟩ := Option.bind_eq_some_iff.1 hs
  obtain ⟨⟨name, behind⟩, hname, hs⟩ := Option.bind_eq_some_iff.1 hs
  obtain ⟨_, _, hs⟩ := Option.bind_eq_some_iff.1 hs
  obtain ⟨⟨columns, _⟩, _, hs⟩ := Option.bind_eq_some_iff.1 hs
  obtain ⟨values, _, hs⟩ := Option.bind_eq_some_iff.1 hs
  obtain rfl := Option.some.inj hs
  exact h.bracketed? hq (by decide) hrest hname

end

theorem Opens.addresses {sql : String} (h : Opens sql.toList table) (hq : Quotable table) :
    Addresses sql table := by
  intro statement hs
  simp only [ofText?, Option.orElse_eq_or, Option.or_eq_some_iff] at hs
  rcases hs with hs | ⟨_, hs | ⟨_, hs | ⟨_, hs | ⟨_, hs⟩⟩⟩⟩
  · exact table_of_create? h hq hs
  · exact table_of_dropColumns? h hq hs
  · exact table_of_addColumns? h hq hs
  · exact table_of_delete? h hq hs
  · exact table_of_insert? h hq hs

/-- A statement that is rendered from an opening, a table and anything else. -/
theorem addresses_render (ho : opening ∈ openings) (hq : Quotable table) (others : Sql) :
    Addresses (Sql.render (.raw opening :: .name table :: others)) table := by
  refine Opens.addresses ?_ hq
  rw [Sql.toList_render]
  exact opens_append ho table others.chars

variable (hq : Quotable table)

include hq

theorem addresses_createTable (definitions : List Sql) :
    Addresses (Definition.createTable table definitions).sql table :=
  addresses_render (by decide) hq _

theorem addresses_addColumns (dialect : Dialect) (columns : List ColumnDefinition) :
    Addresses (Definition.addColumns dialect table columns).sql table :=
  addresses_render (by decide) hq _

theorem addresses_dropColumns (columns : List String) :
    Addresses (Definition.dropColumns table columns).sql table :=
  addresses_render (by decide) hq _

theorem addresses_deleteUniqueRows (path : String) :
    Addresses (Definition.deleteUniqueRows table path).sql table :=
  addresses_render (by decide) hq _

theorem addresses_insertRow (columns : List String) (values : List Value) :
    Addresses (Definition.insertRow table columns values).sql table :=
  addresses_render (by decide) hq _

end Statement

namespace Database

variable {names : List String} {name : String} {db db' : Database} {t : Table} {command : Command}

/-- The databases have the same tables of these names, and the same of them fail. -/
def Agree (names : List String) (db db' : Database) : Prop :=
  ∀ name ∈ names, db.table? name = db'.table? name ∧ (name ∈ db.failing ↔ name ∈ db'.failing)

theorem Agree.check (h : db.Agree names db') (hn : name ∈ names) :
    db.check name = db'.check name := by
  rw [Database.check, Database.check]
  simp only [(h name hn).2]

theorem Agree.table (h : db.Agree names db') (hn : name ∈ names) :
    db.table name = db'.table name := by
  rw [Database.table, Database.table, h.check hn, (h name hn).1]

theorem Agree.setTable (h : db.Agree names db') (name : String) (t : Table) :
    (db.setTable name t).Agree names (db'.setTable name t) := by
  intro other ho
  refine ⟨?_, (h other ho).2⟩
  rw [table?_setTable, table?_setTable, Function.update_apply, Function.update_apply,
    (h other ho).1]

theorem table?_setTable_of_ne {other : String} (h : other ≠ name) :
    (db.setTable name t).table? other = db.table? other := by
  rw [table?_setTable, Function.update_of_ne h]

/-- A statement leaves the database as it was or puts its table. -/
theorem apply_cases (db : Database) (command : Command) (statement : Statement) :
    (db.apply command statement).2 = db ∨
      ∃ t, (db.apply command statement).2 = db.setTable statement.table t := by
  cases statement with
  | create name columns =>
    rw [apply]
    split
    · exact .inl rfl
    · split
      · exact .inl rfl
      · exact .inr ⟨_, rfl⟩
  | _ =>
    rw [apply]
    split
    · exact .inl rfl
    · exact .inr ⟨_, rfl⟩

theorem Agree.apply (h : db.Agree names db') (command : Command) {statement : Statement}
    (hn : statement.table ∈ names) :
    (db.apply command statement).1 = (db'.apply command statement).1 ∧
      (db.apply command statement).2.Agree names (db'.apply command statement).2 := by
  cases statement with
  | create name columns =>
    have hn : name ∈ names := hn
    rw [Database.apply, Database.apply, ← h.check hn, ← (h name hn).1]
    split
    · exact ⟨rfl, h⟩
    · split
      · exact ⟨rfl, h⟩
      · exact ⟨rfl, h.setTable name _⟩
  | dropColumns name _ | addColumns name _ | delete name _ _ | insert name _ _ =>
    have hn : name ∈ names := hn
    rw [Database.apply, Database.apply, ← h.table hn]
    split
    · exact ⟨rfl, h⟩
    · exact ⟨rfl, h.setTable name _⟩

end Database

namespace Action

variable {α β : Type} {x : Action α} {f : α → Action β} {names : List String}

/-- The action changes no other tables than these, and what it does depends on them alone. -/
structure Local (x : Action α) (names : List String) : Prop where
  frame : ∀ db name, name ∉ names → (x.on db).2.table? name = db.table? name
  failing : ∀ db, (x.on db).2.failing = db.failing
  agree : ∀ db db', db.Agree names db' →
    (x.on db).1 = (x.on db').1 ∧ (x.on db).2.Agree names (x.on db').2

theorem Local.ofExcept (result : Except Error α) : (ofExcept result).Local names :=
  ⟨fun _ _ _ => rfl, fun _ => rfl, fun _ _ h => ⟨rfl, h⟩⟩

theorem Local.pure (a : α) : (Pure.pure a : Action α).Local names :=
  .ofExcept (.ok a)

theorem Local.bind (hx : x.Local names) (hf : ∀ a, (f a).Local names) :
    (x >>= f).Local names where
  frame db name hn := by
    have hframe := hx.frame db name hn
    rw [on_bind]
    rcases hon : x.on db with ⟨_ | a, db₁⟩ <;> rw [hon] at hframe
    · exact hframe
    · exact ((hf a).frame db₁ name hn).trans hframe
  failing db := by
    have hfailing := hx.failing db
    rw [on_bind]
    rcases hon : x.on db with ⟨_ | a, db₁⟩ <;> rw [hon] at hfailing
    · exact hfailing
    · exact ((hf a).failing db₁).trans hfailing
  agree db db' h := by
    obtain ⟨hresult, hleft⟩ := hx.agree db db' h
    rw [on_bind, on_bind]
    rcases hon : x.on db with ⟨r, db₁⟩
    rcases hon' : x.on db' with ⟨r', db₁'⟩
    rw [hon, hon'] at hresult hleft
    obtain rfl : r = r' := hresult
    cases r with
    | error e => exact ⟨rfl, hleft⟩
    | ok a => exact (hf a).agree db₁ db₁' hleft

/-- From the same tables, where the same of these fail, a local action has the same result and
leaves the same tables. -/
theorem Local.again {db db' left : Database} {result : Except Error α} (hx : x.Local names)
    (hon : x.on db = (result, left))
    (htables : db'.table? = db.table?)
    (hf : ∀ name ∈ names, name ∈ db'.failing ↔ name ∈ db.failing) :
    ∃ left', x.on db' = (result, left') ∧ left'.table? = left.table? := by
  obtain ⟨hresult, hleft⟩ := hx.agree db' db fun name hn => ⟨congrFun htables name, hf name hn⟩
  rw [hon] at hresult hleft
  refine ⟨(x.on db').2, Prod.ext hresult rfl, funext fun name => ?_⟩
  by_cases hn : name ∈ names
  · exact (hleft name hn).1
  · have hframe := hx.frame db name hn
    rw [hon] at hframe
    rw [hx.frame db' name hn, htables, hframe]

/-- A question that agreeing databases answer alike. -/
theorem Local.ofQuestion {question : Database → Except Error α}
    (h : ∀ db db', db.Agree names db' → question db = question db') :
    (of fun db => (question db, db)).Local names :=
  ⟨fun _ _ _ => rfl, fun _ => rfl, fun db db' hdb => ⟨h db db' hdb, hdb⟩⟩

end Action

namespace Database

variable {names : List String} {name : String} {command : Command}

theorem tableExists_local (hn : name ∈ names) : (tableExists name).Local names :=
  .ofQuestion fun _ _ h => by rw [h.check hn, (h name hn).1]

theorem columnNames_local (hn : name ∈ names) : (columnNames name).Local names :=
  .ofQuestion fun _ _ h => by rw [h.table hn]

theorem queryColumn_local {column : String} (hn : name ∈ names)
    (hs : Statement.selectDistinct? command.sql = some (column, name)) :
    (queryColumn command).Local names :=
  .ofQuestion fun _ _ h => by simp only [selected, hs, h.table hn]

theorem execute_local (hn : name ∈ names) (hc : Statement.Addresses command.sql name) :
    (execute command).Local names := by
  have happlied : ∀ db : Database, (db.applied command).2 = db ∨
      ∃ t, (db.applied command).2 = db.setTable name t := by
    intro db
    rw [applied]
    split
    · next statement hs =>
      rw [← hc statement hs]
      exact db.apply_cases command statement
    · exact .inl rfl
  refine ⟨fun db other ho => ?_, fun db => ?_, fun db db' h => ?_⟩
  · have hframe : (db.applied command).2.table? other = db.table? other := by
      obtain hsame | ⟨t, hput⟩ := happlied db
      · rw [hsame]
      · rw [hput, table?_setTable_of_ne (ne_of_mem_of_not_mem hn ho).symm]
    rw [execute_on]
    split <;> exact hframe
  · have hfailing : (db.applied command).2.failing = db.failing := by
      obtain hsame | ⟨t, hput⟩ := happlied db
      · rw [hsame]
      · rw [hput]
        rfl
    rw [execute_on]
    split <;> exact hfailing
  · have hagree : (db.applied command).1 = (db'.applied command).1 ∧
        (db.applied command).2.Agree names (db'.applied command).2 := by
      rw [applied, applied]
      split
      · next statement hs => exact h.apply command (hc statement hs ▸ hn)
      · exact ⟨rfl, h⟩
    rw [execute_on, execute_on, ← hagree.1]
    split <;> exact ⟨rfl, hagree.2⟩

theorem executeBatch_local {commands : List Command}
    (h : ∀ command ∈ commands, (execute command).Local names) :
    (executeBatch commands).Local names := by
  induction commands with
  | nil => exact .pure 0
  | cons command commands ih =>
    rw [List.forall_mem_cons] at h
    exact .bind h.1 fun _ => .bind (ih h.2) fun _ => .pure _

theorem bulkCopy_local (hn : name ∈ names) (mappings : List (Nat × String)) (source : RowSource)
    (batchSize : Nat) : (bulkCopy name mappings source batchSize).Local names := by
  refine ⟨fun db other ho => ?_, fun db => ?_, fun db db' h => ?_⟩
  · rw [bulkCopy, Action.on_of]
    split
    · rfl
    · exact table?_setTable_of_ne (ne_of_mem_of_not_mem hn ho).symm
  · rw [bulkCopy, Action.on_of]
    split <;> rfl
  · have hcopied : db.copied name mappings source = db'.copied name mappings source := by
      rw [copied, copied, h.table hn]
    rw [bulkCopy, Action.on_of, Action.on_of, ← hcopied]
    split
    · exact ⟨rfl, h⟩
    · exact ⟨rfl, h.setTable name _⟩

end Database

end DocStore
