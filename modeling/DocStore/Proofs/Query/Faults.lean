import DocStore.Proofs.Sql.Independence
import DocStore.Proofs.Sql.References

/-!
# Faults of queries

A query is compiled place by place: the nodes of its predicate, its sort keys, its includes. It
fails at the first place that holds a member the schema does not index, a list behind no `in`, or a
node that does not belong there. Otherwise its parameters stand for the values of its nodes in
order.
-/

namespace DocStore

namespace Query

inductive Place where
  /-- A node of the predicate, and the one before it. -/
  | node (previous : Option Node) (n : Node)
  | sorting (s : Sorting)
  | inclusion (i : Inclusion)

namespace Place

def unindexed? (schema : Schema) (r : MemberRef) : Option Error :=
  if r.isId = true ∨ ∃ a ∈ schema.accessors, a.path = r.path then none
  else some (Error.schemaMismatch schema.name r.path)

def fault? (schema : Schema) : Place → Option Error
  | node _ (.member r) => unindexed? schema r
  | node previous (.value (.list _)) =>
    if previous = some (.operator .inList) ∨ previous = some (.operator .notInList) then none
    else some Error.misplacedList
  | node _ (.sorting _) | node _ (.inclusion _) => some Error.misplacedNode
  | node _ _ => none
  | sorting s => unindexed? schema s.member
  | inclusion i => unindexed? schema i.member

def ofNodes (previous : Option Node) : List Node → List Place
  | [] => []
  | n :: rest => node previous n :: ofNodes (some n) rest

end Place

/-- All places in the order of compiling. -/
def places (query : Query) : List Place :=
  Place.ofNodes none query.predicate ++ query.sortings.map .sorting ++
    query.includes.map .inclusion

end Query

def Node.bound : Node → List Value
  | value (.list values) => values
  | value v => [v]
  | _ => []

def Token.numbers : Token → List Nat
  | parameter number => [number]
  | list numbers => numbers
  | _ => []

namespace Compiler

open Query (Place)

variable {α β : Type} {naming : ColumnNaming} {schema : Schema} {members : List MemberColumn}
  {places others : List Place} {r : MemberRef}

/-- Either nothing is wrong at the places and the result is as it should be, or the first fault is
reported. -/
def Settles (schema : Schema) (places : List Place) (outcome : Except Error α)
    (result : α → Prop) : Prop :=
  match outcome with
  | .ok a => places.findSome? (Place.fault? schema) = none ∧ result a
  | .error e => places.findSome? (Place.fault? schema) = some e

theorem Settles.bind {x : Except Error α} {f : α → Except Error β} {result : α → Prop}
    {after : β → Prop} (h : Settles schema places x result)
    (hf : ∀ a, result a → Settles schema others (f a) after) :
    Settles schema (places ++ others) (x >>= f) after := by
  cases x with
  | error e =>
    have hfault : (places ++ others).findSome? (Place.fault? schema) = some e := by
      rw [List.findSome?_append, h, Option.some_or]
    exact hfault
  | ok a =>
    obtain ⟨hnone, ha⟩ := h
    have hrest : (places ++ others).findSome? (Place.fault? schema) =
        others.findSome? (Place.fault? schema) := by
      rw [List.findSome?_append, hnone, Option.none_or]
    have hafter := hf a ha
    unfold Settles at hafter ⊢
    rw [hrest]
    exact hafter

/-- A last step that cannot fail. -/
theorem Settles.map {x : Except Error α} {f : α → Except Error β} {result : α → Prop}
    {after : β → Prop} (h : Settles schema places x result)
    (hf : ∀ a, result a → ∃ b, f a = .ok b ∧ after b) : Settles schema places (x >>= f) after := by
  rw [← List.append_nil places]
  refine h.bind fun a ha => ?_
  obtain ⟨b, hb, hafter⟩ := hf a ha
  rw [hb]
  exact ⟨rfl, hafter⟩

theorem indexed_of_refers {c : ColumnRef} (h : Refers members r c)
    (hm : Collected naming schema members) :
    r.isId = true ∨ ∃ a ∈ schema.accessors, a.path = r.path := by
  cases c with
  | identity => exact .inl h
  | aliased name =>
    obtain ⟨-, m, hmem, hpath, -⟩ := h
    obtain ⟨a, ha, hsame, -⟩ := hm.table_eq m hmem
    exact .inr ⟨a, ha, hsame.trans hpath⟩

theorem unindexed?_of_error {e : Error} (h : columnRef naming schema members r = .error e) :
    Place.unindexed? schema r = some e := by
  obtain ⟨hid, ha, rfl⟩ := unindexed_of_columnRef h
  refine if_neg ?_
  rintro (hr | ⟨a, hmem, hpath⟩)
  · exact Bool.false_ne_true (hid.symm.trans hr)
  · exact absurd hpath (by simpa using List.find?_eq_none.1 ha a hmem)

theorem columnRef_settles {place : Place} (hplace : place.fault? schema = Place.unindexed? schema r)
    (hm : Collected naming schema members) :
    Settles schema [place] (columnRef naming schema members r)
      fun b => Collected naming schema b.2 := by
  have hfault : [place].findSome? (Place.fault? schema) = Place.unindexed? schema r := by
    rw [List.findSome?_singleton, hplace]
  unfold Settles
  rw [hfault]
  cases href : columnRef naming schema members r with
  | error e => exact unindexed?_of_error href
  | ok b =>
    obtain ⟨hcollected, -, hrefers⟩ := columnRef_refers href hm
    exact ⟨if_pos (indexed_of_refers hrefers hcollected), hcollected⟩

/-- The values of the nodes are added to those that were there, under the numbers in the tokens. -/
structure Binds (naming : ColumnNaming) (schema : Schema) (state : State) (nodes : List Node)
    (tokens : List Token) (after : State) : Prop where
  members : Collected naming schema after.members
  values : after.values = state.values ++ nodes.flatMap Node.bound
  numbers : tokens.flatMap Token.numbers =
    List.range' state.values.length (nodes.flatMap Node.bound).length

variable {previous : Option Node} {state state' after : State} {n : Node} {nodes : List Node}
  {token : Token} {tokens : List Token}

theorem Binds.cons (h : Binds naming schema state [n] [token] state')
    (hs : Binds naming schema state' nodes tokens after) :
    Binds naming schema state (n :: nodes) (token :: tokens) after := by
  have hvalues := h.values
  have hnumbers := h.numbers
  rw [List.flatMap_singleton] at hvalues
  rw [List.flatMap_singleton, List.flatMap_singleton] at hnumbers
  refine ⟨hs.members, ?_, ?_⟩
  · rw [hs.values, hvalues, List.flatMap_cons, List.append_assoc]
  · rw [List.flatMap_cons, List.flatMap_cons, hnumbers, hs.numbers, hvalues, List.length_append,
      List.length_append, List.range'_append_1]

theorem operator?_eq_some {op : Operator} :
    previous.bind Node.operator? = some op ↔ previous = some (.operator op) := by
  rw [Option.bind_eq_some_iff]
  constructor
  · rintro ⟨m, rfl, hm⟩
    cases m <;> cases hm
    rfl
  · rintro rfl
    exact ⟨_, rfl, rfl⟩

theorem compileNode_settles (hm : Collected naming schema state.members) :
    Settles schema [.node previous n]
      (compileNode naming schema (previous.bind Node.operator?) state n)
      fun b => Binds naming schema state [n] [b.1] b.2 := by
  cases n with
  | member r =>
    refine (columnRef_settles rfl hm).map fun b hb => ⟨_, rfl, hb, ?_, rfl⟩
    exact (List.append_nil _).symm
  | value v =>
    cases v with
    | list values =>
      have hplace : previous.bind Node.operator? = some .inList ∨
            previous.bind Node.operator? = some .notInList ↔
          previous = some (.operator .inList) ∨ previous = some (.operator .notInList) :=
        or_congr operator?_eq_some operator?_eq_some
      rw [compileNode]
      split
      · next hin =>
        refine ⟨?_, hm, by simp [Node.bound], by simp [Node.bound, Token.numbers]⟩
        rw [List.findSome?_singleton]
        exact if_pos (hplace.1 hin)
      · next hin =>
        refine List.findSome?_singleton.trans ?_
        exact if_neg (mt hplace.2 hin)
    | _ => exact ⟨rfl, hm, rfl, rfl⟩
  | sorting | inclusion => exact rfl
  | operator | null | startGroup | endGroup =>
    exact ⟨rfl, hm, (List.append_nil _).symm, rfl⟩

theorem compileWhere_settles (hm : Collected naming schema state.members) :
    Settles schema (Place.ofNodes previous nodes)
      (compileWhere naming schema (previous.bind Node.operator?) state nodes)
      fun b => Binds naming schema state nodes b.1 b.2 := by
  induction nodes generalizing previous state with
  | nil => exact ⟨rfl, hm, (List.append_nil _).symm, rfl⟩
  | cons n nodes ih =>
    rw [Place.ofNodes, ← List.singleton_append, compileWhere]
    refine (compileNode_settles hm).bind fun b hb => ?_
    exact (@ih (some n) b.2 hb.members).map fun bs hbs => ⟨_, rfl, hb.cons hbs⟩

theorem compileSortings_settles (sortings : List Sorting)
    (hm : Collected naming schema members) :
    Settles schema (sortings.map .sorting) (compileSortings naming schema members sortings)
      fun b => Collected naming schema b.2 := by
  induction sortings generalizing members with
  | nil => exact ⟨rfl, hm⟩
  | cons s sortings ih =>
    rw [List.map_cons, ← List.singleton_append, compileSortings]
    exact (columnRef_settles rfl hm).bind fun b hb => (ih hb).map fun bs hbs => ⟨_, rfl, hbs⟩

theorem compileIncludes_settles (number : Nat) (includes : List Inclusion)
    (hm : Collected naming schema members) :
    Settles schema (includes.map .inclusion) (compileIncludes naming schema members number includes)
      fun b => Collected naming schema b.2 := by
  induction includes generalizing members number with
  | nil => exact ⟨rfl, hm⟩
  | cons i includes ih =>
    rw [List.map_cons, ← List.singleton_append, compileIncludes]
    exact (columnRef_settles rfl hm).bind fun b hb =>
      (ih (number + 1) hb).map fun bs hbs => ⟨_, rfl, hbs⟩

end Compiler

namespace Query

/-- The compiled parts stand for the values of the query, under numbers without gaps. -/
structure Numbers (query : Query) (compiled : CompiledQuery) : Prop where
  values : compiled.values = query.predicate.flatMap Node.bound
  numbers : compiled.predicate.flatMap Token.numbers = List.range compiled.values.length

theorem compile_settles (naming : ColumnNaming) (schema : Schema) (query : Query) :
    Compiler.Settles schema query.places (query.compile naming schema) query.Numbers := by
  rw [places, List.append_assoc]
  refine (Compiler.compileWhere_settles .nil).bind fun b hb => ?_
  refine (Compiler.compileSortings_settles query.sortings hb.members).bind fun bs hbs => ?_
  refine (Compiler.compileIncludes_settles 0 query.includes hbs).map fun bi _ => ⟨_, rfl, ?_⟩
  have hvalues : b.2.values = query.predicate.flatMap Node.bound := hb.values
  refine ⟨hvalues, ?_⟩
  rw [hb.numbers, List.range_eq_range', hvalues]
  rfl

namespace Place

variable {schema : Schema} {previous : Option Node} {n : Node} {nodes : List Node} {place : Place}

theorem mem_ofNodes : place ∈ ofNodes previous nodes ↔
    ∃ before n after, nodes = before ++ n :: after ∧
      place = .node (before.getLast?.or previous) n := by
  induction nodes generalizing previous with
  | nil => simp [ofNodes]
  | cons m nodes ih =>
    rw [ofNodes, List.mem_cons, ih]
    constructor
    · rintro (rfl | ⟨before, n, after, rfl, rfl⟩)
      · exact ⟨[], m, nodes, rfl, rfl⟩
      · refine ⟨m :: before, n, after, rfl, ?_⟩
        rw [List.getLast?_cons]
        cases before.getLast? <;> rfl
    · rintro ⟨before, n, after, hnodes, rfl⟩
      cases before with
      | nil =>
        obtain ⟨rfl, -⟩ := List.cons.inj hnodes
        exact .inl rfl
      | cons k before =>
        obtain ⟨rfl, rfl⟩ := List.cons.inj hnodes
        refine .inr ⟨before, n, after, rfl, ?_⟩
        rw [List.getLast?_cons]
        cases before.getLast? <;> rfl

theorem unindexed?_eq_none {r : MemberRef} :
    unindexed? schema r = none ↔ r.isId = true ∨ ∃ a ∈ schema.accessors, a.path = r.path := by
  rw [unindexed?]
  split
  · next hr => exact ⟨fun _ => hr, fun _ => rfl⟩
  · next hr => exact ⟨nofun, fun h => absurd h hr⟩

theorem fault?_list_eq_none {values : List Value} :
    (node previous (.value (.list values))).fault? schema = none ↔
      previous = some (.operator .inList) ∨ previous = some (.operator .notInList) := by
  rw [fault?]
  split
  · next hin => exact ⟨fun _ => hin, fun _ => rfl⟩
  · next hin => exact ⟨nofun, fun h => absurd h hin⟩

end Place

/-- Every node has its place, and every member is the identity or indexed. -/
structure Faultless (query : Query) (schema : Schema) : Prop where
  nodes : ∀ n ∈ query.predicate, (∀ s, n ≠ .sorting s) ∧ ∀ i, n ≠ .inclusion i
  lists : ∀ before values after, query.predicate = before ++ .value (.list values) :: after →
    before.getLast? = some (.operator .inList) ∨ before.getLast? = some (.operator .notInList)
  members : ∀ r ∈ query.references, r.isId = true ∨ ∃ a ∈ schema.accessors, a.path = r.path

variable {schema : Schema} {query : Query}

theorem node_mem_places {before after : List Node} {n : Node}
    (h : query.predicate = before ++ n :: after) : .node before.getLast? n ∈ query.places := by
  have hmem : Place.node before.getLast? n ∈ Place.ofNodes none query.predicate :=
    Place.mem_ofNodes.2 ⟨before, n, after, h, by rw [Option.or_none]⟩
  exact List.mem_append_left _ (List.mem_append_left _ hmem)

theorem Faultless.fault?_node (h : query.Faultless schema) {before after : List Node} {n : Node}
    (hnodes : query.predicate = before ++ n :: after) :
    (Place.node before.getLast? n).fault? schema = none := by
  have hn : n ∈ query.predicate := by
    rw [hnodes]
    exact List.mem_append_right _ List.mem_cons_self
  cases n with
  | member r => exact Place.unindexed?_eq_none.2 (h.members r (mem_references.2 (.inl hn)))
  | value v =>
    cases v with
    | list values => exact Place.fault?_list_eq_none.2 (h.lists _ _ _ hnodes)
    | _ => rfl
  | sorting s => exact absurd rfl ((h.nodes _ hn).1 s)
  | inclusion i => exact absurd rfl ((h.nodes _ hn).2 i)
  | _ => rfl

theorem faultless_iff : query.Faultless schema ↔
    query.places.findSome? (Place.fault? schema) = none := by
  rw [List.findSome?_eq_none_iff]
  constructor
  · intro h place hplace
    simp only [places, List.mem_append, List.mem_map] at hplace
    rcases hplace with (hplace | ⟨s, hs, rfl⟩) | ⟨i, hi, rfl⟩
    · obtain ⟨before, n, after, hnodes, rfl⟩ := Place.mem_ofNodes.1 hplace
      rw [Option.or_none]
      exact h.fault?_node hnodes
    · exact Place.unindexed?_eq_none.2 (h.members _ (mem_references.2 (.inr (.inl ⟨s, hs, rfl⟩))))
    · exact Place.unindexed?_eq_none.2 (h.members _ (mem_references.2 (.inr (.inr ⟨i, hi, rfl⟩))))
  · intro h
    have hnode : ∀ n ∈ query.predicate,
        ∃ previous, (Place.node previous n).fault? schema = none := by
      intro n hn
      obtain ⟨before, after, hnodes⟩ := List.append_of_mem hn
      exact ⟨_, h _ (node_mem_places hnodes)⟩
    refine ⟨fun n hn => ?_, fun before values after hnodes => ?_, fun r hr => ?_⟩
    · obtain ⟨previous, hnone⟩ := hnode n hn
      constructor <;>
      · rintro _ rfl
        cases hnone
    · exact Place.fault?_list_eq_none.1 (h _ (node_mem_places hnodes))
    · rw [← Place.unindexed?_eq_none]
      rcases mem_references.1 hr with hr | ⟨s, hs, rfl⟩ | ⟨i, hi, rfl⟩
      · exact (hnode _ hr).choose_spec
      · exact h _ (List.mem_append_left _ (List.mem_append_right _ (List.mem_map_of_mem hs)))
      · exact h _ (List.mem_append_right _ (List.mem_map_of_mem hi))

theorem values_numbered (values : List Value) :
    (Command.numbered values).map Prod.snd = values := by
  rw [Command.numbered, List.map_map]
  exact List.zipIdx_map_fst 0 values

/-- A query compiles exactly if it is faultless, and else the error is that of its first fault.
Parameters stand for the values of the nodes in order, lists for their items. -/
theorem compile_iff_faultless (naming : ColumnNaming) (schema : Schema) (query : Query) :
    ((∃ compiled, query.compile naming schema = .ok compiled) ↔ query.Faultless schema) ∧
    (∀ e, query.compile naming schema = .error e ↔
      query.places.findSome? (Place.fault? schema) = some e) ∧
    ∀ compiled, query.compile naming schema = .ok compiled →
      (Command.numbered compiled.values).map Prod.fst =
          (List.range compiled.values.length).map (fun number => "@p" ++ number.repr) ∧
        (Command.numbered compiled.values).map Prod.snd = query.predicate.flatMap Node.bound := by
  have hsettles := compile_settles naming schema query
  rw [faultless_iff]
  cases hcompile : query.compile naming schema with
  | error e =>
    rw [hcompile] at hsettles
    have hfault : query.places.findSome? (Place.fault? schema) = some e := hsettles
    rw [hfault]
    exact ⟨⟨nofun, nofun⟩, fun e' => ⟨fun h => by cases h; rfl, fun h => by cases h; rfl⟩, nofun⟩
  | ok compiled =>
    rw [hcompile] at hsettles
    obtain ⟨hnone, hnumbers⟩ := hsettles
    rw [hnone]
    refine ⟨⟨fun _ => rfl, fun _ => ⟨compiled, rfl⟩⟩, fun e => ⟨nofun, nofun⟩, ?_⟩
    rintro _ ⟨⟩
    exact ⟨Generator.names_numbered _, (values_numbered _).trans hnumbers.values⟩

/-- A list, a value and a sort key by identity. -/
theorem compile_iff_faultless_of_orders :
    let schema : Schema := ⟨"Order", ⟨"Id", .identity⟩,
      [⟨"Number", .integer, none, false, false⟩, ⟨"Name", .string, none, false, false⟩]⟩
    let query : Query := {
      structureName := "Order"
      predicate := [.member ⟨"Number", none, some .integer, false, false⟩, .operator .notInList,
        .value (.list [.integer 1, .integer 2]), .operator .and,
        .member ⟨"Name", none, some .string, false, false⟩, .operator .equal,
        .value (.string "a")]
      sortings := [⟨⟨"Id", none, none, true, false⟩, .desc⟩] }
    ∃ compiled, query.compile (ColumnName.ofPath 128) schema = .ok compiled ∧
      (Command.numbered compiled.values).map Prod.fst =
        (List.range compiled.values.length).map (fun number => "@p" ++ number.repr) ∧
      (Command.numbered compiled.values).map Prod.snd =
        [.integer 1, .integer 2, .string "a"] := by
  intro schema query
  obtain ⟨-, -, hparams⟩ := compile_iff_faultless (ColumnName.ofPath 128) schema query
  have hok : (query.compile (ColumnName.ofPath 128) schema).toOption.isSome = true := by
    decide +kernel
  cases hcompile : query.compile (ColumnName.ofPath 128) schema with
  | error e =>
    rw [hcompile] at hok
    cases hok
  | ok compiled => exact ⟨compiled, rfl, hparams compiled hcompile⟩

end Query

end DocStore
