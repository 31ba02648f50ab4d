import DocStore.Proofs.Outcome
import DocStore.Sql.Generator

/-!
# Statements do not depend on values

Two queries are alike if they differ in the values of their predicates and in the page they ask
for, lists keeping their length. Alike queries have one statement text, with the same parameter
names, or fail with one error: the text tells nothing about the values.
-/

namespace DocStore

/-- Values that take the same place in a statement: lists of one length, or no lists at all. -/
def Value.Alike : Value → Value → Prop
  | .list values, .list others => values.length = others.length
  | .list _, _ | _, .list _ => False
  | _, _ => True

inductive Node.Alike : Node → Node → Prop
  | value {v w : Value} (h : v.Alike w) : Alike (.value v) (.value w)
  | same (n : Node) : Alike n n

theorem Node.Alike.operator?_eq {n n' : Node} (h : n.Alike n') : n.operator? = n'.operator? := by
  cases h <;> rfl

structure Query.Alike (query other : Query) : Prop where
  structureName : query.structureName = other.structureName
  predicate : List.Forall₂ Node.Alike query.predicate other.predicate
  sortings : query.sortings = other.sortings
  includes : query.includes = other.includes
  take : query.take = other.take
  paging : query.paging.isSome = other.paging.isSome

namespace Compiler

variable {naming : ColumnNaming} {schema : Schema} {previous : Option Operator}

structure State.Alike (state state' : State) : Prop where
  members : state.members = state'.members
  length : state.values.length = state'.values.length

variable {state state' : State}

theorem State.Alike.concat (h : state.Alike state') (v w : Value) :
    State.Alike { state with values := state.values ++ [v] }
      { state' with values := state'.values ++ [w] } :=
  ⟨h.members, by simp [h.length]⟩

theorem State.Alike.append (h : state.Alike state') {values others : List Value}
    (hl : values.length = others.length) :
    State.Alike { state with values := state.values ++ values }
      { state' with values := state'.values ++ others } :=
  ⟨h.members, by simp [h.length, hl]⟩

abbrev Follows {α : Type} : Except Error (α × State) → Except Error (α × State) → Prop :=
  Matched Eq fun a b => a.1 = b.1 ∧ a.2.Alike b.2

theorem compileNode_value {v w : Value} (h : state.Alike state') (hv : v.Alike w) :
    Follows (compileNode naming schema previous state (.value v))
      (compileNode naming schema previous state' (.value w)) := by
  cases v with
  | list values =>
    cases w with
    | list others =>
      have hl : values.length = others.length := hv
      rw [compileNode, compileNode]
      split
      · exact .ok ⟨by rw [h.length, hl], h.append hl⟩
      · exact .error rfl
    | _ => exact hv.elim
  | _ =>
    cases w with
    | list _ => exact hv.elim
    | _ => exact .ok ⟨congrArg Token.parameter h.length, h.concat _ _⟩

theorem compileNode_follows {n n' : Node} (h : state.Alike state') (hn : n.Alike n') :
    Follows (compileNode naming schema previous state n)
      (compileNode naming schema previous state' n') := by
  cases hn with
  | value hv => exact compileNode_value h hv
  | same =>
    cases n with
    | member m =>
      rw [compileNode, compileNode, h.members]
      cases columnRef naming schema state'.members m with
      | error e => exact .error rfl
      | ok c => exact .ok ⟨rfl, rfl, h.length⟩
    | value v =>
      refine compileNode_value h ?_
      cases v <;> first | exact trivial | exact Eq.refl _
    | sorting | inclusion => exact .error rfl
    | operator | null | startGroup | endGroup => exact .ok ⟨rfl, h⟩

theorem compileWhere_follows {nodes nodes' : List Node} (hn : List.Forall₂ Node.Alike nodes nodes')
    (h : state.Alike state') :
    Follows (compileWhere naming schema previous state nodes)
      (compileWhere naming schema previous state' nodes') := by
  induction hn generalizing previous state state' with
  | nil => exact .ok ⟨rfl, h⟩
  | @cons n n' nodes nodes' hn _ ih =>
    rw [compileWhere, compileWhere, ← hn.operator?_eq]
    refine (compileNode_follows h hn).bind ?_
    rintro ⟨token, state⟩ ⟨_, state'⟩ ⟨rfl, h⟩
    refine (ih h).bind ?_
    rintro ⟨tokens, state⟩ ⟨_, state'⟩ ⟨rfl, h⟩
    exact .ok ⟨rfl, h⟩

end Compiler

structure CompiledQuery.Alike (compiled other : CompiledQuery) : Prop where
  members : compiled.members = other.members
  predicate : compiled.predicate = other.predicate
  orderBy : compiled.orderBy = other.orderBy
  includes : compiled.includes = other.includes
  length : compiled.values.length = other.values.length

variable {query other : Query}

theorem Query.compile_alike (naming : ColumnNaming) (schema : Schema) (h : query.Alike other) :
    Matched Eq CompiledQuery.Alike (query.compile naming schema) (other.compile naming schema) := by
  refine (Compiler.compileWhere_follows h.predicate ⟨rfl, rfl⟩).bind ?_
  rintro ⟨predicate, state⟩ ⟨_, state'⟩ ⟨rfl, hstate⟩
  have hmembers : state.members = state'.members := hstate.members
  dsimp only
  rw [h.sortings, h.includes, hmembers]
  refine (Matched.refl _).bind ?_
  rintro ⟨orderBy, members⟩ _ rfl
  refine (Matched.refl _).bind ?_
  rintro ⟨includes, members⟩ _ rfl
  exact .ok ⟨rfl, rfl, rfl, rfl, hstate.length⟩

namespace Generator

variable {compiled compiled' : CompiledQuery}

theorem source_alike (h : compiled.Alike compiled') (name : String) (withIncludes : Bool) :
    compiled.source name withIncludes = compiled'.source name withIncludes := by
  rw [CompiledQuery.source, CompiledQuery.source, h.members, h.includes]

theorem filterSql_alike (h : compiled.Alike compiled') :
    filterSql compiled = filterSql compiled' := by
  rw [filterSql, filterSql, h.predicate]

theorem select_alike (g : Generator) (hq : query.Alike other) (h : compiled.Alike compiled')
    (full : Bool) :
    (g.select query compiled full).1 = (g.select other compiled' full).1 ∧
      (g.select query compiled full).2.length = (g.select other compiled' full).2.length := by
  have hcolumns : columnsSql compiled full = columnsSql compiled' full := by
    rw [columnsSql, columnsSql, h.includes]
  have houtputs : outputs compiled full = outputs compiled' full := by
    rw [outputs, outputs, h.includes]
  have horder : orderSql compiled = orderSql compiled' := by
    rw [orderSql, orderSql, h.orderBy]
  have hpages : pageOrderSql compiled = pageOrderSql compiled' := by
    rw [pageOrderSql, pageOrderSql, h.orderBy, horder]
  have hpaging := hq.paging
  rw [select, select, hcolumns, houtputs, horder, hpages, source_alike h, filterSql_alike h,
    hq.structureName, hq.take, h.orderBy, h.length]
  cases hp : query.paging with
  | none =>
    cases hp' : other.paging with
    | none => exact ⟨rfl, rfl⟩
    | some _ => simp [hp, hp'] at hpaging
  | some _ =>
    cases hp' : other.paging with
    | none => simp [hp, hp'] at hpaging
    | some _ =>
      refine ⟨rfl, ?_⟩
      cases g.dialect <;> rfl

theorem statement_alike (g : Generator) (hq : query.Alike other) (h : compiled.Alike compiled')
    (shape : Shape) :
    (g.statement query compiled shape).1 = (g.statement other compiled' shape).1 ∧
      (g.statement query compiled shape).2.length =
        (g.statement other compiled' shape).2.length := by
  cases shape with
  | full => exact select_alike g hq h true
  | ids => exact select_alike g hq h false
  | count =>
    rw [statement, statement, source_alike h, filterSql_alike h, hq.structureName]
    exact ⟨rfl, rfl⟩
  | «exists» =>
    rw [statement, statement, source_alike h, filterSql_alike h, hq.structureName]
    exact ⟨rfl, rfl⟩

/-- Parameters are named by their numbers alone. -/
theorem names_numbered (values : List Value) :
    (Command.numbered values).map Prod.fst = (List.range values.length).map parameterName := by
  rw [Command.numbered, List.map_map, List.zipIdx_eq_zip_range', List.range_eq_range']
  refine List.ext_getElem (by simp) fun i h h' => ?_
  simp

/-- Alike queries have one statement text and parameters of the same names, or one error. -/
theorem generate_alike (g : Generator) (schema : Schema) (query other : Query) (shape : Shape)
    (h : query.Alike other) :
    (∃ e, g.generate schema query shape = .error e ∧ g.generate schema other shape = .error e) ∨
      ∃ command command', g.generate schema query shape = .ok command ∧
        g.generate schema other shape = .ok command' ∧ command.sql = command'.sql ∧
        command.params.length = command'.params.length ∧
        command.params.map Prod.fst = command'.params.map Prod.fst := by
  obtain ⟨e, _, he, he', rfl⟩ | ⟨compiled, compiled', hok, hok', hc⟩ :=
    (Query.compile_alike g.naming schema h).exists_eq
  · exact .inl ⟨e, by rw [generate, he]; rfl, by rw [generate, he']; rfl⟩
  · obtain ⟨hsql, hlength⟩ := statement_alike g h hc shape
    have hvalues : (compiled.values ++ (g.statement query compiled shape).2).length =
        (compiled'.values ++ (g.statement other compiled' shape).2).length := by
      rw [List.length_append, List.length_append, hc.length, hlength]
    have hnames : (Command.numbered (compiled.values ++ (g.statement query compiled shape).2)).map
        Prod.fst = (Command.numbered (compiled'.values ++
          (g.statement other compiled' shape).2)).map Prod.fst := by
      rw [names_numbered, names_numbered, hvalues]
    refine .inr ⟨_, _, by rw [generate, hok]; rfl, by rw [generate, hok']; rfl,
      congrArg Sql.render hsql, ?_, hnames⟩
    have hl := congrArg List.length hnames
    rwa [List.length_map, List.length_map] at hl

/-- The pages of `o => o.Number.In([1, 2]) && o.Name == "a"` and of
`o => o.Number.In([3, 4]) && o.Name == "b'"` have one text. -/
theorem generate_alike_of_orders :
    let schema : Schema := ⟨"Order", ⟨"Id", .identity⟩,
      [⟨"Number", .integer, none, false, false⟩, ⟨"Name", .string, none, false, false⟩]⟩
    let query : List Value → String → Paging → Query := fun numbers name paging => {
      structureName := "Order"
      predicate := [.member ⟨"Number", none, some .integer, false, false⟩, .operator .inList,
        .value (.list numbers), .operator .and, .startGroup,
        .member ⟨"Name", none, some .string, false, false⟩, .operator .equal,
        .value (.string name), .endGroup]
      paging := some paging }
    let first := query [.integer 1, .integer 2] "a" ⟨0, 10, by decide, by decide⟩
    let second := query [.integer 3, .integer 4] "b'" ⟨7, 25, by decide, by decide⟩
    ∃ command command',
      Generator.generate ⟨.rowNumber, ColumnName.ofPath 12⟩ schema first .full = .ok command ∧
      Generator.generate ⟨.rowNumber, ColumnName.ofPath 12⟩ schema second .full = .ok command' ∧
      command.sql = command'.sql ∧ command.params.length = command'.params.length ∧
      command.params.map Prod.fst = command'.params.map Prod.fst := by
  intro schema query first second
  have halike : first.Alike second := {
    structureName := rfl
    predicate := by
      refine .cons (.same _) (.cons (.same _) (.cons (.value rfl) (.cons (.same _)
        (.cons (.same _) (.cons (.same _) (.cons (.same _) (.cons (.value trivial)
          (.cons (.same _) .nil))))))))
    sortings := rfl
    includes := rfl
    take := rfl
    paging := rfl }
  obtain ⟨e, he, _⟩ | h := generate_alike ⟨.rowNumber, ColumnName.ofPath 12⟩ schema first second
    .full halike
  · have hok : (Generator.generate ⟨.rowNumber, ColumnName.ofPath 12⟩ schema first
        .full).toOption.isSome = true := by decide +kernel
    rw [he] at hok
    cases hok
  · exact h

end Generator

end DocStore
