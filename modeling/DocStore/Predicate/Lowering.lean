import DocStore.Expr.Fold
import DocStore.Predicate.Member
import DocStore.Predicate.Pattern
import DocStore.Predicate.Completion

/-!
# Lowering lambdas to node sequences

The body of a predicate is walked once. What does not depend on the item is folded to a value;
comparisons keep the member on the left; operands that are binary stand in groups; methods of
members become patterns, lists and null checks. A quantified predicate on a collection is lowered
to pattern matches on the composites of its elements.
-/

namespace DocStore.Predicate

def constant? (bindings : Bindings) (e : Expr) : Except Error (Option Value) :=
  match e.fold bindings with
  | .ok v => .ok (some v)
  | .error .notConstant => .ok none
  | .error (.failed error) => .error error

def stringArgument (bindings : Bindings) (e arg : Expr) : Except Error String := do
  match ← constant? bindings arg with
  | some (.string text) => .ok text
  | _ => .error (Error.unsupported e.display "Expected a constant string argument")

def logical? : BinaryOp → Option Operator
  | .and => some .and
  | .or => some .or
  | _ => none

def comparison? : BinaryOp → Option Operator
  | .equal => some .equal
  | .notEqual => some .notEqual
  | .lessThan => some .lessThan
  | .lessOrEqual => some .lessOrEqual
  | .greaterThan => some .greaterThan
  | .greaterOrEqual => some .greaterOrEqual
  | _ => none

def operand (e : Expr) (nodes : List Node) : List Node :=
  if e.isBinary then .startGroup :: nodes ++ [.endGroup] else nodes

def comparedWith (e : Expr) (op : BinaryOp) (v : Value) : Except Error (List Node) :=
  if v.isNull then
    match op with
    | .equal => .ok [.operator .is, .null]
    | .notEqual => .ok [.operator .isNot, .null]
    | _ => .error (Error.unsupported e.display "Only == and != can compare with null")
  else
    match comparison? op with
    | some op => .ok [.operator op, .value v]
    | none => .error (Error.unsupported e.display "Unsupported expression")

def constantNodes (bindings : Bindings) (e : Expr) : Except Error (List Node) := do
  match ← constant? bindings e with
  | some v => .ok [.ofValue v]
  | none => .error (Error.unsupported e.display "Unsupported expression")

def memberNodes (schema : Schema) (bindings : Bindings) (parameter : String) (e : Expr) :
    Except Error (List Node) := do
  match ← constant? bindings e with
  | some v => .ok [.ofValue v]
  | none =>
    let m ← MemberRef.ofExpr schema parameter e
    .ok [.member m]

/-- What `element.Path` refers to inside a quantified predicate on the collection `collection`. -/
def elementMember (schema : Schema) (collection element : String) (body member : Expr) :
    Except Error MemberRef :=
  match member.memberPath? element with
  | some suffix =>
    let path := if suffix.isEmpty then collection else collection ++ "." ++ suffix
    .ok (MemberRef.resolve schema path false)
  | none => .error (Error.unsupported body.display "Any predicate must reference the element")

/-- Some element differs from the text: the composite is there and is not the text alone. -/
def elementDiffers (m : MemberRef) (text : String) : List Node :=
  [.startGroup, .startGroup, .member m, .operator .isNot, .null, .endGroup, .operator .and,
    .startGroup, .member m, .operator .notEqual, .value (.string (Composite.element text)),
    .endGroup, .endGroup]

def likeNodes (m : MemberRef) (pattern : String) : List Node :=
  [.member m, .operator .like, .value (.string pattern)]

def elementComparison (schema : Schema) (bindings : Bindings) (collection element : String)
    (op : BinaryOp) (left right : Expr) : Except Error (List Node) := do
  let body := Expr.binary op left right
  let leftValue ← constant? bindings left
  let rightValue ← constant? bindings right
  let (member, v) ← match leftValue, rightValue with
    | none, some v => .ok (left, v)
    | some v, none => .ok (right, v)
    | _, _ =>
      .error (Error.unsupported body.display "Any predicate must compare an element with a value")
  match v.text? with
  | none => .error (Error.unsupported body.display "Any predicate cannot compare with null")
  | some text =>
    let m ← elementMember schema collection element body member
    .ok (if op = .notEqual then elementDiffers m text else likeNodes m (Pattern.hasElement text))

def elementCall (schema : Schema) (bindings : Bindings) (collection element : String)
    (target : Expr) (method : String) (arg : Expr) : Except Error (List Node) := do
  let body := Expr.methodCall target method [arg]
  let text ← stringArgument bindings body arg
  let pattern ←
    if method = "StartsWith" then .ok (Pattern.hasElementStartingWith text)
    else if method = "EndsWith" then .ok (Pattern.hasElementEndingWith text)
    else if method = "Contains" then .ok (Pattern.contains text)
    else .error (Error.unsupported body.display "Unsupported method call in Any predicate")
  let m ← elementMember schema collection element body target
  .ok (likeNodes m pattern)

def quantified (schema : Schema) (bindings : Bindings) (collection element : String) :
    Expr → Except Error (List Node)
  | .binary op left right =>
    match logical? op with
    | some logical => do
      let l ← quantified schema bindings collection element left
      let r ← quantified schema bindings collection element right
      .ok (operand left l ++ .operator logical :: operand right r)
    | none =>
      if op = .equal ∨ op = .notEqual then
        elementComparison schema bindings collection element op left right
      else
        .error (Error.unsupported (Expr.binary op left right).display "Unsupported Any predicate")
  | .methodCall target method [arg] =>
    elementCall schema bindings collection element target method arg
  | body => .error (Error.unsupported body.display "Unsupported Any predicate")

def matchCall (schema : Schema) (bindings : Bindings) (parameter : String) (target : Expr)
    (method : String) (arg : Expr) : Except Error (List Node) := do
  let m ← MemberRef.ofExpr schema parameter target
  let text ← stringArgument bindings (.methodCall target method [arg]) arg
  let collection := (schema.accessor? m.path).any Accessor.isCollection
  let pattern :=
    if method = "Contains" then
      if collection then Pattern.hasElement text else Pattern.contains text
    else if method = "StartsWith" then Pattern.startsWith text
    else if method = "EndsWith" then Pattern.endsWith text
    else text
  .ok (likeNodes m pattern)

/-- Membership of a member's value in a list; a single value is a list of one. -/
def listCall (schema : Schema) (bindings : Bindings) (parameter : String) (target : Expr)
    (method : String) (arg : Expr) : Except Error (List Node) := do
  let m ← MemberRef.ofExpr schema parameter target
  let values ← match ← constant? bindings arg with
    | some (.list values) => .ok values
    | some v => .ok [v]
    | none =>
      .error (Error.unsupported (Expr.methodCall target method [arg]).display
        "In expects constant values")
  let op := if method = "In" then Operator.inList else Operator.notInList
  .ok [.member m, .operator op, .value (.list values)]

def anyCall (schema : Schema) (parameter : String) (target : Expr) : Except Error (List Node) := do
  let m ← MemberRef.ofExpr schema parameter target
  .ok [.member m, .operator .isNot, .null]

def quantifiedCall (schema : Schema) (bindings : Bindings) (parameter : String) (target : Expr)
    (element : String) (body : Expr) : Except Error (List Node) :=
  match target.memberPath? parameter with
  | some collection => quantified schema bindings collection element body
  | none =>
    .error (Error.unsupported target.display "Any expects a member of the queried item")

def memberCall (schema : Schema) (bindings : Bindings) (parameter : String) (target : Expr)
    (method : String) (args : List Expr) : Except Error (List Node) :=
  let unsupported : Except Error (List Node) :=
    .error (Error.unsupported (Expr.methodCall target method args).display
      "Unsupported method call")
  match args with
  | [] => if method = "Any" then anyCall schema parameter target else unsupported
  | [arg] =>
    if method ∈ ["StartsWith", "EndsWith", "Contains", "Like"] then
      matchCall schema bindings parameter target method arg
    else if method = "In" ∨ method = "NotIn" then
      listCall schema bindings parameter target method arg
    else if method = "Any" then
      match arg with
      | .lambda element body => quantifiedCall schema bindings parameter target element body
      | _ => unsupported
    else unsupported
  | _ => unsupported

/-- The member of a negation that is compared with false instead. -/
def negatedMember? (schema : Schema) (parameter : String) (e : Expr) :
    Except Error (Option MemberRef) :=
  match e with
  | .member _ _ =>
    if e.referencesParam then do
      let m ← MemberRef.ofExpr schema parameter e
      .ok (if m.isBoolean || m.hasValue then some m else none)
    else .ok none
  | _ => .ok none

def visit (schema : Schema) (bindings : Bindings) (parameter : String) :
    Expr → Except Error (List Node)
  | .binary op left right =>
    match logical? op with
    | some logical => do
      let l ← visit schema bindings parameter left
      let r ← visit schema bindings parameter right
      .ok (operand left l ++ .operator logical :: operand right r)
    | none =>
      match comparison? op with
      | some operator => do
        let e := Expr.binary op left right
        let leftValue ← constant? bindings left
        let rightValue ← constant? bindings right
        match leftValue, rightValue with
        | some _, some _ =>
          .error (Error.unsupported e.display "Comparison does not reference the queried item")
        | some v, none =>
          let nodes ← visit schema bindings parameter right
          let compared ← comparedWith e op.swapped v
          .ok (operand right nodes ++ compared)
        | none, some v =>
          let nodes ← visit schema bindings parameter left
          let compared ← comparedWith e op v
          .ok (operand left nodes ++ compared)
        | none, none =>
          let l ← visit schema bindings parameter left
          let r ← visit schema bindings parameter right
          .ok (operand left l ++ .operator operator :: operand right r)
      | none => constantNodes bindings (.binary op left right)
  | .unary .not e => do
    match ← negatedMember? schema parameter e with
    | some m => .ok [.member m, .operator .equal, .value (.boolean false)]
    | none =>
      let nodes ← visit schema bindings parameter e
      .ok (.operator .not :: .startGroup :: nodes ++ [.endGroup])
  | .unary .negate e => constantNodes bindings (.unary .negate e)
  | .member target name => memberNodes schema bindings parameter (.member target name)
  | .param name => memberNodes schema bindings parameter (.param name)
  | .methodCall target method args =>
    if target.referencesParam then memberCall schema bindings parameter target method args
    else constantNodes bindings (.methodCall target method args)
  | e => constantNodes bindings e

/-- The node sequence of a predicate, which must refer to a member of the item. -/
def ofLambda (schema : Schema) (bindings : Bindings) (mode : HasValueMode) (l : Lambda) :
    Except Error (List Node) := do
  let nodes ← visit schema bindings l.param l.body
  if nodes.any Node.isMember then .ok (complete mode nodes)
  else .error (Error.unsupported l.display "Predicate does not reference the queried item")

end DocStore.Predicate
