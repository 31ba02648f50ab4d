import DocStore.Proofs.Predicate.Filters

/-!
# The meaning of unquantified predicates

`Predicate.truth` evaluates a predicate as it is written, tree by tree, in three-valued logic.
`Unquantified` are the predicates built by `&&`, `||` and `!` from comparisons of members, boolean
members, checks for a value and methods of members.
-/

namespace DocStore

/-- The values of an item's members by path. Boolean members hold booleans or nothing. -/
structure MemberValues (schema : Schema) where
  value : String → Value
  boolean : ∀ path, (MemberRef.resolve schema path false).isBoolean = true →
    value path = .null ∨ ∃ b, value path = .boolean b

namespace Interpretation

def compare (I : Interpretation) (op : BinaryOp) (a b : Value) : Truth :=
  if a.isNull || b.isNull then .unknown
  else
    match op with
    | .equal => I.equal a b
    | .notEqual => (I.equal a b).not
    | .lessThan => I.less a b
    | .greaterThan => I.less b a
    | .lessOrEqual => I.atMost a b
    | .greaterOrEqual => I.atMost b a
    | _ => .unknown

/-- What a method of strings asks of a text as a pattern; collections are asked for an element. -/
def pattern? (collection : Bool) (method text : String) : Option String :=
  if method = "StartsWith" then some (Pattern.startsWith text)
  else if method = "EndsWith" then some (Pattern.endsWith text)
  else if method = "Contains" then
    some (if collection then Pattern.hasElement text else Pattern.contains text)
  else if method = "Like" then some text
  else none

def matching (I : Interpretation) (collection : Bool) (method text : String) (a : Value) : Truth :=
  match pattern? collection method text with
  | some pattern => if a.isNull then .unknown else I.like a (.string pattern)
  | none => .unknown

/-- The members of a list; a value that is no list is a list of one. -/
def items : Value → List Value
  | .list values => values
  | v => [v]

def oneOf (I : Interpretation) (method : String) (a c : Value) : Truth :=
  let within := I.within a (items c)
  if method = "In" then within else if method = "NotIn" then within.not else .unknown

end Interpretation

namespace Predicate

section

variable (schema : Schema) (bindings : Bindings) (parameter : String) (I : Interpretation)
  (values : MemberValues schema)

/-- The value of a side of a comparison: of a constant, of a member, or whether a member has
one. -/
def sideValue (e : Expr) : Value :=
  match e.fold bindings with
  | .ok v => v
  | .error _ =>
    match MemberRef.ofExpr schema parameter e with
    | .ok m => if m.hasValue then .boolean !(values.value m.path).isNull else values.value m.path
    | .error _ => .null

def isNullConstant (e : Expr) : Bool :=
  match e.fold bindings with
  | .ok v => v.isNull
  | .error _ => false

def nullTest (op : BinaryOp) (v : Value) : Truth :=
  match op with
  | .equal => .ofBool v.isNull
  | .notEqual => .ofBool !v.isNull
  | _ => .unknown

def comparisonTruth (op : BinaryOp) (l r : Expr) : Truth :=
  let left := sideValue schema bindings parameter values l
  let right := sideValue schema bindings parameter values r
  if isNullConstant bindings l then nullTest op right
  else if isNullConstant bindings r then nullTest op left
  else I.compare op left right

def isCollection (e : Expr) : Bool :=
  match MemberRef.ofExpr schema parameter e with
  | .ok m => (schema.accessor? m.path).any Accessor.isCollection
  | .error _ => false

def callTruth (target : Expr) (method : String) (args : List Expr) : Truth :=
  let v := sideValue schema bindings parameter values target
  match args with
  | [] => if method = "Any" then .ofBool !v.isNull else .unknown
  | [arg] =>
    match arg.fold bindings with
    | .ok c =>
      if method = "In" ∨ method = "NotIn" then I.oneOf method v c
      else
        match c with
        | .string text => I.matching (isCollection schema parameter target) method text v
        | _ => .unknown
    | .error _ => .unknown
  | _ => .unknown

def flagTruth : Value → Truth
  | .boolean b => .ofBool b
  | _ => .unknown

/-- The value of a predicate, by its structure. -/
def truth : Expr → Truth
  | .binary op l r =>
    match op with
    | .and => (truth l).and (truth r)
    | .or => (truth l).or (truth r)
    | op => comparisonTruth schema bindings parameter I values op l r
  | .unary .not e => (truth e).not
  | .methodCall target method args =>
    callTruth schema bindings parameter I values target method args
  | e => flagTruth (sideValue schema bindings parameter values e)

def IsMember (e : Expr) : Prop :=
  ∃ m, MemberRef.ofExpr schema parameter e = .ok m ∧ m.hasValue = false

def IsCheck (e : Expr) : Prop :=
  ∃ m, MemberRef.ofExpr schema parameter e = .ok m ∧ m.hasValue = true

/-- Predicates on members that are not put together from others and do not look into
collections. -/
inductive IsAtom : Expr → Prop where
  | compare {op : BinaryOp} {l r : Expr} {v : Value} (hop : (comparison? op).isSome)
    (hl : IsMember schema parameter l) (hr : r.fold bindings = .ok v) (hv : v ≠ .null)
    (hlist : ∀ items, v ≠ .list items) : IsAtom (.binary op l r)
  | compareLeft {op : BinaryOp} {l r : Expr} {v : Value} (hop : (comparison? op).isSome)
    (hl : l.fold bindings = .ok v) (hr : IsMember schema parameter r) (hv : v ≠ .null)
    (hlist : ∀ items, v ≠ .list items) : IsAtom (.binary op l r)
  | null {op : BinaryOp} {l r : Expr} (hop : op = .equal ∨ op = .notEqual)
    (hl : IsMember schema parameter l) (hr : r.fold bindings = .ok .null) :
    IsAtom (.binary op l r)
  | nullLeft {op : BinaryOp} {l r : Expr} (hop : op = .equal ∨ op = .notEqual)
    (hl : l.fold bindings = .ok .null) (hr : IsMember schema parameter r) :
    IsAtom (.binary op l r)
  | members {op : BinaryOp} {l r : Expr} (hop : (comparison? op).isSome)
    (hl : IsMember schema parameter l) (hr : IsMember schema parameter r) :
    IsAtom (.binary op l r)
  | boolean {e : Expr} {m : MemberRef} (he : MemberRef.ofExpr schema parameter e = .ok m)
    (hb : m.isBoolean = true) (hm : m.hasValue = false) : IsAtom e
  | check {e : Expr} (he : IsCheck schema parameter e) : IsAtom e
  | matching {target arg : Expr} {method text : String}
    (hm : method ∈ ["StartsWith", "EndsWith", "Contains", "Like"])
    (ht : IsMember schema parameter target) (ha : arg.fold bindings = .ok (.string text)) :
    IsAtom (.methodCall target method [arg])
  | listed {target arg : Expr} {method : String} {v : Value}
    (hm : method = "In" ∨ method = "NotIn")
    (ht : IsMember schema parameter target) (ha : arg.fold bindings = .ok v) :
    IsAtom (.methodCall target method [arg])
  | any {target : Expr} (ht : IsMember schema parameter target) :
    IsAtom (.methodCall target "Any" [])

/-- Predicates built from atoms and from checks for a value that are compared with a boolean. -/
inductive Unquantified : Expr → Prop where
  | and {l r : Expr} : Unquantified l → Unquantified r → Unquantified (.binary .and l r)
  | or {l r : Expr} : Unquantified l → Unquantified r → Unquantified (.binary .or l r)
  | not {e : Expr} : Unquantified e → Unquantified (.unary .not e)
  | atom {e : Expr} : IsAtom schema bindings parameter e → Unquantified e
  | flag {op : BinaryOp} {l r : Expr} {b : Bool} (hop : op = .equal ∨ op = .notEqual)
    (hl : IsCheck schema parameter l) (hr : r.fold bindings = .ok (.boolean b)) :
    Unquantified (.binary op l r)
  | flagLeft {op : BinaryOp} {l r : Expr} {b : Bool} (hop : op = .equal ∨ op = .notEqual)
    (hl : l.fold bindings = .ok (.boolean b)) (hr : IsCheck schema parameter r) :
    Unquantified (.binary op l r)

end

end Predicate

end DocStore
