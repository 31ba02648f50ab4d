import DocStore.Error
import DocStore.Expr.Basic
import DocStore.Number.Numeral

/-!
# Expressions read from text

The grammar has one level per strength of binding, from `||` down to member access and calls.
Every reader takes white space before each token. A reader that fails answers the text at which the
failing token was tried. Levels are functions of the reader `nested` for whole expressions, which
stands between brackets and behind `=>`; `expression` ties the knot, as deep as the text is long.

Names become parameters afterwards: `Expr.resolve` turns each captured name that an enclosing
lambda binds into a reference to its parameter.
-/

namespace DocStore.Expr

/-- What is read from the front of a text and the text that follows, or the text of the failure. -/
abbrev Reader (α : Type) := List Char → Except (List Char) (α × List Char)

namespace Parser

def isSpace (c : Char) : Bool :=
  c = ' ' || c = '\t' || c = '\r' || c = '\n'

def skipSpace (text : List Char) : List Char :=
  text.dropWhile isSpace

def isNameStart (c : Char) : Bool :=
  c.isAlpha || c = '_'

def isNameChar (c : Char) : Bool :=
  c.isAlphanum || c = '_'

def token? (symbol : List Char) (text : List Char) : Option (List Char) :=
  let text := skipSpace text
  if text.take symbol.length = symbol then some (text.drop symbol.length) else none

def token (symbol : List Char) (text : List Char) : Except (List Char) (List Char) :=
  match token? symbol text with
  | some rest => .ok rest
  | none => .error (skipSpace text)

def identifier : Reader String := fun text =>
  let text := skipSpace text
  match text with
  | [] => .error text
  | c :: rest =>
    if isNameStart c then
      .ok (String.ofList (c :: rest.takeWhile isNameChar), rest.dropWhile isNameChar)
    else .error text

def unescape (c : Char) : Char :=
  if c = 'n' then '\n' else if c = 't' then '\t' else if c = 'r' then '\r' else c

def stringRest? : List Char → Option (List Char × List Char)
  | [] => none
  | '"' :: rest => some ([], rest)
  | '\\' :: c :: rest => (stringRest? rest).map fun (chars, rest) => (unescape c :: chars, rest)
  | c :: rest => (stringRest? rest).map fun (chars, rest) => (c :: chars, rest)

/-- A string literal; one that is not closed fails at its opening quote. -/
def stringLiteral : Reader Expr := fun text =>
  match text with
  | '"' :: rest =>
    match stringRest? rest with
    | some (chars, rest) => .ok (constant (.string (String.ofList chars)), rest)
    | none => .error text
  | _ => .error text

/-- Digits with an optional fraction. A whole number beyond 64 bits fails at its first digit. -/
def number : Reader Expr := fun text =>
  let whole := text.takeWhile Char.isDigit
  let rest := text.dropWhile Char.isDigit
  let integer : Except (List Char) (Expr × List Char) :=
    match int64? (Numeral.ofDigits whole) with
    | some i => .ok (constant (.integer i), rest)
    | none => .error text
  match rest with
  | '.' :: c :: more =>
    if c.isDigit then
      let fraction := (c :: more).takeWhile Char.isDigit
      let x := Numeral.nearest (Numeral.ofDigits (whole ++ fraction)) (-(fraction.length : Int))
      .ok (constant (.fractal x), (c :: more).dropWhile Char.isDigit)
    else integer
  | _ => integer

section
variable (nested : Reader Expr)

def lambdaParts : Reader Lambda := fun text => do
  let (name, rest) ← identifier text
  let rest ← token ['=', '>'] rest
  let (body, rest) ← nested rest
  .ok (⟨name, body⟩, rest)

/-- A lambda, and where there is none an expression. -/
def argument : Reader Expr := fun text =>
  match lambdaParts nested text with
  | .ok (l, rest) => .ok (lambda l.param l.body, rest)
  | .error _ => nested text

def moreArguments : Nat → Reader (List Expr)
  | 0, text => .ok ([], text)
  | fuel + 1, text =>
    match token? [','] text with
    | none => .ok ([], text)
    | some rest => do
      let (first, rest) ← argument nested rest
      let (others, rest) ← moreArguments fuel rest
      .ok (first :: others, rest)

def arguments (opening closing : Char) : Reader (List Expr) := fun text => do
  let rest ← token [opening] text
  match token? [closing] rest with
  | some rest => .ok ([], rest)
  | none =>
    let (first, rest) ← argument nested rest
    let (others, rest) ← moreArguments nested rest.length rest
    let rest ← token [closing] rest
    .ok (first :: others, rest)

/-- A word is a literal, a call if arguments follow it, and else a captured name. -/
def named (name : String) (rest : List Char) : Expr × List Char :=
  if name = "true" then (constant (.boolean true), rest)
  else if name = "false" then (constant (.boolean false), rest)
  else if name = "null" then (constant .null, rest)
  else
    match arguments nested '(' ')' rest with
    | .ok (args, rest) => (call name args, rest)
    | .error _ => (captured name, rest)

def primary : Reader Expr := fun text =>
  let text := skipSpace text
  match text with
  | [] => .error []
  | c :: _ =>
    if c = '"' then stringLiteral text
    else if c.isDigit then number text
    else if c = '(' then do
      let rest ← token ['('] text
      let (inner, rest) ← nested rest
      let rest ← token [')'] rest
      .ok (inner, rest)
    else if c = '[' then do
      let (items, rest) ← arguments nested '[' ']' text
      .ok (array items, rest)
    else do
      let (name, rest) ← identifier text
      .ok (named nested name rest)

def postfixRest : Nat → Expr → Reader Expr
  | 0, target, text => .ok (target, text)
  | fuel + 1, target, text =>
    match token? ['.'] text with
    | none => .ok (target, text)
    | some rest => do
      let (name, rest) ← identifier rest
      match arguments nested '(' ')' rest with
      | .ok (args, rest) => postfixRest fuel (methodCall target name args) rest
      | .error _ => postfixRest fuel (member target name) rest

def postfixed : Reader Expr := fun text => do
  let (target, rest) ← primary nested text
  postfixRest nested rest.length target rest

/-- Minus before a numeric constant is part of the constant. -/
def negated (operand : Expr) : Expr :=
  match operand with
  | constant (.integer i) =>
    if i = Int64.minValue then unary .negate operand else constant (.integer (-i))
  | constant (.fractal x) => constant (.fractal (-x))
  | _ => unary .negate operand

def unaryLevel : Nat → Reader Expr
  | 0, text => postfixed nested text
  | fuel + 1, text =>
    match token? ['!'] text with
    | some rest => do
      let (operand, rest) ← unaryLevel fuel rest
      .ok (unary .not operand, rest)
    | none =>
      match token? ['-'] text with
      | some rest => do
        let (operand, rest) ← unaryLevel fuel rest
        .ok (negated operand, rest)
      | none => postfixed nested text

def prefixed : Reader Expr := fun text => unaryLevel nested text.length text

end

def operator? (operators : List (List Char × BinaryOp)) (text : List Char) :
    Option (BinaryOp × List Char) :=
  operators.findSome? fun (symbol, op) => (token? symbol text).map fun rest => (op, rest)

def chainRest (operand : Reader Expr) (operators : List (List Char × BinaryOp)) :
    Nat → Expr → Reader Expr
  | 0, left, text => .ok (left, text)
  | fuel + 1, left, text =>
    match operator? operators text with
    | none => .ok (left, text)
    | some (op, rest) => do
      let (right, rest) ← operand rest
      chainRest operand operators fuel (binary op left right) rest

def chain (operand : Reader Expr) (operators : List (List Char × BinaryOp)) : Reader Expr :=
  fun text => do
    let (left, rest) ← operand text
    chainRest operand operators rest.length left rest

def multiplicativeOps : List (List Char × BinaryOp) :=
  [(['*'], .multiply), (['/'], .divide)]

def additiveOps : List (List Char × BinaryOp) :=
  [(['+'], .add), (['-'], .subtract)]

/-- Operators of two characters stand before those that begin them. -/
def comparisonOps : List (List Char × BinaryOp) :=
  [(['=', '='], .equal), (['!', '='], .notEqual), (['<', '='], .lessOrEqual),
    (['>', '='], .greaterOrEqual), (['<'], .lessThan), (['>'], .greaterThan)]

def andOps : List (List Char × BinaryOp) :=
  [(['&', '&'], .and)]

def orOps : List (List Char × BinaryOp) :=
  [(['|', '|'], .or)]

def multiplicative (nested : Reader Expr) : Reader Expr :=
  chain (prefixed nested) multiplicativeOps

def additive (nested : Reader Expr) : Reader Expr :=
  chain (multiplicative nested) additiveOps

/-- At most one comparison: the level does not associate. -/
def comparison (nested : Reader Expr) : Reader Expr := fun text => do
  let (left, rest) ← additive nested text
  match operator? comparisonOps rest with
  | none => .ok (left, rest)
  | some (op, rest) =>
    let (right, rest) ← additive nested rest
    .ok (binary op left right, rest)

def conjunction (nested : Reader Expr) : Reader Expr :=
  chain (comparison nested) andOps

def disjunction (nested : Reader Expr) : Reader Expr :=
  chain (conjunction nested) orOps

def expression : Nat → Reader Expr
  | 0, text => .error text
  | depth + 1, text => disjunction (expression depth) text

end Parser

mutual

/-- Turns captured names that are in scope into parameters. -/
def resolve (scope : List String) : Expr → Expr
  | captured name => if name ∈ scope then param name else captured name
  | param name => param name
  | constant v => constant v
  | member target name => member (resolve scope target) name
  | binary op left right => binary op (resolve scope left) (resolve scope right)
  | unary op operand => unary op (resolve scope operand)
  | call method args => call method (resolveList scope args)
  | methodCall target method args =>
    methodCall (resolve scope target) method (resolveList scope args)
  | lambda p body => lambda p (resolve (p :: scope) body)
  | array items => array (resolveList scope items)

def resolveList (scope : List String) : List Expr → List Expr
  | [] => []
  | e :: rest => resolve scope e :: resolveList scope rest

end

end DocStore.Expr

namespace DocStore.Lambda

/-- The lambda that a text writes. Every nesting takes a character, so the depth is enough. -/
def ofText (input : String) : Except Error Lambda :=
  let text := input.toList
  match Expr.Parser.lambdaParts (Expr.Parser.expression (text.length + 1)) text with
  | .error rest => .error (Error.unexpectedInput (String.ofList rest))
  | .ok (l, rest) =>
    let rest := Expr.Parser.skipSpace rest
    if rest.isEmpty then .ok ⟨l.param, Expr.resolve [l.param] l.body⟩
    else .error (Error.trailingInput (String.ofList rest) input)

end DocStore.Lambda
