import DocStore.Expr.Parser

/-!
# Renderings of lambdas

A lambda has many texts. `Writes` relates an expression to all of them: any amount of space may
stand before a token, parentheses may stand around every expression but a lambda, and they must
stand where an operand binds more loosely than its place requires. Binary operators have the levels
0 to 4, prefixes have level 5, and member accesses, calls and whatever is one token or stands
between brackets have level 6.
-/

namespace DocStore

namespace BinaryOp

def level : BinaryOp → Nat
  | or => 0
  | and => 1
  | equal | notEqual | lessThan | lessOrEqual | greaterThan | greaterOrEqual => 2
  | add | subtract => 3
  | multiply | divide => 4

/-- The level of a left operand: comparisons do not associate, all others do to the left. -/
def leftLevel (op : BinaryOp) : Nat :=
  if op.level = 2 then 3 else op.level

theorem level_le_leftLevel (op : BinaryOp) : op.level ≤ op.leftLevel := by
  cases op <;> decide

end BinaryOp

namespace Expr

open DocStore.Expr.Parser (isSpace isNameStart isNameChar)

/-- The text is the token with any amount of space before it. -/
def Spaced (token text : List Char) : Prop :=
  ∃ space, (∀ c ∈ space, isSpace c = true) ∧ text = space ++ token

def isIdentifier : List Char → Bool
  | [] => false
  | c :: rest => isNameStart c && rest.all isNameChar

def escaped : List Char → List Char
  | [] => []
  | c :: rest => if c = '"' ∨ c = '\\' then '\\' :: c :: escaped rest else c :: escaped rest

structure Digits (digits : List Char) (n : Int) : Prop where
  nonempty : digits ≠ []
  digit : ∀ c ∈ digits, c.isDigit = true
  value : (Numeral.ofDigits digits : Int) = n

inductive Bracket where
  | round
  | square

namespace Bracket

def opening : Bracket → Char
  | round => '('
  | square => '['

def closing : Bracket → Char
  | round => ')'
  | square => ']'

end Bracket

def literals : List (Value × String) :=
  [(.null, "null"), (.boolean true, "true"), (.boolean false, "false")]

/-- What stands in a text: an operand in a place of some level, an item of a list, the items after
the first with their commas, or a whole list with its brackets. -/
inductive Phrase where
  | operand (level : Nat) (e : Expr)
  | item (e : Expr)
  | more (items : List Expr)
  | list (bracket : Bracket) (items : List Expr)

inductive Writes : Phrase → List Char → Prop where
  | param {name t} : Spaced name.toList t → Writes (.operand 6 (param name)) t
  | captured {name t} : Spaced name.toList t → Writes (.operand 6 (captured name)) t
  | literal {v name t} : (v, name) ∈ literals → Spaced name.toList t →
      Writes (.operand 6 (constant v)) t
  | string {s t} : Spaced ('"' :: (escaped s.toList ++ ['"'])) t →
      Writes (.operand 6 (constant (.string s))) t
  | integer {i digits t} : Digits digits i.toInt → Spaced digits t →
      Writes (.operand 6 (constant (.integer i))) t
  | negative {i digits a t} : Spaced ['-'] a → Digits digits (-i.toInt) → Spaced digits t →
      Writes (.operand 5 (constant (.integer i))) (a ++ t)
  | array {items t} : Writes (.list .square items) t → Writes (.operand 6 (array items)) t
  | call {method args a t} : Spaced method.toList a → Writes (.list .round args) t →
      Writes (.operand 6 (call method args)) (a ++ t)
  | member {target name t a b} : Writes (.operand 6 target) t → Spaced ['.'] a →
      Spaced name.toList b → Writes (.operand 6 (member target name)) (t ++ (a ++ b))
  | methodCall {target method args t a b u} : Writes (.operand 6 target) t → Spaced ['.'] a →
      Spaced method.toList b → Writes (.list .round args) u →
      Writes (.operand 6 (methodCall target method args)) (t ++ (a ++ (b ++ u)))
  | not {e a t} : Spaced ['!'] a → Writes (.operand 5 e) t →
      Writes (.operand 5 (unary .not e)) (a ++ t)
  | negate {e a t} : Spaced ['-'] a → Writes (.operand 5 e) t →
      Writes (.operand 5 (unary .negate e)) (a ++ t)
  | binary {op left right t a u} : Writes (.operand op.leftLevel left) t →
      Spaced op.symbol.toList a → Writes (.operand (op.level + 1) right) u →
      Writes (.operand op.level (binary op left right)) (t ++ (a ++ u))
  | parentheses {e a t b} : Spaced ['('] a → Writes (.operand 0 e) t → Spaced [')'] b →
      Writes (.operand 6 e) (a ++ (t ++ b))
  | tighter {n e t} : Writes (.operand (n + 1) e) t → Writes (.operand n e) t
  | lambda {p body a b t} : Spaced p.toList a → Spaced ['=', '>'] b → Writes (.operand 0 body) t →
      Writes (.item (lambda p body)) (a ++ (b ++ t))
  | expression {e t} : Writes (.operand 0 e) t → Writes (.item e) t
  | last : Writes (.more []) []
  | further {e rest a t u} : Spaced [','] a → Writes (.item e) t → Writes (.more rest) u →
      Writes (.more (e :: rest)) (a ++ (t ++ u))
  | empty {k : Bracket} {a b} : Spaced [k.opening] a → Spaced [k.closing] b →
      Writes (.list k []) (a ++ b)
  | items {k : Bracket} {e rest a t u b} : Spaced [k.opening] a → Writes (.item e) t →
      Writes (.more rest) u → Spaced [k.closing] b →
      Writes (.list k (e :: rest)) (a ++ (t ++ (u ++ b)))

theorem Writes.looser {m n : Nat} {e : Expr} {t : List Char} (hmn : m ≤ n)
    (h : Writes (.operand n e) t) : Writes (.operand m e) t := by
  induction hmn with
  | refl => exact h
  | step _ ih => exact ih (.tighter h)

def IsName (name : String) : Prop :=
  isIdentifier name.toList = true

def IsWord (name : String) : Prop :=
  IsName name ∧ name ∉ literals.map Prod.snd

instance (name : String) : Decidable (IsName name) :=
  inferInstanceAs (Decidable (_ = true))

instance (name : String) : Decidable (IsWord name) :=
  inferInstanceAs (Decidable (_ ∧ _))

/-- The smallest integer has no text: its digits alone are out of range. -/
def IsLiteral : Value → Prop
  | .null | .boolean _ | .string _ => True
  | .integer i => i ≠ Int64.minValue
  | _ => False

def isInteger : Expr → Bool
  | constant (.integer _) => true
  | _ => false

mutual

/-- Names can be written and mean what they should: the parameters in scope are those that are
referred to. A minus before digits is read as part of them, and a lambda stands only as an item. -/
def Writable (scope : List String) (item : Bool) : Expr → Prop
  | param name => IsWord name ∧ name ∈ scope
  | captured name => IsWord name ∧ name ∉ scope
  | constant v => IsLiteral v
  | member target name => Writable scope false target ∧ IsName name
  | binary _ left right => Writable scope false left ∧ Writable scope false right
  | unary op operand => Writable scope false operand ∧ (op = .negate → operand.isInteger = false)
  | call method args => IsWord method ∧ WritableList scope args
  | methodCall target method args =>
    Writable scope false target ∧ IsName method ∧ WritableList scope args
  | lambda p body => item = true ∧ IsName p ∧ Writable (p :: scope) false body
  | array items => WritableList scope items

def WritableList (scope : List String) : List Expr → Prop
  | [] => True
  | e :: rest => Writable scope true e ∧ WritableList scope rest

end

def Phrase.Writable (scope : List String) : Phrase → Prop
  | .operand _ e => ∃ item, Expr.Writable scope item e
  | .item e => ∃ item, Expr.Writable scope item e
  | .more items => WritableList scope items
  | .list _ items => WritableList scope items

end Expr

namespace Lambda

def Writable (l : Lambda) : Prop :=
  Expr.IsName l.param ∧ l.body.Writable [l.param] false

/-- The text is the parameter, the arrow, the body, and any amount of space. -/
def Renders (l : Lambda) (text : String) : Prop :=
  ∃ a b t space, Expr.Spaced l.param.toList a ∧ Expr.Spaced ['=', '>'] b ∧
    Expr.Writes (.operand 0 l.body) t ∧ (∀ c ∈ space, Expr.Parser.isSpace c = true) ∧
    text.toList = a ++ (b ++ (t ++ space))

end Lambda

end DocStore
