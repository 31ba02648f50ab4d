import DocStore.Predicate.Node

/-!
# Reading node sequences as conditions

A node sequence is read as SQL reads the predicate it becomes: groups are parentheses, `not` binds
tighter than `and`, and `and` tighter than `or`. `Condition.ofNodes?` is the tree that is read, and
`Condition.truth` its value in three-valued logic for given values of the members.

A piece of a sequence changes what has been read of the group around it and nothing else; `Reads`
names that change, so the reading of a sequence is put together from the readings of its pieces.
-/

namespace DocStore

inductive Truth where
  | yes
  | no
  | unknown
  deriving DecidableEq, Repr, Inhabited

namespace Truth

def ofBool : Bool → Truth
  | true => yes
  | false => no

def not : Truth → Truth
  | yes => no
  | no => yes
  | unknown => unknown

def and : Truth → Truth → Truth
  | yes, b => b
  | no, _ => no
  | unknown, no => no
  | unknown, _ => unknown

def or : Truth → Truth → Truth
  | yes, _ => yes
  | no, b => b
  | unknown, yes => yes
  | unknown, _ => unknown

theorem and_assoc (a b c : Truth) : (a.and b).and c = a.and (b.and c) := by
  cases a <;> cases b <;> cases c <;> rfl

theorem or_assoc (a b c : Truth) : (a.or b).or c = a.or (b.or c) := by
  cases a <;> cases b <;> cases c <;> rfl

@[simp] theorem and_yes (a : Truth) : a.and yes = a := by
  cases a <;> rfl

@[simp] theorem or_no (a : Truth) : a.or no = a := by
  cases a <;> rfl

@[simp] theorem not_not (a : Truth) : a.not.not = a := by
  cases a <;> rfl

@[simp] theorem not_ofBool (b : Bool) : (ofBool b).not = ofBool !b := by
  cases b <;> rfl

theorem ofBool_eq_yes {b : Bool} : ofBool b = yes ↔ b = true := by
  cases b <;> decide

theorem and_eq_yes {a b : Truth} : a.and b = yes ↔ a = yes ∧ b = yes := by
  cases a <;> cases b <;> decide

theorem or_eq_yes {a b : Truth} : a.or b = yes ↔ a = yes ∨ b = yes := by
  cases a <;> cases b <;> decide

end Truth

/-- How a database relates values: any relations, as long as equality does not depend on the order
of its sides and is what it should be on booleans. `equal`, `less` and `atMost` are asked of values
that are not null only. -/
structure Interpretation where
  equal : Value → Value → Truth
  less : Value → Value → Truth
  atMost : Value → Value → Truth
  like : Value → Value → Truth
  within : Value → List Value → Truth
  equal_comm : ∀ a b, equal a b = equal b a
  equal_boolean : ∀ a b, equal (.boolean a) (.boolean b) = .ofBool (a == b)

namespace Interpretation

variable (I : Interpretation)

def listed : Value → List Value
  | .list values => values
  | _ => []

/-- An operator between two values. Comparisons with null are unknown. -/
def relate (op : Operator) (a b : Value) : Truth :=
  match op with
  | .is => .ofBool a.isNull
  | .isNot => .ofBool !a.isNull
  | .inList => I.within a (listed b)
  | .notInList => (I.within a (listed b)).not
  | .and | .or | .not => .unknown
  | .equal => if a.isNull || b.isNull then .unknown else I.equal a b
  | .notEqual => if a.isNull || b.isNull then .unknown else (I.equal a b).not
  | .lessThan => if a.isNull || b.isNull then .unknown else I.less a b
  | .lessOrEqual => if a.isNull || b.isNull then .unknown else I.atMost a b
  | .greaterThan => if a.isNull || b.isNull then .unknown else I.less b a
  | .greaterOrEqual => if a.isNull || b.isNull then .unknown else I.atMost b a
  | .like => if a.isNull || b.isNull then .unknown else I.like a b

end Interpretation

inductive Operand where
  | member (path : String)
  | value (v : Value)
  | null
  deriving DecidableEq, Inhabited

def Node.operand? : Node → Option Operand
  | member m => some (.member m.path)
  | value v => some (.value v)
  | null => some .null
  | _ => none

namespace Operand

def valueIn (values : String → Value) : Operand → Value
  | member path => values path
  | value v => v
  | null => .null

def fits : Operator → Operand → Bool
  | .is, null | .isNot, null => true
  | .inList, value (.list _) | .notInList, value (.list _) => true
  | .is, _ | .isNot, _ | .inList, _ | .notInList, _ | .and, _ | .or, _ | .not, _ => false
  | _, _ => true

end Operand

inductive Condition where
  | compare (left : Operand) (op : Operator) (right : Operand)
  | not (c : Condition)
  | and (left right : Condition)
  | or (left right : Condition)
  deriving DecidableEq, Inhabited

namespace Condition

def truth (I : Interpretation) (values : String → Value) : Condition → Truth
  | compare left op right => I.relate op (left.valueIn values) (right.valueIn values)
  | not c => (truth I values c).not
  | and left right => (truth I values left).and (truth I values right)
  | or left right => (truth I values left).or (truth I values right)

def compare? (x : Node) (op : Operator) (y : Node) : Option Condition :=
  match x.operand?, y.operand? with
  | some left, some right => if right.fits op then some (compare left op right) else none
  | _, _ => none

/-- What has been read of one group: the disjuncts before the last `or`, the conjuncts after it,
and the number of negations that wait for their operand. -/
structure Pending where
  disjuncts : Option Condition := none
  conjuncts : Option Condition := none
  negations : Nat := 0

def negated : Nat → Condition → Condition
  | 0, c => c
  | n + 1, c => negated n (not c)

namespace Pending

def push (p : Pending) (c : Condition) : Pending :=
  let c := negated p.negations c
  ⟨p.disjuncts, some (match p.conjuncts with | none => c | some d => and d c), 0⟩

def negate (p : Pending) : Pending :=
  { p with negations := p.negations + 1 }

def close (p : Pending) : Option Condition :=
  p.conjuncts.map fun c => match p.disjuncts with | none => c | some d => or d c

def split (p : Pending) : Pending :=
  ⟨p.close, none, 0⟩

end Pending

/-- Reads on in a group of which `p` has been read, inside the groups `outer`; `ended` tells that
an operand has just ended. -/
def readFrom : (ended : Bool) → (p : Pending) → (outer : List Pending) → List Node →
    Option Condition
  | true, p, [], [] => p.close
  | true, p, outer, .operator .and :: rest => readFrom false p outer rest
  | true, p, outer, .operator .or :: rest => readFrom false p.split outer rest
  | true, p, q :: outer, .endGroup :: rest =>
    match p.close with
    | some c => readFrom true (q.push c) outer rest
    | none => none
  | false, p, outer, .operator .not :: rest => readFrom false p.negate outer rest
  | false, p, outer, .startGroup :: rest => readFrom false {} (p :: outer) rest
  | false, p, outer, x :: .operator op :: y :: rest =>
    match compare? x op y with
    | some c => readFrom true (p.push c) outer rest
    | none => none
  | _, _, _, _ => none

section

variable (p : Pending) (outer : List Pending) (rest : List Node)

@[simp] theorem readFrom_nil : readFrom true p [] [] = p.close := rfl

@[simp] theorem readFrom_and :
    readFrom true p outer (.operator .and :: rest) = readFrom false p outer rest := by
  cases outer <;> rfl

@[simp] theorem readFrom_or :
    readFrom true p outer (.operator .or :: rest) = readFrom false p.split outer rest := by
  cases outer <;> rfl

@[simp] theorem readFrom_not :
    readFrom false p outer (.operator .not :: rest) = readFrom false p.negate outer rest := rfl

@[simp] theorem readFrom_startGroup :
    readFrom false p outer (.startGroup :: rest) = readFrom false {} (p :: outer) rest := rfl

theorem readFrom_endGroup {q : Pending} {c : Condition} (h : q.close = some c) :
    readFrom true q (p :: outer) (.endGroup :: rest) = readFrom true (p.push c) outer rest := by
  simp only [readFrom, h]

theorem readFrom_compare {x y : Node} {op : Operator} {c : Condition}
    (h : compare? x op y = some c) :
    readFrom false p outer (x :: .operator op :: y :: rest) =
      readFrom true (p.push c) outer rest := by
  cases x <;> simp_all [compare?, Node.operand?, readFrom]

end

def ofNodes? (nodes : List Node) : Option Condition :=
  readFrom false {} [] nodes

end Condition

/-- Wherever an operand is expected, reading the piece changes what has been read by `f`. -/
def Reads (s : List Node) (f : Condition.Pending → Condition.Pending) : Prop :=
  ∀ p outer rest, Condition.readFrom false p outer (s ++ rest) =
    Condition.readFrom true (f p) outer rest

namespace Reads

open Condition

variable {s t : List Node} {f g : Pending → Pending} {c d : Condition}

theorem compare {x y : Node} {op : Operator} (h : compare? x op y = some c) :
    Reads [x, .operator op, y] (·.push c) :=
  fun p outer rest => readFrom_compare p outer rest h

theorem and (hs : Reads s f) (ht : Reads t g) :
    Reads (s ++ .operator .and :: t) (fun p => g (f p)) := by
  intro p outer rest
  rw [List.append_assoc, hs, List.cons_append, readFrom_and, ht]

theorem or (hs : Reads s f) (ht : Reads t g) :
    Reads (s ++ .operator .or :: t) (fun p => g (f p).split) := by
  intro p outer rest
  rw [List.append_assoc, hs, List.cons_append, readFrom_or, ht]

theorem not (hs : Reads s f) : Reads (.operator .not :: s) (fun p => f p.negate) := by
  intro p outer rest
  rw [List.cons_append, readFrom_not, hs]

theorem group (hs : Reads s f) (hc : (f {}).close = some c) :
    Reads (.startGroup :: s ++ [.endGroup]) (·.push c) := by
  intro p outer rest
  rw [List.cons_append, List.cons_append, readFrom_startGroup, List.append_assoc, hs,
    List.singleton_append, readFrom_endGroup p outer rest hc]

theorem not_group (hs : Reads s f) (hc : (f {}).close = some c) :
    Reads (.operator .not :: .startGroup :: s ++ [.endGroup]) (·.push (.not c)) :=
  (hs.group hc).not

theorem ofNodes?_eq (hs : Reads s f) (hc : (f {}).close = some c) : ofNodes? s = some c := by
  have h := hs {} [] []
  rw [List.append_nil] at h
  rw [ofNodes?, h, readFrom_nil, hc]

end Reads

end DocStore
