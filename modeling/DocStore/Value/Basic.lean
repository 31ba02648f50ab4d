import DocStore.Calendar.Instant
import DocStore.Guid
import DocStore.Number.FloatText
import DocStore.Text.Split
import DocStore.Value.Family

/-!
# Values

A `Value` is what an index row, a parameter or a constant of an expression holds. Two equalities
matter: `=`, which is decidable and tells any two values apart that differ in anything, and
`Value.same`, under which the two zeros are the same and no NaN is the same as anything. Stored
rows are compared by `same`.
-/

namespace DocStore

inductive Value where
  | null
  | integer (i : Int64)
  | fractal (x : Float)
  | boolean (b : Bool)
  | dateTime (t : Instant)
  | guid (g : Guid)
  | string (s : String)
  | list (items : List Value)
  deriving Inhabited

namespace Value

mutual

def decEq : (a b : Value) → Decidable (a = b)
  | null, null => isTrue rfl
  | integer a, integer b => decidable_of_iff (a = b) (by simp)
  | fractal a, fractal b => decidable_of_iff (a = b) (by simp)
  | boolean a, boolean b => decidable_of_iff (a = b) (by simp)
  | dateTime a, dateTime b => decidable_of_iff (a = b) (by simp)
  | guid a, guid b => decidable_of_iff (a = b) (by simp)
  | string a, string b => decidable_of_iff (a = b) (by simp)
  | list as, list bs =>
    match decEqList as bs with
    | isTrue h => isTrue (by rw [h])
    | isFalse h => isFalse (by simpa using h)
  | null, integer _ | null, fractal _ | null, boolean _ | null, dateTime _ | null, guid _
  | null, string _ | null, list _
  | integer _, null | integer _, fractal _ | integer _, boolean _ | integer _, dateTime _
  | integer _, guid _ | integer _, string _ | integer _, list _
  | fractal _, null | fractal _, integer _ | fractal _, boolean _ | fractal _, dateTime _
  | fractal _, guid _ | fractal _, string _ | fractal _, list _
  | boolean _, null | boolean _, integer _ | boolean _, fractal _ | boolean _, dateTime _
  | boolean _, guid _ | boolean _, string _ | boolean _, list _
  | dateTime _, null | dateTime _, integer _ | dateTime _, fractal _ | dateTime _, boolean _
  | dateTime _, guid _ | dateTime _, string _ | dateTime _, list _
  | guid _, null | guid _, integer _ | guid _, fractal _ | guid _, boolean _ | guid _, dateTime _
  | guid _, string _ | guid _, list _
  | string _, null | string _, integer _ | string _, fractal _ | string _, boolean _
  | string _, dateTime _ | string _, guid _ | string _, list _
  | list _, null | list _, integer _ | list _, fractal _ | list _, boolean _ | list _, dateTime _
  | list _, guid _ | list _, string _ => isFalse (by simp)

def decEqList : (as bs : List Value) → Decidable (as = bs)
  | [], [] => isTrue rfl
  | [], _ :: _ | _ :: _, [] => isFalse (by simp)
  | a :: as, b :: bs =>
    match decEq a b, decEqList as bs with
    | isTrue h, isTrue t => isTrue (by rw [h, t])
    | isFalse h, _ => isFalse (by simp [h])
    | _, isFalse t => isFalse (by simp [t])

end

instance : DecidableEq Value := decEq

mutual

/-- Equality as stored rows are compared: floats by their value. -/
def same : Value → Value → Bool
  | null, null => true
  | integer a, integer b => a == b
  | fractal a, fractal b => a == b
  | boolean a, boolean b => a == b
  | dateTime a, dateTime b => a == b
  | guid a, guid b => a == b
  | string a, string b => a == b
  | list as, list bs => sameList as bs
  | _, _ => false

def sameList : List Value → List Value → Bool
  | [], [] => true
  | a :: as, b :: bs => same a b && sameList as bs
  | _, _ => false

end

def isNull : Value → Bool
  | null => true
  | _ => false

@[simp] theorem isNull_iff (v : Value) : v.isNull = true ↔ v = null := by
  cases v <;> simp [isNull]

def string? : Value → Option String
  | string s => some s
  | _ => none

def int64Text (i : Int64) : String :=
  i.toInt.repr

def boolText (b : Bool) : String :=
  if b then "true" else "false"

mutual

/-- The text that columns of text hold for the value; null has none, and the items of a list are
joined by commas, nulls left out. -/
def text? : Value → Option String
  | null => none
  | integer i => some (int64Text i)
  | fractal x => some (plainFloatText x)
  | boolean b => some (boolText b)
  | dateTime t => some t.text
  | guid g => some g.text
  | string s => some s
  | list items => some (Text.join "," (texts items))

def texts : List Value → List String
  | [] => []
  | v :: rest =>
    match text? v with
    | some s => s :: texts rest
    | none => texts rest

end

theorem texts_eq_filterMap (items : List Value) : texts items = items.filterMap text? := by
  induction items with
  | nil => rfl
  | cons v rest ih =>
    simp only [texts, List.filterMap_cons, ih]
    cases text? v <;> rfl

mutual

/-- The value as it stands in the text of an expression; quotes inside a string stay as they are. -/
def display : Value → String
  | null => "null"
  | string s => "\"" ++ s ++ "\""
  | list items => "[" ++ displayItems items ++ "]"
  | integer i => int64Text i
  | fractal x => plainFloatText x
  | boolean b => boolText b
  | dateTime t => t.text
  | guid g => g.text

def displayItems : List Value → String
  | [] => ""
  | [v] => display v
  | v :: rest => display v ++ ", " ++ displayItems rest

end

end Value

end DocStore
