import DocStore.Sql.Text

/-!
# The characters of rendered statements

Statements are rendered to strings, and read character by character. `Sql.chars` is what is read.
-/

namespace DocStore

theorem doubled_of_notMem {c : Char} {text : List Char} (h : c ∉ text) : doubled c text = text := by
  induction text with
  | nil => rfl
  | cons d text ih =>
    rw [List.mem_cons, not_or] at h
    have hd : d ≠ c := fun hd => h.1 hd.symm
    have hcons : doubled c (d :: text) = (if d = c then [c, c] else [d]) ++ doubled c text := rfl
    rw [hcons, if_neg hd, ih h.2]
    rfl

theorem isDigit_of_mem_repr {n : Nat} {c : Char} (h : c ∈ n.repr.toList) : c.isDigit = true := by
  rw [Nat.toList_repr] at h
  exact Nat.isDigit_of_mem_toDigits (by decide) (by decide) h

/-- A word with different numbers behind it is different. -/
theorem numbered_inj {word : String} {j k : Nat} (h : word ++ j.repr = word ++ k.repr) :
    j = k := by
  have hdigits := congrArg String.toList ((String.append_right_inj _).1 h)
  rw [Nat.toList_repr, Nat.toList_repr] at hdigits
  rw [← Nat.ofDigitChars_ten_toDigits (n := j), hdigits, Nat.ofDigitChars_ten_toDigits]

theorem parameterName_injective {j k : Nat} (h : parameterName j = parameterName k) : j = k :=
  numbered_inj h

namespace Piece

def chars : Piece → List Char
  | raw text => text.toList
  | name identifier => '[' :: doubled ']' identifier.toList ++ [']']
  | literal text => '\'' :: doubled '\'' text.toList ++ ['\'']
  | parameter number => '@' :: 'p' :: Nat.toDigits 10 number

theorem toList_render (p : Piece) : p.render.toList = p.chars := by
  cases p with
  | raw text => rfl
  | name identifier => exact String.toList_ofList
  | literal text => exact String.toList_ofList
  | parameter number =>
    rw [render, parameterName, String.toList_append, Nat.toList_repr]
    rfl

end Piece

namespace Sql

def chars (sql : Sql) : List Char :=
  sql.flatMap Piece.chars

@[simp] theorem chars_nil : chars [] = [] := rfl

@[simp] theorem chars_cons (p : Piece) (sql : Sql) : chars (p :: sql) = p.chars ++ chars sql := rfl

@[simp] theorem chars_append (s t : Sql) : chars (s ++ t) = chars s ++ chars t :=
  List.flatMap_append

theorem toList_render (sql : Sql) : (render sql).toList = chars sql := by
  induction sql with
  | nil => rfl
  | cons p sql ih =>
    have hcons : render (p :: sql) = p.render ++ render sql := rfl
    rw [hcons, String.toList_append, Piece.toList_render, ih, chars_cons]

theorem join_cons_cons (separator : String) (s t : Sql) (parts : List Sql) :
    join separator (s :: t :: parts) = s ++ Piece.raw separator :: join separator (t :: parts) :=
  rfl

end Sql

end DocStore
