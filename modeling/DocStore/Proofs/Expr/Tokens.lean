import DocStore.Proofs.Expr.Rendering
import Mathlib.Data.List.DropRight

/-!
# Tokens behind spaces

Readers skip the spaces before a token, so that only the first character behind them decides which
token is read.
-/

namespace DocStore.Expr

open DocStore.Expr.Parser

variable {symbol token text space rest more digits : List Char} {c d : Char} {name : String}
  {n : Nat}

theorem skipSpace_append (h : ∀ c ∈ space, isSpace c = true) (text : List Char) :
    skipSpace (space ++ text) = skipSpace text :=
  List.dropWhile_append_of_pos h

theorem skipSpace_cons (hc : isSpace c = false) (more : List Char) :
    skipSpace (c :: more) = c :: more :=
  List.dropWhile_cons_of_neg (by simp [hc])

theorem skipSpace_eq_nil (h : ∀ c ∈ space, isSpace c = true) : skipSpace space = [] := by
  have hnil := skipSpace_append h []
  rwa [List.append_nil] at hnil

theorem Spaced.skipSpace_eq (h : Spaced (c :: token) text) (hc : isSpace c = false)
    (rest : List Char) : skipSpace (text ++ rest) = c :: (token ++ rest) := by
  obtain ⟨space, hspace, rfl⟩ := h
  rw [List.append_assoc, skipSpace_append hspace, List.cons_append, skipSpace_cons hc]

theorem skipSpace_skipSpace (text : List Char) : skipSpace (skipSpace text) = skipSpace text :=
  List.dropWhile_idempotent isSpace text

theorem Spaced.length_le (h : Spaced token text) : token.length ≤ text.length := by
  obtain ⟨space, _, rfl⟩ := h
  rw [List.length_append]
  exact Nat.le_add_left _ _

def leading? (text : List Char) : Option Char :=
  (skipSpace text).head?

theorem Spaced.leading?_eq (h : Spaced (c :: token) text) (hc : isSpace c = false)
    (rest : List Char) : leading? (text ++ rest) = some c := by
  rw [leading?, h.skipSpace_eq hc, List.head?_cons]

theorem token?_eq (h : skipSpace text = symbol ++ rest) : token? symbol text = some rest := by
  rw [token?, h, List.take_left, List.drop_left, if_pos rfl]

theorem token?_eq_none (h : leading? text ≠ some c) : token? (c :: symbol) text = none := by
  refine if_neg fun he => h ?_
  rw [leading?]
  cases hskip : skipSpace text with
  | nil =>
    rw [hskip] at he
    cases he
  | cons d more =>
    rw [hskip, List.length_cons, List.take_succ_cons] at he
    rw [(List.cons.inj he).1, List.head?_cons]

theorem token?_eq_none_of_ne (h : leading? text = some d) (hne : d ≠ c) :
    token? (c :: symbol) text = none := by
  refine token?_eq_none ?_
  rw [h]
  exact fun he => hne (Option.some.inj he)

theorem Spaced.token?_eq (h : Spaced (c :: token) text) (hc : isSpace c = false)
    (rest : List Char) : token? (c :: token) (text ++ rest) = some rest :=
  Expr.token?_eq (h.skipSpace_eq hc rest)

theorem length_of_token? (h : token? (c :: symbol) text = some rest) :
    rest.length < text.length := by
  rw [token?] at h
  split at h
  · next hsymbol =>
    obtain rfl := Option.some.inj h
    have hskip : (skipSpace text).length ≤ text.length :=
      (List.dropWhile_sublist isSpace).length_le
    have hlen := congrArg List.length hsymbol
    rw [List.length_take, List.length_cons] at hlen
    rw [List.length_drop, List.length_cons]
    omega
  · cases h

theorem token?_skipSpace (symbol text : List Char) :
    token? symbol (skipSpace text) = token? symbol text := by
  rw [token?, token?, skipSpace_skipSpace]

theorem token_eq (h : token? symbol text = some rest) : Parser.token symbol text = .ok rest := by
  rw [Parser.token, h]

theorem token_eq_error (h : token? symbol text = none) :
    Parser.token symbol text = .error (skipSpace text) := by
  rw [Parser.token, h]

/-- The first character, if there is one, does not continue a token of these characters. -/
def Ends (p : Char → Bool) (rest : List Char) : Prop :=
  ∀ c ∈ rest.head?, p c = false

theorem Ends.takeWhile_append {p : Char → Bool} (h : Ends p rest) (hp : ∀ c ∈ token, p c = true) :
    (token ++ rest).takeWhile p = token := by
  rw [List.takeWhile_append_of_pos hp]
  cases rest with
  | nil => rw [List.takeWhile_nil, List.append_nil]
  | cons c more =>
    have hc : p c = false := h c rfl
    rw [List.takeWhile_cons_of_neg (by simp [hc]), List.append_nil]

theorem Ends.dropWhile_append {p : Char → Bool} (h : Ends p rest) (hp : ∀ c ∈ token, p c = true) :
    (token ++ rest).dropWhile p = rest := by
  rw [List.dropWhile_append_of_pos hp]
  cases rest with
  | nil => rfl
  | cons c more =>
    have hc : p c = false := h c rfl
    exact List.dropWhile_cons_of_neg (by simp [hc])

theorem Ends.mono {p q : Char → Bool} (h : Ends p rest) (hq : ∀ c, p c = false → q c = false) :
    Ends q rest :=
  fun c hc => hq c (h c hc)

theorem isNameChar_of_isNameStart (hc : isNameStart c = true) : isNameChar c = true := by
  rw [isNameStart, Bool.or_eq_true] at hc
  rw [isNameChar, Char.isAlphanum]
  rcases hc with hc | hc <;> simp [hc]

theorem isDigit_of_isNameChar (hc : isNameChar c = false) : c.isDigit = false := by
  rw [isNameChar, Char.isAlphanum, Bool.or_eq_false_iff, Bool.or_eq_false_iff] at hc
  exact hc.1.2

theorem isNameChar_of_isSpace (hc : isSpace c = true) : isNameChar c = false := by
  simp only [isSpace, Bool.or_eq_true, decide_eq_true_eq] at hc
  rcases hc with ((rfl | rfl) | rfl) | rfl <;> decide

theorem isSpace_of_isNameChar (hc : isNameChar c = true) : isSpace c = false := by
  refine Bool.eq_false_iff.2 fun hspace => ?_
  rw [isNameChar_of_isSpace hspace] at hc
  cases hc

theorem le_of_isAlpha (hc : c.isAlpha = true) : 'A'.val ≤ c.val := by
  obtain hupper | hlower := (Bool.or_eq_true _ _).mp hc
  · exact (of_decide_eq_true hupper).1
  · have hle : 'a'.val ≤ c.val := of_decide_eq_true ((Bool.and_eq_true _ _).mp hlower).1
    exact UInt32.le_trans (by decide) hle

theorem isDigit_of_isNameStart (hc : isNameStart c = true) : c.isDigit = false := by
  rw [isNameStart, Bool.or_eq_true, decide_eq_true_eq] at hc
  rcases hc with hc | rfl
  · refine Bool.eq_false_iff.2 fun hd => ?_
    have hnine : c.val ≤ '9'.val := of_decide_eq_true ((Bool.and_eq_true _ _).mp hd).2
    exact absurd (UInt32.le_trans (le_of_isAlpha hc) hnine) (by decide)
  · decide

theorem isNameChar_of_isDigit (hc : c.isDigit = true) : isNameChar c = true := by
  rw [isNameChar, Char.isAlphanum, hc]
  simp

theorem IsName.exists_cons (h : IsName name) : ∃ c token, name.toList = c :: token ∧
    isNameStart c = true ∧ ∀ d ∈ token, isNameChar d = true := by
  rw [IsName] at h
  cases hname : name.toList with
  | nil =>
    rw [hname] at h
    cases h
  | cons c token =>
    rw [hname, isIdentifier, Bool.and_eq_true, List.all_eq_true] at h
    exact ⟨c, token, rfl, h⟩

theorem identifier_eq (hn : IsName name) (ht : Spaced name.toList text)
    (hrest : Ends isNameChar rest) : identifier (text ++ rest) = .ok (name, rest) := by
  obtain ⟨c, token, hname, hc, htoken⟩ := hn.exists_cons
  rw [hname] at ht
  have hskip := ht.skipSpace_eq (isSpace_of_isNameChar (isNameChar_of_isNameStart hc)) rest
  rw [identifier, hskip]
  simp only [hc, if_true, hrest.takeWhile_append htoken, hrest.dropWhile_append htoken]
  rw [← hname, String.ofList_toList]

theorem identifier_eq_error (h : ∀ c, leading? text = some c → isNameStart c = false) :
    identifier text = .error (skipSpace text) := by
  rw [leading?] at h
  rw [identifier]
  cases hskip : skipSpace text with
  | nil => rfl
  | cons c more =>
    have hc : isNameStart c = false := h c (by rw [hskip, List.head?_cons])
    simp [hc]

theorem number_eq {i : Int64} (hd : Digits digits i.toInt) (hrest : Ends Char.isDigit rest)
    (hfraction : ∀ c more, rest = '.' :: c :: more → c.isDigit = false) :
    number (digits ++ rest) = .ok (constant (.integer i), rest) := by
  have hvalue : int64? (Numeral.ofDigits digits) = some i := by
    rw [hd.value, int64?, if_pos ⟨i.minValue_le_toInt, i.toInt_le⟩, Int64.ofInt_toInt]
  simp only [number, hrest.takeWhile_append hd.digit, hrest.dropWhile_append hd.digit, hvalue]
  split
  · next c more =>
    rw [hfraction c more rfl]
    rfl
  · rfl

/-- No token of certain characters goes on with another token. -/
theorem Spaced.ends {p : Char → Bool} (h : Spaced (c :: token) text) (hc : p c = false)
    (hp : ∀ c, isSpace c = true → p c = false) (rest : List Char) : Ends p (text ++ rest) := by
  obtain ⟨space, hspace, rfl⟩ := h
  intro d hd
  cases space with
  | nil =>
    obtain rfl := Option.some.inj hd
    exact hc
  | cons s space =>
    obtain rfl := Option.some.inj hd
    exact hp s (hspace s List.mem_cons_self)

theorem stringRest?_escaped (chars rest : List Char) :
    stringRest? (escaped chars ++ '"' :: rest) = some (chars, rest) := by
  induction chars with
  | nil => rfl
  | cons c chars ih =>
    rw [escaped]
    split
    · next hc =>
      have hplain : unescape c = c := by rcases hc with rfl | rfl <;> rfl
      rw [List.cons_append, List.cons_append, stringRest?, ih, Option.map_some, hplain]
    · next hc =>
      rw [not_or] at hc
      rw [List.cons_append, stringRest?, ih, Option.map_some]
      · exact hc.1
      · exact fun _ _ he => absurd he hc.2

end DocStore.Expr
