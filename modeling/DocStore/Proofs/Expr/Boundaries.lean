import DocStore.Proofs.Expr.Tokens

/-!
# Boundaries of operands

How a phrase begins decides which reader takes it, and what follows an operand decides where its
reading ends. `Stops` says of a text that nothing in front of it would be read as more of an operand
of the level before it.
-/

namespace DocStore.Expr

open DocStore.Expr.Parser

variable {token text rest a t u : List Char} {c : Char} {m n : Nat} {p : Phrase}
  {scope : List String} {op : BinaryOp}

/-- Nothing in front of the text continues an operand of the level: no character of a name or a
number, no arguments, no arrow, no access if the operand takes accesses, and no operator that binds
as strongly as the operand. -/
structure Stops (n : Nat) (rest : List Char) : Prop where
  name : Ends isNameChar rest
  fraction : ∀ c more, rest = '.' :: c :: more → c.isDigit = false
  arguments : token? ['('] rest = none
  arrow : token? ['=', '>'] rest = none
  access : n ≤ 6 → token? ['.'] rest = none
  operator : ∀ op : BinaryOp, n ≤ op.level → token? op.symbol.toList rest = none

theorem Stops.mono (h : Stops n rest) (hnm : n ≤ m) : Stops m rest :=
  ⟨h.name, h.fraction, h.arguments, h.arrow, fun hm => h.access (Nat.le_trans hnm hm),
    fun op hm => h.operator op (Nat.le_trans hnm hm)⟩

theorem Stops.digit (h : Stops n rest) : Ends Char.isDigit rest :=
  h.name.mono fun _ => isDigit_of_isNameChar

theorem Spaced.fraction (h : Spaced (c :: token) a) (hc : c ≠ '.') (rest : List Char) :
    ∀ d more, a ++ rest = '.' :: d :: more → d.isDigit = false := by
  obtain ⟨space, hspace, rfl⟩ := h
  intro d more he
  cases space with
  | nil => exact absurd (List.cons.inj he).1 hc
  | cons s space =>
    have hs : s = '.' := (List.cons.inj he).1
    have hno := hspace s List.mem_cons_self
    rw [hs] at hno
    cases hno

theorem Spaced.stops (h : Spaced (c :: token) a) (hspace : isSpace c = false)
    (hname : isNameChar c = false) (hdot : c ≠ '.') (hopening : c ≠ '(')
    (harrow : token? ['=', '>'] (a ++ rest) = none)
    (hop : ∀ op : BinaryOp, n ≤ op.level → op.symbol.toList.head? ≠ some c) :
    Stops n (a ++ rest) where
  name := h.ends hname (fun _ => isNameChar_of_isSpace) rest
  fraction := h.fraction hdot rest
  arguments := token?_eq_none_of_ne (h.leading?_eq hspace rest) hopening
  arrow := harrow
  access _ := token?_eq_none_of_ne (h.leading?_eq hspace rest) hdot
  operator op hn := by
    cases hsymbol : op.symbol.toList with
    | nil => exact absurd hsymbol (by cases op <;> decide)
    | cons d symbol =>
      refine token?_eq_none_of_ne (h.leading?_eq hspace rest) fun he => hop op hn ?_
      rw [hsymbol, List.head?_cons, he]

/-- An operand ends before a closing bracket and before a comma. -/
theorem Spaced.stops_delimiter (h : Spaced (c :: token) a) (hc : c = ')' ∨ c = ']' ∨ c = ',')
    (rest : List Char) : Stops 0 (a ++ rest) := by
  have harrow : isSpace c = false → c ≠ '=' → token? ['=', '>'] (a ++ rest) = none :=
    fun hspace => token?_eq_none_of_ne (h.leading?_eq hspace rest)
  rcases hc with rfl | rfl | rfl <;>
    refine h.stops (by decide) (by decide) (by decide) (by decide) (harrow (by decide) (by decide))
      fun op _ => ?_ <;> cases op <;> decide

/-- An operand ends before an operator that binds more loosely. -/
theorem Spaced.stops_symbol (h : Spaced op.symbol.toList a) (rest : List Char) :
    Stops (op.level + 1) (a ++ rest) := by
  have harrow : token? ['=', '>'] (a ++ rest) = none := by
    cases op with
    | equal =>
      have hskip : skipSpace (a ++ rest) = '=' :: (['='] ++ rest) := h.skipSpace_eq (by decide) rest
      rw [token?, hskip]
      rfl
    | _ => exact token?_eq_none_of_ne (h.leading?_eq (by decide) rest) (by decide)
  have hop : ∀ other : BinaryOp, op.level + 1 ≤ other.level →
      other.symbol.toList.head? ≠ op.symbol.toList.head? := by
    intro other
    cases op <;> cases other <;> decide
  cases op <;> exact h.stops (by decide) (by decide) (by decide) (by decide) harrow hop

/-- Before an access, only accesses of the operand end. -/
theorem Spaced.stops_access {b : List Char} (ha : Spaced ['.'] a) (hb : Spaced (c :: token) b)
    (hc : c.isDigit = false) (rest : List Char) : Stops 7 (a ++ (b ++ rest)) where
  name := ha.ends (by decide) (fun _ => isNameChar_of_isSpace) _
  fraction := by
    have hdigit : Ends Char.isDigit (b ++ rest) :=
      hb.ends hc (fun _ hs => isDigit_of_isNameChar (isNameChar_of_isSpace hs)) rest
    obtain ⟨space, hspace, rfl⟩ := ha
    intro d more he
    cases space with
    | nil =>
      have hrest : b ++ rest = d :: more := (List.cons.inj he).2
      exact hdigit d (by rw [hrest]; rfl)
    | cons s space =>
      have hs := hspace s List.mem_cons_self
      rw [(List.cons.inj he).1] at hs
      cases hs
  arguments := token?_eq_none_of_ne (ha.leading?_eq (by decide) _) (by decide)
  arrow := token?_eq_none_of_ne (ha.leading?_eq (by decide) _) (by decide)
  access h := absurd h (by decide)
  operator op h := absurd h (by cases op <;> decide)

theorem stops_blank (h : ∀ c ∈ text, isSpace c = true) : Stops 0 text := by
  have hnone : ∀ d symbol, token? (d :: symbol) text = none := by
    intro d symbol
    refine token?_eq_none ?_
    rw [leading?, skipSpace_eq_nil h]
    intro hc
    cases hc
  refine ⟨?_, ?_, hnone _ _, hnone _ _, fun _ => hnone _ _, fun op _ => ?_⟩
  · intro c hc
    exact isNameChar_of_isSpace (h c (List.mem_of_mem_head? hc))
  · rintro c more rfl
    cases h '.' List.mem_cons_self
  · cases op <;> exact hnone _ _

def operators : Nat → List (List Char × BinaryOp)
  | 0 => orOps
  | 1 => andOps
  | 2 => comparisonOps
  | 3 => additiveOps
  | _ => multiplicativeOps

theorem operator?_eq_none (h : Stops n rest) (hn : n ≤ 4) :
    operator? (operators n) rest = none := by
  have hops : ∀ m ≤ 4, ∀ entry ∈ operators m,
      entry.1 = entry.2.symbol.toList ∧ m ≤ entry.2.level := by decide
  refine List.findSome?_eq_none_iff.2 ?_
  rintro ⟨symbol, op⟩ hentry
  obtain ⟨rfl, hlevel⟩ : symbol = op.symbol.toList ∧ n ≤ op.level := hops n hn _ hentry
  dsimp only
  rw [h.operator op hlevel, Option.map_none]

/-- The longest symbol is found: those that it begins stand behind it, and no operand begins with
the rest of another. -/
theorem operator?_eq (h : Spaced op.symbol.toList a) (hrest : rest.head? ≠ some '=') :
    operator? (operators op.level) (a ++ rest) = some (op, rest) := by
  have hskip : skipSpace (a ++ rest) = op.symbol.toList ++ rest := by
    cases op <;> exact h.skipSpace_eq (by decide) rest
  have hone : rest.take 1 ≠ ['='] := by
    cases rest with
    | nil => decide
    | cons c rest => simpa using hrest
  cases op <;> simp [operator?, operators, BinaryOp.level, BinaryOp.symbol, orOps, andOps,
    comparisonOps, additiveOps, multiplicativeOps, token?, hskip, hone]

/-- The first characters of operands of a level; prefixes stand only before levels up to theirs. -/
def starts (n : Nat) (c : Char) : Bool :=
  isNameStart c || c.isDigit || c = '"' || c = '(' || c = '[' || n ≤ 5 && (c = '!' || c = '-')

theorem starts_mono (hnm : n ≤ m) (h : starts m c = true) : starts n c = true := by
  simp only [starts, Bool.or_eq_true, Bool.and_eq_true, decide_eq_true_eq] at h ⊢
  exact h.imp_right fun hprefix => ⟨Nat.le_trans hnm hprefix.1, hprefix.2⟩

theorem starts_of_isNameStart (h : isNameStart c = true) : starts n c = true := by
  simp [starts, h]

theorem starts_equal (n : Nat) : starts n '=' = false := by
  have hname : isNameStart '=' = false := by decide
  simp [starts, hname]

theorem starts_closing (n : Nat) (k : Bracket) : starts n k.closing = false := by
  cases k
  · have hname : isNameStart ')' = false := by decide
    simp [starts, Bracket.closing, hname]
  · have hname : isNameStart ']' = false := by decide
    simp [starts, Bracket.closing, hname]

theorem isSpace_of_starts (h : starts n c = true) : isSpace c = false := by
  simp only [starts, Bool.or_eq_true, Bool.and_eq_true, decide_eq_true_eq] at h
  rcases h with ((((h | h) | rfl) | rfl) | rfl) | ⟨_, rfl | rfl⟩
  · exact isSpace_of_isNameChar (isNameChar_of_isNameStart h)
  · exact isSpace_of_isNameChar (isNameChar_of_isDigit h)
  all_goals decide

/-- How the text of a phrase begins; further items are none, or a comma comes first. -/
def Begins : Phrase → List Char → Prop
  | .operand n _, t => ∃ c token, starts n c = true ∧ Spaced (c :: token) t
  | .item _, t => ∃ c token, starts 0 c = true ∧ Spaced (c :: token) t
  | .more items, t => items = [] ∧ t = [] ∨ ∃ token, Spaced (',' :: token) t
  | .list k _, t => ∃ token, Spaced (k.opening :: token) t

theorem Spaced.append (h : Spaced token t) (u : List Char) : Spaced (token ++ u) (t ++ u) := by
  obtain ⟨space, hspace, rfl⟩ := h
  exact ⟨space, hspace, List.append_assoc space token u⟩

theorem begins_name {name : String} (hn : IsName name) (ht : Spaced name.toList t) :
    ∃ c token, starts n c = true ∧ Spaced (c :: token) t := by
  obtain ⟨c, token, hname, hc, _⟩ := hn.exists_cons
  exact ⟨c, token, starts_of_isNameStart hc, hname ▸ ht⟩

theorem begins_digits {digits : List Char} {i : Int} (hd : Digits digits i)
    (ht : Spaced digits t) : ∃ c token, starts n c = true ∧ Spaced (c :: token) t := by
  cases digits with
  | nil => exact absurd rfl hd.nonempty
  | cons c token =>
    have hc : c.isDigit = true := hd.digit c List.mem_cons_self
    exact ⟨c, token, by simp [starts, hc], ht⟩

theorem isName_of_literal {v : Value} {name : String} (h : (v, name) ∈ literals) :
    IsName name := by
  simp only [literals, List.mem_cons, Prod.mk.injEq, List.not_mem_nil, or_false] at h
  rcases h with ⟨_, rfl⟩ | ⟨_, rfl⟩ | ⟨_, rfl⟩ <;> rfl

theorem Writes.begins (h : Writes p t) (hp : p.Writable scope) : Begins p t := by
  induction h generalizing scope with
  | param ht | captured ht =>
    obtain ⟨_, hp⟩ := hp
    rw [Writable] at hp
    exact begins_name hp.1.1 ht
  | literal hv ht => exact begins_name (isName_of_literal hv) ht
  | string ht => exact ⟨'"', _, rfl, ht⟩
  | integer hd ht => exact begins_digits hd ht
  | negative ha _ _ => exact ⟨'-', _, rfl, ha.append _⟩
  | array _ ih =>
    obtain ⟨_, hp⟩ := hp
    rw [Writable] at hp
    obtain ⟨token, ht⟩ := ih hp
    exact ⟨'[', token, rfl, ht⟩
  | call ha _ _ =>
    obtain ⟨_, hp⟩ := hp
    rw [Writable] at hp
    obtain ⟨c, token, hc, ha⟩ := begins_name hp.1.1 ha
    exact ⟨c, _, hc, ha.append _⟩
  | member _ _ _ ih =>
    obtain ⟨_, hp⟩ := hp
    rw [Writable] at hp
    obtain ⟨c, token, hc, ht⟩ := ih ⟨_, hp.1⟩
    exact ⟨c, _, hc, ht.append _⟩
  | methodCall _ _ _ _ ih _ =>
    obtain ⟨_, hp⟩ := hp
    rw [Writable] at hp
    obtain ⟨c, token, hc, ht⟩ := ih ⟨_, hp.1⟩
    exact ⟨c, _, hc, ht.append _⟩
  | not ha _ _ => exact ⟨'!', _, rfl, ha.append _⟩
  | negate ha _ _ => exact ⟨'-', _, rfl, ha.append _⟩
  | binary _ _ _ ih _ =>
    obtain ⟨_, hp⟩ := hp
    rw [Writable] at hp
    obtain ⟨c, token, hc, ht⟩ := ih ⟨_, hp.1⟩
    exact ⟨c, _, starts_mono (BinaryOp.level_le_leftLevel _) hc, ht.append _⟩
  | parentheses ha _ _ _ => exact ⟨'(', _, rfl, ha.append _⟩
  | tighter _ ih =>
    obtain ⟨c, token, hc, ht⟩ := ih hp
    exact ⟨c, token, starts_mono (Nat.le_succ _) hc, ht⟩
  | lambda ha _ _ _ =>
    obtain ⟨_, hp⟩ := hp
    rw [Writable] at hp
    obtain ⟨c, token, hc, ha⟩ := begins_name hp.2.1 ha
    exact ⟨c, _, hc, ha.append _⟩
  | expression _ ih => exact ih hp
  | last => exact .inl ⟨rfl, rfl⟩
  | further ha _ _ _ _ => exact .inr ⟨_, ha.append _⟩
  | empty ha _ => exact ⟨_, ha.append _⟩
  | items ha _ _ _ _ _ => exact ⟨_, ha.append _⟩

end DocStore.Expr
