import DocStore.Proofs.Expr.Boundaries

/-!
# Reading operands

What the readers of the levels make of a written operand. A level that chains operators is left
while more of them may follow, and so is a level of accesses: `ReadsOperand` says with which operand
the reading goes on. One lemma for each way of writing an operand says how it is read from its
parts.
-/

namespace DocStore.Expr

open DocStore.Expr.Parser

variable {nested : Reader Expr} {e left right : Expr} {token text rest a b t u digits : List Char}
  {c : Char} {n fuel : Nat} {op : BinaryOp} {name : String} {args items : List Expr}

def reader (nested : Reader Expr) : Nat → Reader Expr
  | 0 => disjunction nested
  | 1 => conjunction nested
  | 2 => comparison nested
  | 3 => additive nested
  | 4 => multiplicative nested
  | 5 => prefixed nested
  | _ => postfixed nested

theorem reader_eq_chain (nested : Reader Expr) (h4 : n ≤ 4) (h2 : n ≠ 2) :
    reader nested n = chain (reader nested (n + 1)) (operators n) := by
  match n, h4, h2 with
  | 0, _, _ => rfl
  | 1, _, _ => rfl
  | 3, _, _ => rfl
  | 4, _, _ => rfl

theorem reader_of_six_le (nested : Reader Expr) (h : 6 ≤ n) :
    reader nested n = postfixed nested := by
  obtain ⟨k, rfl⟩ := Nat.exists_eq_add_of_le h
  rw [Nat.add_comm]
  rfl

/-- The text is read as the operand, up to where it stops; in a level of chained operators and in
one of accesses, the operand is also the target of those that follow. -/
structure ReadsOperand (nested : Reader Expr) (n : Nat) (e : Expr) (t : List Char) : Prop where
  finish : ∀ rest, Stops n rest → reader nested n (t ++ rest) = .ok (e, rest)
  chain : n ≤ 4 → n ≠ 2 → ∀ rest, Stops (n + 1) rest → ∃ fuel, rest.length ≤ fuel ∧
    reader nested n (t ++ rest) =
      chainRest (reader nested (n + 1)) (operators n) fuel e rest
  access : 6 ≤ n → ∀ rest, Stops 7 rest → ∃ fuel, rest.length ≤ fuel ∧
    postfixed nested (t ++ rest) = postfixRest nested fuel e rest

theorem chainRest_eq_of_stops (h : Stops n rest) (hn : n ≤ 4) (operand : Reader Expr)
    (fuel : Nat) (e : Expr) : chainRest operand (operators n) fuel e rest = .ok (e, rest) := by
  cases fuel with
  | zero => rfl
  | succ fuel => rw [chainRest, operator?_eq_none h hn]

theorem postfixRest_eq_of_stops (h : Stops 6 rest) (fuel : Nat) (e : Expr) :
    postfixRest nested fuel e rest = .ok (e, rest) := by
  cases fuel with
  | zero => rfl
  | succ fuel => rw [postfixRest, h.access (Nat.le_refl 6)]

theorem ReadsOperand.of_chain (h4 : n ≤ 4)
    (h : ∀ rest, Stops (n + 1) rest → ∃ fuel, rest.length ≤ fuel ∧ reader nested n (t ++ rest) =
      chainRest (reader nested (n + 1)) (operators n) fuel e rest) : ReadsOperand nested n e t where
  finish rest hrest := by
    obtain ⟨fuel, _, hread⟩ := h rest (hrest.mono (Nat.le_succ n))
    rw [hread, chainRest_eq_of_stops hrest h4]
  chain _ _ := h
  access h6 := absurd (Nat.le_trans h6 h4) (by decide)

theorem ReadsOperand.of_access
    (h : ∀ rest, Stops 7 rest → ∃ fuel, rest.length ≤ fuel ∧
      postfixed nested (t ++ rest) = postfixRest nested fuel e rest) :
    ReadsOperand nested 6 e t where
  finish rest hrest := by
    obtain ⟨fuel, _, hread⟩ := h rest (hrest.mono (Nat.le_succ 6))
    rw [reader_of_six_le nested (Nat.le_refl 6), hread, postfixRest_eq_of_stops hrest]
  chain h4 := absurd h4 (by decide)
  access _ := h

theorem ReadsOperand.of_finish (h : n = 2 ∨ n = 5)
    (hfinish : ∀ rest, Stops n rest → reader nested n (t ++ rest) = .ok (e, rest)) :
    ReadsOperand nested n e t where
  finish := hfinish
  chain h4 h2 := by omega
  access h6 := by omega

theorem unaryLevel_eq_postfixed (hexcl : token? ['!'] text = none)
    (hminus : token? ['-'] text = none) (fuel : Nat) :
    unaryLevel nested fuel text = postfixed nested text := by
  cases fuel with
  | zero => rfl
  | succ fuel => rw [unaryLevel, hexcl, hminus]

/-- An operand may stand where a looser one may. -/
theorem ReadsOperand.tighter (h : ReadsOperand nested (n + 1) e t)
    (ht : ∃ c token, starts (n + 1) c = true ∧ Spaced (c :: token) t) :
    ReadsOperand nested n e t := by
  by_cases h6 : 6 ≤ n
  · exact {
      finish := by
        intro rest hrest
        rw [reader_of_six_le nested h6, ← reader_of_six_le nested (Nat.le_succ_of_le h6)]
        exact h.finish rest (hrest.mono (Nat.le_succ n))
      chain := fun h4 => absurd (Nat.le_trans h6 h4) (by decide)
      access := fun _ => h.access (Nat.le_succ_of_le h6) }
  by_cases h5 : n = 5
  · subst h5
    refine .of_finish (.inr rfl) fun rest hrest => ?_
    obtain ⟨c, token, hc, ht⟩ := ht
    have hlead := ht.leading?_eq (isSpace_of_starts hc) rest
    have hexcl : c ≠ '!' := by rintro rfl; cases hc
    have hminus : c ≠ '-' := by rintro rfl; cases hc
    have hread : reader nested 5 (t ++ rest) = postfixed nested (t ++ rest) :=
      unaryLevel_eq_postfixed (token?_eq_none_of_ne hlead hexcl)
        (token?_eq_none_of_ne hlead hminus) _
    rw [hread, ← h.finish rest (hrest.mono (Nat.le_succ 5))]
    rfl
  by_cases h2 : n = 2
  · subst h2
    refine .of_finish (.inl rfl) fun rest hrest => ?_
    have hleft : additive nested (t ++ rest) = .ok (e, rest) :=
      h.finish rest (hrest.mono (Nat.le_succ 2))
    have hnone : operator? comparisonOps rest = none := operator?_eq_none hrest (by decide)
    change comparison nested (t ++ rest) = _
    simp only [comparison, hleft, bind, Except.bind, hnone]
  · have h4 : n ≤ 4 := by omega
    refine .of_chain h4 fun rest hrest => ⟨rest.length, Nat.le_refl _, ?_⟩
    rw [reader_eq_chain nested h4 h2, Parser.chain, h.finish rest hrest]
    rfl

theorem head?_ne_equal (h : ∃ c token, starts n c = true ∧ Spaced (c :: token) u)
    (rest : List Char) : (u ++ rest).head? ≠ some '=' := by
  obtain ⟨c, token, hc, hu⟩ := h
  have hne : (c == '=') = false := by
    refine beq_false_of_ne ?_
    rintro rfl
    rw [starts_equal] at hc
    cases hc
  have hspace : ∀ d, isSpace d = true → (d == '=') = false := by
    intro d hd
    refine beq_false_of_ne ?_
    rintro rfl
    cases hd
  intro he
  cases hu.ends hne hspace rest '=' he

theorem ReadsOperand.binary (hl : ReadsOperand nested op.leftLevel left t)
    (ha : Spaced op.symbol.toList a) (hr : ReadsOperand nested (op.level + 1) right u)
    (hu : ∃ c token, starts (op.level + 1) c = true ∧ Spaced (c :: token) u) :
    ReadsOperand nested op.level (binary op left right) (t ++ (a ++ u)) := by
  have h4 : op.level ≤ 4 := by cases op <;> decide
  have hop : ∀ rest, operator? (operators op.level) (a ++ (u ++ rest)) = some (op, u ++ rest) :=
    fun rest => operator?_eq ha (head?_ne_equal hu rest)
  by_cases h2 : op.level = 2
  · rw [BinaryOp.leftLevel, if_pos h2] at hl
    rw [h2] at hr hop ⊢
    refine .of_finish (.inl rfl) fun rest hrest => ?_
    have hstop : Stops 3 (a ++ (u ++ rest)) := by
      have := ha.stops_symbol (u ++ rest)
      rwa [h2] at this
    have hleft : additive nested (t ++ (a ++ (u ++ rest))) = .ok (left, a ++ (u ++ rest)) :=
      hl.finish _ hstop
    have hright : additive nested (u ++ rest) = .ok (right, rest) :=
      hr.finish rest (hrest.mono (by decide))
    have hfound : operator? comparisonOps (a ++ (u ++ rest)) = some (op, u ++ rest) := hop rest
    rw [List.append_assoc, List.append_assoc]
    change comparison nested _ = _
    simp only [comparison, hleft, bind, Except.bind, hfound, hright]
  · rw [BinaryOp.leftLevel, if_neg h2] at hl
    refine .of_chain h4 fun rest hrest => ?_
    obtain ⟨fuel, hfuel, hread⟩ := hl.chain h4 h2 _ (ha.stops_symbol (u ++ rest))
    have hlen : 1 ≤ a.length := by
      have hsymbol : 1 ≤ op.symbol.toList.length := by cases op <;> decide
      exact Nat.le_trans hsymbol ha.length_le
    rw [List.length_append, List.length_append] at hfuel
    obtain ⟨k, rfl⟩ : ∃ k, fuel = k + 1 := Nat.exists_eq_add_one.2 (by omega)
    refine ⟨k, by omega, ?_⟩
    rw [List.append_assoc, List.append_assoc, hread, chainRest, hop rest]
    simp only [hr.finish rest hrest, bind, Except.bind]

/-- More fuel than characters makes no difference. -/
theorem unaryLevel_congr {fuel' : Nat} (h : text.length ≤ fuel) (h' : text.length ≤ fuel') :
    unaryLevel nested fuel text = unaryLevel nested fuel' text := by
  induction fuel generalizing text fuel' with
  | zero =>
    obtain rfl := List.length_eq_zero_iff.1 (Nat.le_zero.1 h)
    exact (unaryLevel_eq_postfixed rfl rfl fuel').symm
  | succ fuel ih =>
    cases fuel' with
    | zero =>
      obtain rfl := List.length_eq_zero_iff.1 (Nat.le_zero.1 h')
      exact unaryLevel_eq_postfixed rfl rfl _
    | succ fuel' =>
      rw [unaryLevel, unaryLevel]
      cases hexcl : token? ['!'] text with
      | some rest =>
        have hlt := length_of_token? hexcl
        dsimp only
        rw [ih (by omega) (show rest.length ≤ fuel' by omega)]
      | none =>
        cases hminus : token? ['-'] text with
        | some rest =>
          have hlt := length_of_token? hminus
          dsimp only
          rw [ih (by omega) (show rest.length ≤ fuel' by omega)]
        | none => rfl

theorem prefixed_of_not (h : token? ['!'] text = some rest) :
    prefixed nested text = (do
      let (operand, rest) ← prefixed nested rest
      .ok (unary .not operand, rest)) := by
  have hlt := length_of_token? h
  obtain ⟨k, hk⟩ : ∃ k, text.length = k + 1 := Nat.exists_eq_add_one.2 (by omega)
  rw [prefixed, hk, unaryLevel, h]
  dsimp only
  rw [unaryLevel_congr (by omega) (Nat.le_refl rest.length)]
  rfl

theorem prefixed_of_minus (hexcl : token? ['!'] text = none) (h : token? ['-'] text = some rest) :
    prefixed nested text = (do
      let (operand, rest) ← prefixed nested rest
      .ok (negated operand, rest)) := by
  have hlt := length_of_token? h
  obtain ⟨k, hk⟩ : ∃ k, text.length = k + 1 := Nat.exists_eq_add_one.2 (by omega)
  rw [prefixed, hk, unaryLevel, hexcl, h]
  dsimp only
  rw [unaryLevel_congr (by omega) (Nat.le_refl rest.length)]
  rfl

theorem ReadsOperand.not (ha : Spaced ['!'] a) (h : ReadsOperand nested 5 e t) :
    ReadsOperand nested 5 (unary .not e) (a ++ t) := by
  refine .of_finish (.inr rfl) fun rest hrest => ?_
  have hoperand : prefixed nested (t ++ rest) = .ok (e, rest) := h.finish rest hrest
  rw [List.append_assoc]
  change prefixed nested _ = _
  rw [prefixed_of_not (ha.token?_eq (by decide) _), hoperand]
  rfl

theorem ReadsOperand.minus (ha : Spaced ['-'] a) (h : ReadsOperand nested 5 e t) :
    ReadsOperand nested 5 (negated e) (a ++ t) := by
  refine .of_finish (.inr rfl) fun rest hrest => ?_
  have hoperand : prefixed nested (t ++ rest) = .ok (e, rest) := h.finish rest hrest
  have hexcl : token? ['!'] (a ++ (t ++ rest)) = none :=
    token?_eq_none_of_ne (ha.leading?_eq (by decide) _) (by decide)
  rw [List.append_assoc]
  change prefixed nested _ = _
  rw [prefixed_of_minus hexcl (ha.token?_eq (by decide) _), hoperand]
  rfl

def ReadsList (nested : Reader Expr) (k : Bracket) (items : List Expr) (t : List Char) : Prop :=
  ∀ rest, arguments nested k.opening k.closing (t ++ rest) = .ok (items, rest)

theorem arguments_eq_error {opening closing : Char} (h : token? [opening] text = none) :
    arguments nested opening closing text = .error (skipSpace text) := by
  rw [arguments, token_eq_error h]
  rfl

theorem arguments_skipSpace (opening closing : Char) (text : List Char) :
    arguments nested opening closing (skipSpace text) = arguments nested opening closing text := by
  rw [arguments, arguments, Parser.token, Parser.token, token?_skipSpace, skipSpace_skipSpace]

theorem ReadsOperand.of_primary
    (h : ∀ rest, Stops 7 rest → primary nested (t ++ rest) = .ok (e, rest)) :
    ReadsOperand nested 6 e t := by
  refine .of_access fun rest hrest => ⟨rest.length, Nat.le_refl _, ?_⟩
  rw [postfixed, h rest hrest]
  rfl

theorem primary_of_name (hn : IsName name) (ht : Spaced name.toList t)
    (hrest : Ends isNameChar rest) :
    primary nested (t ++ rest) = .ok (named nested name rest) := by
  obtain ⟨c, token, hname, hc, _⟩ := hn.exists_cons
  have hskip : skipSpace (t ++ rest) = name.toList ++ rest := by
    rw [hname] at ht ⊢
    exact ht.skipSpace_eq (isSpace_of_isNameChar (isNameChar_of_isNameStart hc)) rest
  have hread : identifier (name.toList ++ rest) = .ok (name, rest) :=
    identifier_eq hn ⟨[], nofun, rfl⟩ hrest
  have hquote : c ≠ '"' := by rintro rfl; exact absurd hc (by decide)
  have hround : c ≠ '(' := by rintro rfl; exact absurd hc (by decide)
  have hsquare : c ≠ '[' := by rintro rfl; exact absurd hc (by decide)
  rw [primary, hskip]
  rw [hname] at hread ⊢
  simp only [List.cons_append, if_neg hquote, isDigit_of_isNameStart hc, if_neg hround,
    if_neg hsquare] at hread ⊢
  rw [hread]
  rfl

theorem named_of_literal {v : Value} (h : (v, name) ∈ literals) (rest : List Char) :
    named nested name rest = (constant v, rest) := by
  simp only [literals, List.mem_cons, Prod.mk.injEq, List.not_mem_nil, or_false] at h
  rcases h with ⟨rfl, rfl⟩ | ⟨rfl, rfl⟩ | ⟨rfl, rfl⟩ <;> rfl

theorem named_of_word (h : IsWord name) (rest : List Char) :
    named nested name rest = match arguments nested '(' ')' rest with
      | .ok (args, rest) => (call name args, rest)
      | .error _ => (captured name, rest) := by
  obtain ⟨_, h⟩ := h
  simp only [literals, List.map_cons, List.map_nil, List.mem_cons, List.not_mem_nil, or_false,
    not_or] at h
  cases hargs : arguments nested '(' ')' rest with
  | ok args => rw [named, if_neg h.2.1, if_neg h.2.2, if_neg h.1, hargs]
  | error failure => rw [named, if_neg h.2.1, if_neg h.2.2, if_neg h.1, hargs]

theorem ReadsOperand.literal {v : Value} (hv : (v, name) ∈ literals)
    (ht : Spaced name.toList t) : ReadsOperand nested 6 (constant v) t := by
  refine .of_primary fun rest hrest => ?_
  rw [primary_of_name (isName_of_literal hv) ht hrest.name, named_of_literal hv]

theorem ReadsOperand.word (hn : IsWord name) (ht : Spaced name.toList t) :
    ReadsOperand nested 6 (captured name) t := by
  refine .of_primary fun rest hrest => ?_
  rw [primary_of_name hn.1 ht hrest.name, named_of_word hn, arguments_eq_error hrest.arguments]

theorem ReadsOperand.call (hn : IsWord name) (ha : Spaced name.toList a)
    (ht : ReadsList nested .round args t) (hlist : ∃ token, Spaced ('(' :: token) t) :
    ReadsOperand nested 6 (call name args) (a ++ t) := by
  refine .of_primary fun rest hrest => ?_
  obtain ⟨token, hopening⟩ := hlist
  have hends : Ends isNameChar (t ++ rest) :=
    hopening.ends (by decide) (fun _ => isNameChar_of_isSpace) rest
  have hargs : arguments nested '(' ')' (t ++ rest) = .ok (args, rest) := ht rest
  rw [List.append_assoc, primary_of_name hn.1 ha hends, named_of_word hn, hargs]

theorem ReadsOperand.string {s : String}
    (ht : Spaced ('"' :: (escaped s.toList ++ ['"'])) t) :
    ReadsOperand nested 6 (constant (.string s)) t := by
  refine .of_primary fun rest _ => ?_
  have hskip := ht.skipSpace_eq (by decide) rest
  have hchars : stringRest? (escaped s.toList ++ ['"'] ++ rest) = some (s.toList, rest) := by
    rw [List.append_assoc]
    exact stringRest?_escaped s.toList rest
  rw [primary, hskip]
  simp only [if_true, stringLiteral, hchars, String.ofList_toList]

theorem ReadsOperand.integer {i : Int64} (hd : Digits digits i.toInt) (ht : Spaced digits t) :
    ReadsOperand nested 6 (constant (.integer i)) t := by
  refine .of_primary fun rest hrest => ?_
  have hread := number_eq hd hrest.digit hrest.fraction
  cases digits with
  | nil => exact absurd rfl hd.nonempty
  | cons c token =>
    have hc : c.isDigit = true := hd.digit c List.mem_cons_self
    have hquote : c ≠ '"' := by rintro rfl; cases hc
    have hskip := ht.skipSpace_eq (isSpace_of_isNameChar (isNameChar_of_isDigit hc)) rest
    rw [primary, hskip]
    simp only [if_neg hquote, hc, if_true]
    exact hread

theorem ReadsOperand.array (ht : ReadsList nested .square items t)
    (hlist : ∃ token, Spaced ('[' :: token) t) : ReadsOperand nested 6 (array items) t := by
  refine .of_primary fun rest _ => ?_
  obtain ⟨token, hopening⟩ := hlist
  have hskip := hopening.skipSpace_eq (by decide) rest
  have hitems : arguments nested '[' ']' ('[' :: (token ++ rest)) = .ok (items, rest) := by
    rw [← hskip, arguments_skipSpace]
    exact ht rest
  rw [primary, hskip]
  simp only [hitems]
  rfl

theorem ReadsOperand.parentheses (ha : Spaced ['('] a) (hb : Spaced [')'] b)
    (h : ∀ rest, Stops 0 rest → nested (t ++ rest) = .ok (e, rest)) :
    ReadsOperand nested 6 e (a ++ (t ++ b)) := by
  refine .of_primary fun rest _ => ?_
  have hskip : skipSpace (a ++ (t ++ (b ++ rest))) = '(' :: (t ++ (b ++ rest)) :=
    ha.skipSpace_eq (by decide) _
  have hopening : Parser.token ['('] ('(' :: (t ++ (b ++ rest))) = .ok (t ++ (b ++ rest)) := rfl
  have hinner := h (b ++ rest) (hb.stops_delimiter (.inl rfl) rest)
  have hclosing : Parser.token [')'] (b ++ rest) = .ok rest :=
    token_eq (hb.token?_eq (by decide) rest)
  rw [List.append_assoc, List.append_assoc, primary, hskip]
  simp only [hopening, bind, Except.bind, hinner, hclosing]
  rfl

theorem exists_name_cons (hn : IsName name) (hb : Spaced name.toList b) :
    ∃ c token, c.isDigit = false ∧ Spaced (c :: token) b := by
  obtain ⟨c, token, hname, hc, _⟩ := hn.exists_cons
  exact ⟨c, token, isDigit_of_isNameStart hc, hname ▸ hb⟩

/-- A target is left before an access to a member of it. -/
theorem ReadsOperand.exists_access (h : ReadsOperand nested 6 e t) (ha : Spaced ['.'] a)
    (hn : IsName name) (hb : Spaced name.toList b) (hrest : Ends isNameChar rest) :
    ∃ fuel, rest.length ≤ fuel ∧ postfixed nested (t ++ (a ++ (b ++ rest))) =
      match arguments nested '(' ')' rest with
      | .ok (args, rest) => postfixRest nested fuel (methodCall e name args) rest
      | .error _ => postfixRest nested fuel (member e name) rest := by
  obtain ⟨c, token, hc, hcons⟩ := exists_name_cons hn hb
  obtain ⟨fuel, hfuel, hread⟩ := h.access (Nat.le_refl 6) _ (ha.stops_access hcons hc rest)
  have hlen : 1 ≤ a.length := ha.length_le
  rw [List.length_append, List.length_append] at hfuel
  obtain ⟨k, rfl⟩ : ∃ k, fuel = k + 1 := Nat.exists_eq_add_one.2 (by omega)
  refine ⟨k, by omega, ?_⟩
  rw [hread, postfixRest, ha.token?_eq (by decide) (b ++ rest)]
  cases hargs : arguments nested '(' ')' rest with
  | ok args => simp only [identifier_eq hn hb hrest, bind, Except.bind, hargs]
  | error failure => simp only [identifier_eq hn hb hrest, bind, Except.bind, hargs]

theorem ReadsOperand.member (h : ReadsOperand nested 6 e t) (ha : Spaced ['.'] a)
    (hn : IsName name) (hb : Spaced name.toList b) :
    ReadsOperand nested 6 (member e name) (t ++ (a ++ b)) := by
  refine .of_access fun rest hrest => ?_
  obtain ⟨fuel, hfuel, hread⟩ := h.exists_access ha hn hb hrest.name
  rw [arguments_eq_error hrest.arguments] at hread
  exact ⟨fuel, hfuel, by rw [List.append_assoc, List.append_assoc, hread]⟩

theorem ReadsOperand.methodCall (h : ReadsOperand nested 6 e t) (ha : Spaced ['.'] a)
    (hn : IsName name) (hb : Spaced name.toList b) (hu : ReadsList nested .round args u)
    (hlist : ∃ token, Spaced ('(' :: token) u) :
    ReadsOperand nested 6 (methodCall e name args) (t ++ (a ++ (b ++ u))) := by
  refine .of_access fun rest hrest => ?_
  obtain ⟨token, hopening⟩ := hlist
  have hends : Ends isNameChar (u ++ rest) :=
    hopening.ends (by decide) (fun _ => isNameChar_of_isSpace) rest
  have hargs : arguments nested '(' ')' (u ++ rest) = .ok (args, rest) := hu rest
  obtain ⟨fuel, hfuel, hread⟩ := h.exists_access ha hn hb hends
  rw [hargs] at hread
  rw [List.length_append] at hfuel
  refine ⟨fuel, by omega, ?_⟩
  rw [List.append_assoc, List.append_assoc, List.append_assoc, hread]

end DocStore.Expr
