import DocStore.Proofs.Expr.Reading

/-!
# Reading back what was written

Every text that writes a lambda is read as this lambda. Reading gives the names of parameters as
captured names, which the scopes then turn back (`resolve_unresolved`).
-/

namespace DocStore

namespace Expr

open DocStore.Expr.Parser

variable {nested : Reader Expr} {e : Expr} {token rest a b t u : List Char} {c : Char}
  {d fuel : Nat} {name : String} {items : List Expr} {p : Phrase} {scope : List String}
  {item : Bool}

mutual

/-- The expression as it is read, before parameters are told from captured names. -/
def unresolved : Expr → Expr
  | param name => captured name
  | captured name => captured name
  | constant v => constant v
  | member target name => member (unresolved target) name
  | binary op left right => binary op (unresolved left) (unresolved right)
  | unary op operand => unary op (unresolved operand)
  | call method args => call method (unresolvedList args)
  | methodCall target method args => methodCall (unresolved target) method (unresolvedList args)
  | lambda p body => lambda p (unresolved body)
  | array items => array (unresolvedList items)

def unresolvedList : List Expr → List Expr
  | [] => []
  | e :: rest => unresolved e :: unresolvedList rest

end

mutual

theorem resolve_unresolved (scope : List String) (item : Bool) :
    ∀ e : Expr, e.Writable scope item → resolve scope e.unresolved = e
  | param name, h => by
    rw [Writable] at h
    rw [unresolved, resolve, if_pos h.2]
  | captured name, h => by
    rw [Writable] at h
    rw [unresolved, resolve, if_neg h.2]
  | constant v, _ => by rw [unresolved, resolve]
  | member target name, h => by
    rw [Writable] at h
    rw [unresolved, resolve, resolve_unresolved scope false target h.1]
  | binary op left right, h => by
    rw [Writable] at h
    rw [unresolved, resolve, resolve_unresolved scope false left h.1,
      resolve_unresolved scope false right h.2]
  | unary op operand, h => by
    rw [Writable] at h
    rw [unresolved, resolve, resolve_unresolved scope false operand h.1]
  | call method args, h => by
    rw [Writable] at h
    rw [unresolved, resolve, resolveList_unresolvedList scope args h.2]
  | methodCall target method args, h => by
    rw [Writable] at h
    rw [unresolved, resolve, resolve_unresolved scope false target h.1,
      resolveList_unresolvedList scope args h.2.2]
  | lambda p body, h => by
    rw [Writable] at h
    rw [unresolved, resolve, resolve_unresolved (p :: scope) false body h.2.2]
  | array items, h => by
    rw [Writable] at h
    rw [unresolved, resolve, resolveList_unresolvedList scope items h]

theorem resolveList_unresolvedList (scope : List String) :
    ∀ items : List Expr, WritableList scope items →
      resolveList scope (unresolvedList items) = items
  | [], _ => by rw [unresolvedList, resolveList]
  | e :: rest, h => by
    rw [WritableList] at h
    rw [unresolvedList, resolveList, resolve_unresolved scope true e h.1,
      resolveList_unresolvedList scope rest h.2]

end

/-- If the text of an operand begins with a name, no arrow stands behind it. -/
def NoArrow (t : List Char) : Prop :=
  ∀ rest, Ends isNameChar rest → token? ['=', '>'] rest = none →
    ∀ name behind, identifier (t ++ rest) = .ok (name, behind) →
      token? ['=', '>'] behind = none

theorem noArrow_of_name (hn : IsName name) (ht : Spaced name.toList t) : NoArrow t := by
  intro rest hends harrow other behind hread
  rw [identifier_eq hn ht hends] at hread
  obtain ⟨_, rfl⟩ := Prod.mk.inj (Except.ok.inj hread)
  exact harrow

theorem noArrow_of_start (ht : Spaced (c :: token) t) (hc : isSpace c = false)
    (hstart : isNameStart c = false) : NoArrow t := by
  intro rest _ _ name behind hread
  have herror : identifier (t ++ rest) = .error (skipSpace (t ++ rest)) := by
    refine identifier_eq_error fun d hd => ?_
    rw [ht.leading?_eq hc rest] at hd
    obtain rfl := Option.some.inj hd
    exact hstart
  rw [herror] at hread
  cases hread

theorem NoArrow.append (h : NoArrow t)
    (hu : ∀ rest, Ends isNameChar (u ++ rest) ∧ token? ['=', '>'] (u ++ rest) = none) :
    NoArrow (t ++ u) := by
  intro rest _ _ name behind hread
  rw [List.append_assoc] at hread
  exact h (u ++ rest) (hu rest).1 (hu rest).2 name behind hread

/-- Behind a name, whatever begins with this character is no arrow. -/
theorem Spaced.not_arrow (h : Spaced (c :: token) u) (hspace : isSpace c = false)
    (hname : isNameChar c = false) (hc : c ≠ '=') (rest : List Char) :
    Ends isNameChar (u ++ rest) ∧ token? ['=', '>'] (u ++ rest) = none :=
  ⟨h.ends hname (fun _ => isNameChar_of_isSpace) rest,
    token?_eq_none_of_ne (h.leading?_eq hspace rest) hc⟩

theorem Writes.noArrow (h : Writes p t) (hp : p.Writable scope) :
    ∀ n e, p = .operand n e → NoArrow t := by
  induction h generalizing scope with
  | param ht | captured ht =>
    intro _ _ _
    obtain ⟨_, hp⟩ := hp
    rw [Writable] at hp
    exact noArrow_of_name hp.1.1 ht
  | literal hv ht => exact fun _ _ _ => noArrow_of_name (isName_of_literal hv) ht
  | string ht => exact fun _ _ _ => noArrow_of_start ht (by decide) (by decide)
  | @integer _ digits _ hd ht =>
    intro _ _ _
    cases digits with
    | nil => exact absurd rfl hd.nonempty
    | cons c token =>
      have hc : c.isDigit = true := hd.digit c List.mem_cons_self
      refine noArrow_of_start ht (isSpace_of_isNameChar (isNameChar_of_isDigit hc)) ?_
      refine Bool.eq_false_iff.2 fun hstart => ?_
      rw [isDigit_of_isNameStart hstart] at hc
      cases hc
  | negative ha _ _ => exact fun _ _ _ => noArrow_of_start (ha.append _) (by decide) (by decide)
  | array ht _ =>
    intro _ _ _
    obtain ⟨_, hp⟩ := hp
    rw [Writable] at hp
    obtain ⟨token, hopening⟩ := ht.begins hp
    exact noArrow_of_start hopening (by decide) (by decide)
  | call ha ht _ =>
    intro _ _ _
    obtain ⟨_, hp⟩ := hp
    rw [Writable] at hp
    obtain ⟨token, hopening⟩ := ht.begins hp.2
    exact (noArrow_of_name hp.1.1 ha).append
      (hopening.not_arrow (by decide) (by decide) (by decide))
  | member _ ha _ ih =>
    intro _ _ _
    obtain ⟨_, hp⟩ := hp
    rw [Writable] at hp
    exact (ih ⟨_, hp.1⟩ _ _ rfl).append
      ((ha.append _).not_arrow (by decide) (by decide) (by decide))
  | methodCall _ ha _ _ ih _ =>
    intro _ _ _
    obtain ⟨_, hp⟩ := hp
    rw [Writable] at hp
    exact (ih ⟨_, hp.1⟩ _ _ rfl).append
      ((ha.append _).not_arrow (by decide) (by decide) (by decide))
  | not ha _ _ => exact fun _ _ _ => noArrow_of_start (ha.append _) (by decide) (by decide)
  | negate ha _ _ => exact fun _ _ _ => noArrow_of_start (ha.append _) (by decide) (by decide)
  | binary _ ha _ ih _ =>
    intro _ _ _
    obtain ⟨_, hp⟩ := hp
    rw [Writable] at hp
    refine (ih ⟨_, hp.1⟩ _ _ rfl).append fun rest => ?_
    rw [List.append_assoc]
    exact ⟨(ha.stops_symbol _).name, (ha.stops_symbol _).arrow⟩
  | parentheses ha _ _ _ =>
    exact fun _ _ _ => noArrow_of_start (ha.append _) (by decide) (by decide)
  | tighter _ ih => exact fun _ _ _ => ih hp _ _ rfl
  | lambda | expression | last | further | empty | items => exact nofun

theorem lambdaParts_eq (hn : IsName name) (ha : Spaced name.toList a) (hb : Spaced ['=', '>'] b)
    (hread : nested (t ++ rest) = .ok (e, rest)) :
    lambdaParts nested (a ++ (b ++ (t ++ rest))) = .ok (⟨name, e⟩, rest) := by
  have hends : Ends isNameChar (b ++ (t ++ rest)) :=
    hb.ends (by decide) (fun _ => isNameChar_of_isSpace) _
  have harrow : Parser.token ['=', '>'] (b ++ (t ++ rest)) = .ok (t ++ rest) :=
    token_eq (hb.token?_eq (by decide) _)
  rw [lambdaParts, identifier_eq hn ha hends]
  simp only [bind, Except.bind, harrow, hread]

theorem lambdaParts_eq_error (ht : NoArrow t) (hrest : Stops 0 rest) :
    ∃ failure, lambdaParts nested (t ++ rest) = .error failure := by
  cases hread : identifier (t ++ rest) with
  | error failure => exact ⟨failure, by rw [lambdaParts, hread]; rfl⟩
  | ok parts =>
    obtain ⟨name, behind⟩ := parts
    have harrow := ht rest hrest.name hrest.arrow name behind hread
    refine ⟨skipSpace behind, ?_⟩
    rw [lambdaParts, hread]
    simp only [bind, Except.bind, token_eq_error harrow]

theorem argument_of_operand (ht : NoArrow t) (hrest : Stops 0 rest)
    (hread : nested (t ++ rest) = .ok (e, rest)) :
    argument nested (t ++ rest) = .ok (e, rest) := by
  obtain ⟨failure, herror⟩ := lambdaParts_eq_error ht hrest
  rw [argument, herror, hread]

/-- How a phrase is read by readers of expressions that are nested at most `depth` deep. Every
nesting takes a bracket or a parameter and so is shorter than the text around it. -/
def Reads (depth : Nat) : Phrase → List Char → Prop
  | .operand n e, t => t.length ≤ depth → ReadsOperand (expression depth) n e.unresolved t
  | .item e, t => t.length < depth → ∀ rest, Stops 0 rest →
      argument (expression depth) (t ++ rest) = .ok (e.unresolved, rest)
  | .more items, t => t.length < depth → ∀ rest fuel, Stops 0 rest → token? [','] rest = none →
      t.length ≤ fuel →
      moreArguments (expression depth) fuel (t ++ rest) = .ok (unresolvedList items, rest)
  | .list k items, t => t.length ≤ depth →
      ReadsList (expression depth) k (unresolvedList items) t

theorem expression_eq (h : ∀ depth, Reads depth (.operand 0 e) t) (ht : t.length < d)
    (hrest : Stops 0 rest) : expression d (t ++ rest) = .ok (e.unresolved, rest) := by
  obtain ⟨depth, rfl⟩ : ∃ depth, d = depth + 1 := Nat.exists_eq_add_one.2 (by omega)
  exact (h depth (by omega)).finish rest hrest

theorem toInt_neg_of_ne {i : Int64} (h : i ≠ Int64.minValue) : (-i).toInt = -i.toInt := by
  have hmin : Int64.minValue.toInt = -2 ^ 63 := by decide
  have hlt : i.toInt < 2 ^ 63 := i.toInt_lt
  have hle : -2 ^ 63 ≤ i.toInt := i.le_toInt
  have hne : i.toInt ≠ -2 ^ 63 := fun he => h (Int64.toInt_inj.1 (he.trans hmin.symm))
  rw [Int64.toInt_neg]
  exact Int.bmod_eq_of_le (by omega) (by omega)

theorem negated_integer {i : Int64} (h : i ≠ Int64.minValue) :
    negated (constant (.integer (-i))) = constant (.integer i) := by
  have hne : -i ≠ Int64.minValue := by
    intro he
    refine h ?_
    rw [← Int64.neg_neg (a := i), he]
    rfl
  rw [negated, if_neg hne, Int64.neg_neg]

theorem negated_unresolved (h : e.isInteger = false) (hw : e.Writable scope item) :
    negated e.unresolved = unary .negate e.unresolved := by
  cases e with
  | constant v =>
    rw [Writable] at hw
    cases v with
    | integer i => cases h
    | fractal x => cases hw
    | _ => rfl
  | _ => rw [unresolved]; rfl

/-- After items comes a further one, or what comes after all. -/
theorem Writes.stops_more (h : Writes (.more items) u) (hp : WritableList scope items)
    (hrest : Stops 0 rest) : Stops 0 (u ++ rest) := by
  obtain ⟨_, rfl⟩ | ⟨token, hcomma⟩ := h.begins hp
  · exact hrest
  · exact hcomma.stops_delimiter (.inr (.inr rfl)) rest

theorem Spaced.closing {k : Bracket} (hb : Spaced [k.closing] b) (rest : List Char) :
    Stops 0 (b ++ rest) ∧ token? [','] (b ++ rest) = none ∧
      token? [k.closing] (b ++ rest) = some rest := by
  cases k with
  | round => exact ⟨hb.stops_delimiter (.inl rfl) rest,
      token?_eq_none_of_ne (hb.leading?_eq (by decide) rest) (by decide),
      hb.token?_eq (by decide) rest⟩
  | square => exact ⟨hb.stops_delimiter (.inr (.inl rfl)) rest,
      token?_eq_none_of_ne (hb.leading?_eq (by decide) rest) (by decide),
      hb.token?_eq (by decide) rest⟩

theorem token_opening {k : Bracket} (ha : Spaced [k.opening] a) (rest : List Char) :
    Parser.token [k.opening] (a ++ rest) = .ok rest := by
  cases k <;> exact token_eq (ha.token?_eq (by decide) rest)

theorem readsList_nil {k : Bracket} (ha : Spaced [k.opening] a) (hb : Spaced [k.closing] b) :
    ReadsList nested k [] (a ++ b) := by
  intro rest
  rw [List.append_assoc, arguments, token_opening ha]
  simp only [bind, Except.bind, (hb.closing rest).2.2]

/-- A list is read by reading its first item and then, up to the closing bracket, the others. -/
theorem readsList_cons {k : Bracket} (ha : Spaced [k.opening] a)
    (ht : ∃ c token, starts 0 c = true ∧ Spaced (c :: token) t) (hb : Spaced [k.closing] b)
    (hitem : ∀ rest, argument nested (t ++ (u ++ (b ++ rest))) = .ok (e, u ++ (b ++ rest)))
    (hmore : ∀ rest, moreArguments nested (u ++ (b ++ rest)).length (u ++ (b ++ rest)) =
      .ok (items, b ++ rest)) :
    ReadsList nested k (e :: items) (a ++ (t ++ (u ++ b))) := by
  intro rest
  obtain ⟨c, token, hc, ht⟩ := ht
  have hne : c ≠ k.closing := by
    rintro rfl
    rw [starts_closing] at hc
    cases hc
  have hfirst : token? [k.closing] (t ++ (u ++ (b ++ rest))) = none :=
    token?_eq_none_of_ne (ht.leading?_eq (isSpace_of_starts hc) _) hne
  have hlast : Parser.token [k.closing] (b ++ rest) = .ok rest := token_eq (hb.closing rest).2.2
  simp only [List.append_assoc, arguments, token_opening ha, bind, Except.bind, hfirst,
    hitem rest, hmore rest, hlast]

theorem Writes.reads (h : Writes p t) (hp : p.Writable scope) (depth : Nat) :
    Reads depth p t := by
  induction h generalizing scope depth with
  | param ht | captured ht =>
    obtain ⟨_, hp⟩ := hp
    rw [Writable] at hp
    intro _
    exact .word hp.1 ht
  | literal hv ht => exact fun _ => .literal hv ht
  | string ht => exact fun _ => .string ht
  | integer hd ht => exact fun _ => .integer hd ht
  | @negative i digits a t ha hd ht =>
    intro _
    obtain ⟨_, hp⟩ := hp
    rw [Writable] at hp
    have hdigits : Digits digits (-i).toInt := by
      rw [toInt_neg_of_ne hp]
      exact hd
    have hread : ReadsOperand (Parser.expression depth) 6 (constant (.integer (-i))) t :=
      .integer hdigits ht
    have hminus := (hread.tighter (begins_digits hd ht)).minus ha
    rw [negated_integer hp] at hminus
    exact hminus
  | array ht ih =>
    intro hlen
    obtain ⟨_, hp⟩ := hp
    rw [Writable] at hp
    exact .array (ih hp depth hlen) (ht.begins hp)
  | call ha ht ih =>
    intro hlen
    obtain ⟨_, hp⟩ := hp
    rw [Writable] at hp
    rw [List.length_append] at hlen
    exact .call hp.1 ha (ih hp.2 depth (by omega)) (ht.begins hp.2)
  | member _ ha hb ih =>
    intro hlen
    obtain ⟨_, hp⟩ := hp
    rw [Writable] at hp
    rw [List.length_append] at hlen
    exact .member (ih ⟨_, hp.1⟩ depth (by omega)) ha hp.2 hb
  | methodCall _ ha hb hu ih ihargs =>
    intro hlen
    obtain ⟨_, hp⟩ := hp
    rw [Writable] at hp
    simp only [List.length_append] at hlen
    exact .methodCall (ih ⟨_, hp.1⟩ depth (by omega)) ha hp.2.1 hb
      (ihargs hp.2.2 depth (by omega)) (hu.begins hp.2.2)
  | not ha _ ih =>
    intro hlen
    obtain ⟨_, hp⟩ := hp
    rw [Writable] at hp
    rw [List.length_append] at hlen
    exact .not ha (ih ⟨_, hp.1⟩ depth (by omega))
  | negate ha _ ih =>
    intro hlen
    obtain ⟨_, hp⟩ := hp
    rw [Writable] at hp
    rw [List.length_append] at hlen
    have hminus := (ih ⟨_, hp.1⟩ depth (by omega)).minus ha
    rw [negated_unresolved (hp.2 rfl) hp.1] at hminus
    exact hminus
  | binary _ ha hu ihl ihr =>
    intro hlen
    obtain ⟨_, hp⟩ := hp
    rw [Writable] at hp
    simp only [List.length_append] at hlen
    exact (ihl ⟨_, hp.1⟩ depth (by omega)).binary ha (ihr ⟨_, hp.2⟩ depth (by omega))
      (hu.begins ⟨_, hp.2⟩)
  | parentheses ha _ hb ih =>
    intro hlen
    have hopening := ha.length_le
    simp only [List.length_append, List.length_singleton] at hlen hopening
    exact .parentheses ha hb fun rest => expression_eq (ih hp) (by omega)
  | tighter ht ih =>
    intro hlen
    exact (ih hp depth hlen).tighter (ht.begins hp)
  | lambda ha hb _ ih =>
    intro hlen rest hrest
    obtain ⟨_, hp⟩ := hp
    rw [Writable] at hp
    simp only [List.length_append] at hlen
    have hbody := expression_eq (ih ⟨_, hp.2.2⟩) (d := depth) (by omega) hrest
    rw [List.append_assoc, List.append_assoc, argument, lambdaParts_eq hp.2.1 ha hb hbody]
    rfl
  | expression ht ih =>
    intro hlen rest hrest
    exact argument_of_operand (ht.noArrow hp _ _ rfl) hrest (expression_eq (ih hp) hlen hrest)
  | last =>
    intro _ rest fuel _ hcomma _
    cases fuel with
    | zero => rfl
    | succ fuel =>
      rw [List.nil_append, moreArguments, hcomma]
      rfl
  | further ha _ hu ihe ihrest =>
    intro hlen rest fuel hrest hcomma hfuel
    rw [Phrase.Writable, WritableList] at hp
    have hlead := ha.length_le
    simp only [List.length_append, List.length_singleton] at hlen hfuel hlead
    obtain ⟨k, rfl⟩ : ∃ k, fuel = k + 1 := Nat.exists_eq_add_one.2 (by omega)
    have hitem := ihe ⟨_, hp.1⟩ depth (by omega) _ (hu.stops_more hp.2 hrest)
    have hmore := ihrest hp.2 depth (by omega) rest k hrest hcomma (by omega)
    rw [List.append_assoc, List.append_assoc, moreArguments, ha.token?_eq (by decide)]
    simp only [bind, Except.bind, hitem, hmore]
    rw [unresolvedList]
  | empty ha hb => exact fun _ => readsList_nil ha hb
  | items ha ht hu hb ihe ihrest =>
    intro hlen
    rw [Phrase.Writable, WritableList] at hp
    have hopening := ha.length_le
    simp only [List.length_append, List.length_singleton] at hlen hopening
    rw [unresolvedList]
    refine readsList_cons ha (ht.begins ⟨_, hp.1⟩) hb (fun rest => ?_) fun rest => ?_
    · exact ihe ⟨_, hp.1⟩ depth (by omega) _ (hu.stops_more hp.2 (hb.closing rest).1)
    · exact ihrest hp.2 depth (by omega) _ _ (hb.closing rest).1 (hb.closing rest).2.1
        (by rw [List.length_append]; omega)

end Expr

namespace Lambda

open DocStore.Expr

variable {l : Lambda} {text : String}

/-- The parameter and the body are read, and nothing but space is left. -/
theorem lambdaParts_of_renders (hl : l.Writable) (h : l.Renders text) :
    ∃ space, (∀ c ∈ space, Parser.isSpace c = true) ∧
      Parser.lambdaParts (Parser.expression (text.toList.length + 1)) text.toList =
        .ok (⟨l.param, l.body.unresolved⟩, space) := by
  obtain ⟨hn, hbody⟩ := hl
  obtain ⟨a, b, t, space, ha, hb, ht, hspace, htext⟩ := h
  have hlen : t.length < text.toList.length + 1 := by
    rw [htext]
    simp only [List.length_append]
    omega
  have hread : Parser.expression (text.toList.length + 1) (t ++ space) =
      .ok (l.body.unresolved, space) :=
    expression_eq (ht.reads ⟨_, hbody⟩) hlen (stops_blank hspace)
  refine ⟨space, hspace, ?_⟩
  rw [← lambdaParts_eq hn ha hb hread, htext]

theorem ofText_of_lambdaParts {space : List Char} (hl : l.Writable)
    (hspace : ∀ c ∈ space, Parser.isSpace c = true)
    (h : Parser.lambdaParts (Parser.expression (text.toList.length + 1)) text.toList =
      .ok (⟨l.param, l.body.unresolved⟩, space)) : ofText text = .ok l := by
  rw [ofText, h]
  simp only [skipSpace_eq_nil hspace, List.isEmpty_nil, if_true,
    resolve_unresolved [l.param] false l.body hl.2]

/-- The text parser inverts printing: however a lambda is written, it is read back. -/
theorem ofText_of_renders (hl : l.Writable) (h : l.Renders text) : ofText text = .ok l := by
  obtain ⟨space, hspace, hparts⟩ := lambdaParts_of_renders hl h
  exact ofText_of_lambdaParts hl hspace hparts

/-- Spaces stand only in some places, parentheses where they need not, one operator begins another,
a minus belongs to a number, and a quote in a string is escaped. -/
theorem ofText_of_renders_tags :
    ofText "i=> (i.A)- -5<f( x,[]) && !i.Tags.Any(t => t==\"a\\\"b\") " =
      .ok ⟨"i", .binary .and
        (.binary .lessThan
          (.binary .subtract (.member (.param "i") "A") (.constant (.integer (-5))))
          (.call "f" [.captured "x", .array []]))
        (.unary .not (.methodCall (.member (.param "i") "Tags") "Any"
          [.lambda "t" (.binary .equal (.param "t") (.constant (.string "a\"b")))]))⟩ := by
  have bare : ∀ token, Spaced token token := fun token => ⟨[], nofun, rfl⟩
  have hspace : ∀ c ∈ [' '], Parser.isSpace c = true := List.forall_mem_singleton.2 rfl
  have spaced : ∀ token, Spaced token (' ' :: token) := fun token => ⟨[' '], hspace, rfl⟩
  have hmember : Writes (.operand 3 (.member (.param "i") "A")) " (i.A)".toList :=
    .looser (by decide) (.parentheses (spaced _)
      (.looser (by decide) (.member (.param (bare _)) (bare _) (bare _))) (bare _))
  have hnumber : Writes (.operand 4 (.constant (.integer (-5)))) " -5".toList :=
    .tighter (.negative (spaced _) ⟨by decide, List.forall_mem_singleton.2 rfl, by decide⟩
      (bare ['5']))
  have hdifference : Writes (.operand 3 (.binary .subtract (.member (.param "i") "A")
      (.constant (.integer (-5))))) " (i.A)- -5".toList :=
    @Writes.binary .subtract _ _ _ _ _ hmember (bare _) hnumber
  have hargs : Writes (.list .round [.captured "x", .array []]) "( x,[])".toList :=
    .items (bare _) (.expression (.looser (by decide) (.captured (spaced _))))
      (.further (bare _) (.expression (.looser (by decide) (.array (.empty (bare _) (bare _)))))
        .last) (bare _)
  have hcompared : Writes (.operand 1 (.binary .lessThan (.binary .subtract
      (.member (.param "i") "A") (.constant (.integer (-5)))) (.call "f" [.captured "x",
      .array []]))) " (i.A)- -5<f( x,[])".toList :=
    .tighter (@Writes.binary .lessThan _ _ _ _ _ hdifference (bare _)
      (.looser (by decide) (.call (bare _) hargs)))
  have hequal : Writes (.operand 0 (.binary .equal (.param "t") (.constant (.string "a\"b"))))
      " t==\"a\\\"b\"".toList :=
    .looser (by decide) (@Writes.binary .equal _ _ _ _ _ (.looser (by decide) (.param (spaced _)))
      (bare _) (.looser (by decide) (.string (bare _))))
  have hitem : Writes (.list .round [.lambda "t" (.binary .equal (.param "t")
      (.constant (.string "a\"b")))]) "(t => t==\"a\\\"b\")".toList :=
    .items (bare _) (.lambda (bare _) (spaced _) hequal) .last (bare _)
  have hnot : Writes (.operand 2 (.unary .not (.methodCall (.member (.param "i") "Tags") "Any"
      [.lambda "t" (.binary .equal (.param "t") (.constant (.string "a\"b")))])))
      " !i.Tags.Any(t => t==\"a\\\"b\")".toList :=
    .looser (by decide) (.not (spaced _) (.tighter (.methodCall
      (.member (.param (bare _)) (bare _) (bare _)) (bare _) (bare _) hitem)))
  refine ofText_of_renders ?_ ⟨_, _, _, [' '], bare _, bare _,
    .tighter (@Writes.binary .and _ _ _ _ _ hcompared (spaced _) hnot), hspace, rfl⟩
  simp only [Lambda.Writable, Expr.Writable, WritableList, IsLiteral]
  decide

end Lambda

end DocStore
