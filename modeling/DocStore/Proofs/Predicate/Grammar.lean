import DocStore.Sql.Compiled

/-!
# The grammar of predicates

`Grammar.Derivable` are the token sequences that are predicates to a database: conditions joined by
`and` and `or`, negated in groups, and comparisons of operands. To show that a sequence is none of
them it is read from left to right. A `Reading` is what is known of the group that is being read;
a sequence with its own parentheses changes it by some function, its effect, and every predicate has
one that ends a condition wherever a condition may begin.
-/

namespace DocStore

inductive Terminal where
  | column
  | parameter
  | list
  | null
  | operator (op : Operator)
  | opening
  | closing
  /-- What has no place in a predicate. -/
  | misplaced
  deriving DecidableEq

def Token.terminal : Token → Terminal
  | column _ => .column
  | operator op => .operator op
  | parameter _ => .parameter
  | list _ => .list
  | null => .null
  | opening => .opening
  | closing => .closing

namespace Grammar

def relates : Operator → Bool
  | .equal | .notEqual | .lessThan | .lessOrEqual | .greaterThan | .greaterOrEqual => true
  | _ => false

inductive Operand : List Terminal → Prop
  | column : Operand [.column]
  | parameter : Operand [.parameter]
  | group {s : List Terminal} (h : Operand s) : Operand (.opening :: s ++ [.closing])

inductive Derivable : List Terminal → Prop
  | and {s t : List Terminal} (hs : Derivable s) (ht : Derivable t) :
    Derivable (s ++ .operator .and :: t)
  | or {s t : List Terminal} (hs : Derivable s) (ht : Derivable t) :
    Derivable (s ++ .operator .or :: t)
  | not {s : List Terminal} (hs : Derivable s) :
    Derivable (.operator .not :: .opening :: s ++ [.closing])
  | group {s : List Terminal} (hs : Derivable s) : Derivable (.opening :: s ++ [.closing])
  | compare {s t : List Terminal} {op : Operator} (hop : relates op = true) (hs : Operand s)
    (ht : Operand t) : Derivable (s ++ .operator op :: t)
  | like : Derivable [.column, .operator .like, .parameter]
  | inList : Derivable [.column, .operator .inList, .list]
  | notInList : Derivable [.column, .operator .notInList, .list]
  | isNull : Derivable [.column, .operator .is, .null]
  | isNotNull : Derivable [.column, .operator .isNot, .null]

/-- What has been read of a group since its last `and` or `or`. -/
inductive Reading where
  /-- Nothing, at the beginning of the group. -/
  | start
  /-- Nothing, behind an `and` or `or`. -/
  | next
  | negated
  /-- An operand, which may be a column, and may be all of the group. -/
  | operand (column whole : Bool)
  /-- An operand and the operator behind it. -/
  | related
  | liked
  | listed
  | nulled
  /-- A condition. -/
  | done
  /-- What no predicate begins with. -/
  | failed
  deriving DecidableEq

namespace Reading

def relate (op : Operator) (column : Bool) : Reading :=
  if relates op then related
  else
    match op, column with
    | .like, true => liked
    | .inList, true | .notInList, true => listed
    | .is, true | .isNot, true => nulled
    | _, _ => failed

def step : Reading → Terminal → Reading
  | start, .column => operand true true
  | next, .column => operand true false
  | related, .column => done
  | start, .parameter => operand false true
  | next, .parameter => operand false false
  | related, .parameter | liked, .parameter => done
  | listed, .list => done
  | nulled, .null => done
  | start, .operator .not | next, .operator .not => negated
  | done, .operator .and | done, .operator .or => next
  | operand column _, .operator op => relate op column
  | _, _ => failed

def close (inner : Reading) : Reading → Reading
  | start =>
    match inner with
    | done => done
    | operand _ true => operand false true
    | _ => failed
  | next =>
    match inner with
    | done => done
    | operand _ true => operand false false
    | _ => failed
  | negated => if inner = done then done else failed
  | related =>
    match inner with
    | operand _ true => done
    | _ => failed
  | _ => failed

def Expects (q : Reading) : Prop :=
  q = start ∨ q = next

@[simp] theorem step_failed (t : Terminal) : step failed t = failed := by
  cases t <;> rfl

@[simp] theorem close_failed (inner : Reading) : close inner failed = failed := rfl

end Reading

open Reading

/-- Reads on in a group of which `q` has been read, inside the groups `outer`. -/
def run : Reading → List Reading → List Terminal → Reading × List Reading
  | q, outer, [] => (q, outer)
  | q, outer, .opening :: rest => run start (q :: outer) rest
  | q, p :: outer, .closing :: rest => run (close q p) outer rest
  | _, [], .closing :: rest => run failed [] rest
  | q, outer, t :: rest => run (step q t) outer rest

/-- Wherever it stands, the sequence changes what has been read by `f`. -/
def Effect (s : List Terminal) (f : Reading → Reading) : Prop :=
  ∀ q outer rest, run q outer (s ++ rest) = run (f q) outer rest

variable {s t : List Terminal} {f g : Reading → Reading} {q : Reading}

namespace Effect

theorem single {a : Terminal} (ho : a ≠ .opening) (hc : a ≠ .closing) : Effect [a] (·.step a) := by
  intro q outer rest
  cases a with
  | opening => exact absurd rfl ho
  | closing => exact absurd rfl hc
  | _ => cases outer <;> rfl

theorem cons {a : Terminal} (ho : a ≠ .opening) (hc : a ≠ .closing) (hs : Effect s f) :
    Effect (a :: s) (fun q => f (q.step a)) := by
  intro q outer rest
  have hfirst := single ho hc q outer (s ++ rest)
  rw [List.singleton_append] at hfirst
  rw [List.cons_append, hfirst, hs]

theorem append (hs : Effect s f) (ht : Effect t g) : Effect (s ++ t) (fun q => g (f q)) := by
  intro q outer rest
  rw [List.append_assoc, hs, ht]

theorem joined (hs : Effect s f) (ht : Effect t g) (op : Operator) :
    Effect (s ++ .operator op :: t) (fun q => g ((f q).step (.operator op))) := by
  have hop : Effect (.operator op :: t) (fun q => g (q.step (.operator op))) :=
    ht.cons nofun nofun
  exact hs.append hop

theorem group (hs : Effect s f) :
    Effect (.opening :: s ++ [.closing]) (fun q => (f start).close q) := by
  intro q outer rest
  have hopen : ∀ others, run q outer (.opening :: others) = run start (q :: outer) others := by
    intro others
    cases outer <;> rfl
  rw [List.cons_append, List.cons_append, hopen, List.append_assoc, hs]
  rfl

theorem unique (hf : Effect s f) (hg : Effect s g) : f = g := by
  funext q
  have h := (hf q [] []).symm.trans (hg q [] [])
  exact (Prod.mk.inj h).1

/-- What holds of a reading and is kept by every step is kept by the sequence. -/
theorem keeps (hf : Effect s f) (p : Reading → Prop) (hfailed : p failed)
    (hstep : ∀ q t, p q → p (step q t)) (hclose : ∀ inner q, p q → p (close inner q)) (hq : p q) :
    p (f q) := by
  -- Groups that begin in the sequence stand above `q`, so `p` holds of the lowest reading.
  have hrun : ∀ (rest : List Terminal) (q : Reading) (outer : List Reading),
      (∀ r, (q :: outer).getLast? = some r → p r) →
        ∀ r, ((run q outer rest).1 :: (run q outer rest).2).getLast? = some r → p r := by
    intro rest q outer h
    fun_induction run q outer rest with
    | case1 => exact h
    | case2 q outer rest ih =>
      refine ih ?_
      rwa [List.getLast?_cons_cons]
    | case3 q p' outer rest ih =>
      refine ih ?_
      cases outer with
      | nil =>
        rintro r ⟨⟩
        exact hclose _ _ (h p' rfl)
      | cons p'' outer => simpa [List.getLast?_cons_cons] using h
    | case4 q rest ih =>
      refine ih ?_
      rintro r ⟨⟩
      exact hfailed
    | case5 q outer t rest _ _ _ ih =>
      refine ih ?_
      cases outer with
      | nil =>
        rintro r ⟨⟩
        exact hstep _ _ (h q rfl)
      | cons p' outer => simpa [List.getLast?_cons_cons] using h
  have hend := hrun s q [] (by rintro r ⟨⟩; exact hq) (f q)
  have hread := hf q [] []
  rw [List.append_nil] at hread
  rw [hread] at hend
  exact hend rfl

theorem failed_eq (hf : Effect s f) : f failed = failed :=
  hf.keeps (· = failed) rfl (by rintro _ t rfl; exact step_failed t)
    (by rintro inner _ rfl; exact close_failed inner) rfl

end Effect

/-- More has been read than the beginning of the group with an operand. -/
def Behind (q : Reading) : Prop :=
  q ≠ start ∧ ∀ column, q ≠ operand column true

theorem Behind.step (hq : Behind q) (a : Terminal) : Behind (q.step a) := by
  obtain ⟨hstart, hoperand⟩ := hq
  cases q with
  | start => exact absurd rfl hstart
  | operand column whole =>
    cases a with
    | operator op => cases op <;> cases column <;> exact ⟨nofun, nofun⟩
    | _ => exact ⟨nofun, nofun⟩
  | done | next =>
    cases a with
    | operator op => cases op <;> exact ⟨nofun, nofun⟩
    | _ => exact ⟨nofun, nofun⟩
  | _ => cases a <;> exact ⟨nofun, nofun⟩

theorem Behind.close (hq : Behind q) (inner : Reading) : Behind (inner.close q) := by
  obtain ⟨hstart, -⟩ := hq
  cases q with
  | start => exact absurd rfl hstart
  | negated =>
    change Behind (if inner = done then done else failed)
    split <;> exact ⟨nofun, nofun⟩
  | next | related =>
    cases inner with
    | operand column whole => cases whole <;> exact ⟨nofun, nofun⟩
    | _ => exact ⟨nofun, nofun⟩
  | _ => exact ⟨nofun, nofun⟩

theorem Effect.behind (hf : Effect s f) (hq : Behind q) : Behind (f q) :=
  hf.keeps Behind ⟨nofun, nofun⟩ (fun _ a hq => hq.step a) (fun inner _ hq => hq.close inner) hq

theorem Operand.effect (h : Operand s) :
    ∃ f column, Effect s f ∧ f start = operand column true ∧ f next = operand column false ∧
      f related = done := by
  induction h with
  | column => exact ⟨_, true, .single nofun nofun, rfl, rfl, rfl⟩
  | parameter => exact ⟨_, false, .single nofun nofun, rfl, rfl, rfl⟩
  | group _ ih =>
    obtain ⟨f, column, hf, hstart, -, -⟩ := ih
    exact ⟨_, false, hf.group, by rw [hstart]; rfl, by rw [hstart]; rfl, by rw [hstart]; rfl⟩

/-- The effect of a condition: it ends one where one may begin, and is none behind an operator. -/
structure Concludes (f : Reading → Reading) : Prop where
  start : f start = done
  next : f next = done
  related : f related = failed

theorem step_relates {op : Operator} (hop : relates op = true) (column whole : Bool) :
    (operand column whole).step (.operator op) = Reading.related :=
  if_pos hop

theorem isComparison_of_relates {op : Operator} (hop : relates op = true) :
    op.isComparison = true := by
  cases op <;> first | rfl | cases hop

/-- Conditions are not compared. -/
theorem done_step {op : Operator} (hop : op.isComparison = true) :
    done.step (.operator op) = failed := by
  cases op <;> first | rfl | cases hop

theorem Derivable.effect (h : Derivable s) : ∃ f, Effect s f ∧ Concludes f := by
  induction h with
  | and _ _ ihs iht | or _ _ ihs iht =>
    obtain ⟨f, hf, hcf⟩ := ihs
    obtain ⟨g, hg, hcg⟩ := iht
    refine ⟨_, hf.joined hg _, ?_, ?_, ?_⟩
    · simp only [hcf.start]
      exact hcg.next
    · simp only [hcf.next]
      exact hcg.next
    · simp only [hcf.related, step_failed]
      exact hg.failed_eq
  | not _ ih =>
    obtain ⟨f, hf, hcf⟩ := ih
    refine ⟨_, hf.group.cons nofun nofun, ?_, ?_, ?_⟩ <;>
    · simp only [hcf.start]
      rfl
  | group _ ih =>
    obtain ⟨f, hf, hcf⟩ := ih
    refine ⟨_, hf.group, ?_, ?_, ?_⟩ <;>
    · simp only [hcf.start]
      rfl
  | @compare s t op hop hs ht =>
    obtain ⟨f, column, hf, hstart, hnext, hrelated⟩ := hs.effect
    obtain ⟨g, _, hg, -, -, hdone⟩ := ht.effect
    refine ⟨_, hf.joined hg _, ?_, ?_, ?_⟩
    · simp only [hstart, step_relates hop, hdone]
    · simp only [hnext, step_relates hop, hdone]
    · simp only [hrelated, done_step (isComparison_of_relates hop)]
      exact hg.failed_eq
  | like | inList | notInList | isNull | isNotNull =>
    exact ⟨_, .cons nofun nofun (.cons nofun nofun (.single nofun nofun)), rfl, rfl, rfl⟩

/-- Everything has a place behind a token with the operator `previous`: lists behind `in` and
`not in` only. -/
def WellPlaced (previous : Option Operator) : List Terminal → Prop
  | [] => True
  | .misplaced :: _ => False
  | .list :: rest =>
    (previous = some .inList ∨ previous = some .notInList) ∧ WellPlaced none rest
  | .operator op :: rest => WellPlaced (some op) rest
  | _ :: rest => WellPlaced none rest

theorem WellPlaced.append {previous : Option Operator} (hs : WellPlaced previous s)
    (ht : ∀ previous, WellPlaced previous t) : WellPlaced previous (s ++ t) := by
  induction s generalizing previous with
  | nil => exact ht previous
  | cons a s ih =>
    cases a with
    | misplaced => exact hs.elim
    | list => exact ⟨hs.1, ih hs.2⟩
    | _ => exact ih hs

theorem Operand.wellPlaced (h : Operand s) (previous : Option Operator) :
    WellPlaced previous s := by
  induction h generalizing previous with
  | column | parameter => trivial
  | group _ ih => exact (ih none).append fun _ => trivial

theorem Derivable.wellPlaced (h : Derivable s) (previous : Option Operator) :
    WellPlaced previous s := by
  induction h generalizing previous with
  | and _ _ ihs iht | or _ _ ihs iht => exact (ihs previous).append fun _ => iht _
  | not _ ih | group _ ih => exact (ih none).append fun _ => trivial
  | compare _ hs ht => exact (hs.wellPlaced previous).append fun _ => ht.wellPlaced _
  | like | isNull | isNotNull => trivial
  | inList => exact ⟨.inl rfl, trivial⟩
  | notInList => exact ⟨.inr rfl, trivial⟩

end Grammar

end DocStore
