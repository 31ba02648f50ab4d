import DocStore.Proofs.Sql.FromClause
import DocStore.Sql.Compiled

/-!
# The from clause of a query

The text of `CompiledQuery.source` without includes is read as the from clause that it stands for:
the table of bodies, or a derived table with a left join for every member.
-/

namespace DocStore

open Lexeme (read? read?_fixed read?_name read?_literal read?_column read?_word)

namespace CompiledQuery

variable {rest : List Char} {structureName : String} {members : List (MemberColumn × Nat)}

def memberSource (i : Nat) : String :=
  "mem" ++ i.repr

def memberColumn (m : MemberColumn × Nat) : SourceColumn × String :=
  (⟨memberSource m.2, m.1.valueColumn⟩, m.1.aliasName)

def leftJoin (structureName : String) (m : MemberColumn × Nat) : LeftJoin where
  table := TableName.index structureName m.1.table
  source := memberSource m.2
  left := ⟨memberSource m.2, Column.structureId⟩
  right := ⟨"s", Column.structureId⟩
  column := ⟨memberSource m.2, Column.memberPath⟩
  text := m.1.path

def fromClause (compiled : CompiledQuery) (structureName : String) : FromClause :=
  if compiled.members.isEmpty then .table (TableName.body structureName) "rs"
  else
    .derived
      ((⟨"s", Column.structureId⟩, Column.structureId) :: (⟨"s", Column.json⟩, Column.json) ::
        compiled.members.zipIdx.map memberColumn)
      (TableName.body structureName) "s" (compiled.members.zipIdx.map (leftJoin structureName)) "rs"

theorem memberSource_ne_empty (i : Nat) : memberSource i ≠ "" := by
  intro h
  have hl := congrArg String.toList h
  simp [memberSource] at hl

theorem isNameChar_memberSource (i : Nat) :
    ∀ c ∈ (memberSource i).toList, Schema.isNameChar c = true :=
  Lexeme.isNameChar_numbered (by decide) i

theorem isNameChar_s : ∀ c ∈ "s".toList, Schema.isNameChar c = true :=
  List.all_eq_true.1 (by decide)

def columnLexemes (m : MemberColumn × Nat) : List Lexeme :=
  [.sign ',', .column (memberSource m.2) m.1.valueColumn, .word "as", .name m.1.aliasName]

theorem read?_memberSql (m : MemberColumn × Nat) (hrest : rest.head? ≠ some ']') :
    read? .between ((memberSql m.1 m.2).chars ++ rest) =
      (read? .between rest).map (columnLexemes m ++ ·) := by
  have hchars : (memberSql m.1 m.2).chars ++ rest = ", ".toList ++ ((memberSource m.2).toList ++
      '.' :: ((Piece.name m.1.valueColumn).chars ++ (" as ".toList ++
        ((Piece.name m.1.aliasName).chars ++ rest)))) := by
    simp [memberSql, memberSource, Piece.chars]
  have hcomma : Lexeme.scan .between ", ".toList = ([.sign ','], .between) := rfl
  have has : Lexeme.scan .between " as ".toList = ([.word "as"], .between) := rfl
  rw [hchars, read?_fixed hcomma, read?_column (memberSource_ne_empty m.2)
    (isNameChar_memberSource m.2) _ (by simp), read?_fixed has, read?_name _ hrest]
  cases read? .between rest <;> rfl

def joinLexemes (structureName : String) (m : MemberColumn × Nat) : List Lexeme :=
  [.word "left", .word "join", .name (TableName.index structureName m.1.table),
    .word (memberSource m.2), .word "on", .column (memberSource m.2) Column.structureId, .sign '=',
    .column "s" Column.structureId, .word "and", .column (memberSource m.2) Column.memberPath,
    .sign '=', .literal m.1.path]

theorem read?_memberJoin (structureName : String) (m : MemberColumn × Nat)
    (hrest : rest.head? ≠ some '\'') :
    read? .between ((memberJoin structureName m.1 m.2).chars ++ rest) =
      (read? .between rest).map (joinLexemes structureName m ++ ·) := by
  have hne := memberSource_ne_empty m.2
  have hname := isNameChar_memberSource m.2
  have hchars : (memberJoin structureName m.1 m.2).chars ++ rest = " left join ".toList ++
      ((Piece.name (TableName.index structureName m.1.table)).chars ++ (" ".toList ++
        ((memberSource m.2).toList ++ (" on ".toList ++ ((memberSource m.2).toList ++
          '.' :: ((Piece.name Column.structureId).chars ++ (" = ".toList ++ ("s".toList ++
            '.' :: ((Piece.name Column.structureId).chars ++ (" and ".toList ++
              ((memberSource m.2).toList ++ '.' :: ((Piece.name Column.memberPath).chars ++
                (" = ".toList ++ ((Piece.literal m.1.path).chars ++ rest)))))))))))))) := by
    simp [memberJoin, memberSource, Piece.chars]
  have hjoin : Lexeme.scan .between " left join ".toList =
      ([.word "left", .word "join"], .between) := rfl
  have hblank : Lexeme.scan .between " ".toList = ([], .between) := rfl
  have hon : Lexeme.scan .between " on ".toList = ([.word "on"], .between) := rfl
  have hequal : Lexeme.scan .between " = ".toList = ([.sign '='], .between) := rfl
  have hand : Lexeme.scan .between " and ".toList = ([.word "and"], .between) := rfl
  have hafter : ∀ text c, (" on ".toList ++ text).head? = some c →
      Schema.isNameChar c = false ∧ c ≠ '.' := by
    intro text c hc
    obtain rfl := Option.some.inj hc
    decide
  rw [hchars, read?_fixed hjoin, read?_name _ (by simp), read?_fixed hblank,
    read?_word hne hname (hafter _), read?_fixed hon, read?_column hne hname _ (by simp),
    read?_fixed hequal, read?_column (by decide) isNameChar_s _ (by simp), read?_fixed hand,
    read?_column hne hname _ (by simp), read?_fixed hequal, read?_literal _ hrest]
  cases read? .between rest <;> rfl

theorem read?_members (hrest : rest.head? ≠ some ']') :
    read? .between (Sql.chars (members.flatMap fun m => memberSql m.1 m.2) ++ rest) =
      (read? .between rest).map (members.flatMap columnLexemes ++ ·) := by
  induction members with
  | nil => cases h : read? .between rest <;> simp [h]
  | cons m members ih =>
    have hhead : (Sql.chars (members.flatMap fun m => memberSql m.1 m.2) ++ rest).head? ≠
        some ']' := by
      cases members with
      | nil => exact hrest
      | cons m members => simp [memberSql, Piece.chars]
    rw [List.flatMap_cons, Sql.chars_append, List.append_assoc, read?_memberSql m hhead, ih,
      Option.map_map]
    cases read? .between rest <;> simp

theorem read?_joins (hrest : rest.head? ≠ some '\'') :
    read? .between (Sql.chars (members.flatMap fun m => memberJoin structureName m.1 m.2) ++ rest) =
      (read? .between rest).map (members.flatMap (joinLexemes structureName) ++ ·) := by
  induction members with
  | nil => cases h : read? .between rest <;> simp [h]
  | cons m members ih =>
    have hhead : (Sql.chars (members.flatMap fun m => memberJoin structureName m.1 m.2) ++
        rest).head? ≠ some '\'' := by
      cases members with
      | nil => exact hrest
      | cons m members => simp [memberJoin, Piece.chars]
    rw [List.flatMap_cons, Sql.chars_append, List.append_assoc, read?_memberJoin _ m hhead, ih,
      Option.map_map]
    cases read? .between rest <;> simp

theorem columns?_members (c : SourceColumn × String) (members : List (MemberColumn × Nat))
    (behind : List Lexeme) :
    FromClause.columns? (.column c.1.source c.1.name :: .word "as" :: .name c.2 ::
      (members.flatMap columnLexemes ++ .word "from" :: behind)) =
        some (c :: members.map memberColumn, behind) := by
  induction members generalizing c with
  | nil => rfl
  | cons m members ih =>
    have hrest := ih (memberColumn m)
    rw [List.flatMap_cons, columnLexemes]
    simp only [List.cons_append, List.nil_append]
    rw [FromClause.columns?, if_pos ⟨rfl, rfl⟩]
    simp only [memberColumn] at hrest ⊢
    rw [hrest]
    rfl

theorem joins?_members (structureName : String) (members : List (MemberColumn × Nat))
    (behind : List Lexeme) :
    FromClause.joins? (members.flatMap (joinLexemes structureName) ++ .sign ')' :: behind) =
      some (members.map (leftJoin structureName), .sign ')' :: behind) := by
  induction members with
  | nil => rfl
  | cons m members ih =>
    rw [List.flatMap_cons, joinLexemes]
    simp only [List.cons_append, List.nil_append]
    rw [FromClause.joins?, if_pos ⟨rfl, rfl⟩, ih]
    rfl

/-- The columns of the derived table; the first two keep their names. -/
theorem columns?_all (m : MemberColumn × Nat) (members : List (MemberColumn × Nat))
    (behind : List Lexeme) :
    FromClause.columns? (.column "s" Column.structureId :: .sign ',' :: .column "s" Column.json ::
      ((m :: members).flatMap columnLexemes ++ .word "from" :: behind)) =
        some ((⟨"s", Column.structureId⟩, Column.structureId) ::
          (⟨"s", Column.json⟩, Column.json) :: (m :: members).map memberColumn, behind) := by
  have hrest := columns?_members (memberColumn m) members behind
  rw [List.flatMap_cons, columnLexemes]
  simp only [List.cons_append, List.nil_append]
  rw [FromClause.columns?, if_pos rfl, FromClause.columns?, if_pos rfl]
  simp only [memberColumn] at hrest ⊢
  rw [hrest]
  rfl

theorem ofText?_bodies {compiled : CompiledQuery} (h : compiled.members = [])
    (structureName : String) :
    FromClause.ofText? (compiled.source structureName false).render =
      some (.table (TableName.body structureName) "rs") := by
  have hchars : (compiled.source structureName false).render.toList = "from ".toList ++
      ((Piece.name (TableName.body structureName)).chars ++ " rs".toList) := by
    rw [Sql.toList_render, source, h]
    simp [Piece.chars]
  have hfrom : Lexeme.scan .between "from ".toList = ([.word "from"], .between) := rfl
  have hend : read? .between " rs".toList = some [.word "rs"] := rfl
  rw [FromClause.ofText?, Lexeme.ofText?, hchars, read?_fixed hfrom, read?_name _ (by decide), hend]
  rfl

theorem ofText?_derived {compiled : CompiledQuery} {m : MemberColumn × Nat}
    (h : compiled.members.zipIdx = m :: members) (structureName : String) :
    FromClause.ofText? (compiled.source structureName false).render =
      some (.derived ((⟨"s", Column.structureId⟩, Column.structureId) ::
        (⟨"s", Column.json⟩, Column.json) :: (m :: members).map memberColumn)
        (TableName.body structureName) "s" ((m :: members).map (leftJoin structureName)) "rs") := by
  have hempty : compiled.members.isEmpty = false := by
    rw [List.isEmpty_eq_false_iff]
    intro hnil
    rw [hnil] at h
    cases h
  have hchars : (compiled.source structureName false).render.toList = "from (select ".toList ++
      ("s".toList ++ '.' :: ((Piece.name Column.structureId).chars ++ (", ".toList ++
        ("s".toList ++ '.' :: ((Piece.name Column.json).chars ++
          (Sql.chars ((m :: members).flatMap fun m => memberSql m.1 m.2) ++ (" from ".toList ++
            ((Piece.name (TableName.body structureName)).chars ++ (" ".toList ++ ("s".toList ++
              (Sql.chars ((m :: members).flatMap fun m => memberJoin structureName m.1 m.2) ++
                ") rs".toList))))))))))) := by
    rw [Sql.toList_render, source, hempty, h]
    simp [Piece.chars]
  have hselect : Lexeme.scan .between "from (select ".toList =
      ([.word "from", .sign '(', .word "select"], .between) := rfl
  have hcomma : Lexeme.scan .between ", ".toList = ([.sign ','], .between) := rfl
  have hfrom : Lexeme.scan .between " from ".toList = ([.word "from"], .between) := rfl
  have hblank : Lexeme.scan .between " ".toList = ([], .between) := rfl
  have hend : read? .between ") rs".toList = some [.sign ')', .word "rs"] := rfl
  have hbehind : ∀ c, (Sql.chars ((m :: members).flatMap fun m =>
      memberJoin structureName m.1 m.2) ++ ") rs".toList).head? = some c →
        Schema.isNameChar c = false ∧ c ≠ '.' := by
    intro c hc
    rw [List.flatMap_cons] at hc
    obtain rfl := Option.some.inj hc
    decide
  rw [FromClause.ofText?, Lexeme.ofText?, hchars, read?_fixed hselect,
    read?_column (by decide) isNameChar_s _ (by simp), read?_fixed hcomma,
    read?_column (by decide) isNameChar_s _ (by simp [memberSql, Piece.chars]),
    read?_members (by simp), read?_fixed hfrom, read?_name _ (by simp), read?_fixed hblank,
    read?_word (by decide) isNameChar_s hbehind, read?_joins (by decide), hend]
  simp only [Option.map_some, Option.bind_some, List.cons_append, List.nil_append]
  rw [FromClause.ofLexemes?, if_pos ⟨rfl, rfl, rfl⟩, columns?_all]
  dsimp only
  rw [joins?_members]
  rfl

/-- The rendered from clause is read as the clause that it stands for. -/
theorem ofText?_source (compiled : CompiledQuery) (structureName : String) :
    FromClause.ofText? (compiled.source structureName false).render =
      some (compiled.fromClause structureName) := by
  cases hm : compiled.members with
  | nil =>
    rw [fromClause, hm]
    exact ofText?_bodies hm structureName
  | cons m members =>
    rw [fromClause, hm]
    exact ofText?_derived (by rw [hm, List.zipIdx_cons]) structureName

end CompiledQuery

end DocStore
