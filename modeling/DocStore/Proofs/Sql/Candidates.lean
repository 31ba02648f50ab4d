import DocStore.Proofs.Checksum
import DocStore.Proofs.Schema.Columns
import DocStore.Proofs.Sql.References
import DocStore.Proofs.Sql.Rendering
import Mathlib.Data.List.Perm.Subperm
import Mathlib.Data.Nat.Find
import Mathlib.Data.String.Basic

/-!
# Candidates for aliases

The candidates for a member's alias with numbers of four digits are distinct, also where they are
cut and end in a checksum. The search for a free one therefore ends, unless thousands are taken.
-/

namespace DocStore

def FourDigits (n : Nat) : Prop :=
  1000 ≤ n ∧ n < 10000

theorem FourDigits.length_repr {n : Nat} (h : FourDigits n) : n.repr.toList.length = 4 := by
  obtain ⟨hlow, hhigh⟩ := h
  rw [Nat.toList_repr]
  have hle : (Nat.toDigits 10 n).length ≤ 4 :=
    (Nat.length_toDigits_le_iff (by decide) (by decide)).2 hhigh
  have hgt : ¬(Nat.toDigits 10 n).length ≤ 3 := by
    rw [Nat.length_toDigits_le_iff (by decide) (by decide)]
    omega
  omega

theorem utf8Len_of_isDigit {text : List Char} (h : ∀ c ∈ text, c.isDigit = true) :
    String.utf8Len text = text.length := by
  induction text with
  | nil => rfl
  | cons c text ih =>
    rw [List.forall_mem_cons] at h
    have hsize : c.utf8Size = 1 := by
      have hdigit := h.1
      unfold Char.isDigit at hdigit
      rw [Bool.and_eq_true, decide_eq_true_eq, decide_eq_true_eq, UInt32.le_iff_toNat_le] at hdigit
      rw [Char.utf8Size_eq_one_iff, UInt32.le_iff_toNat_le]
      exact hdigit.2.trans (by decide)
    rw [String.utf8Len_cons, ih h.2, hsize, List.length_cons]

theorem FourDigits.utf8ByteSize_repr {n : Nat} (h : FourDigits n) : n.repr.utf8ByteSize = 4 := by
  rw [← String.utf8Len_toList, utf8Len_of_isDigit fun c hc => isDigit_of_mem_repr hc,
    h.length_repr]

namespace ColumnName

theorem flat_append (s t : String) : flat (s ++ t) = flat s ++ flat t := by
  rw [flat, String.toList_append, List.map_append]
  rfl

theorem flat_repr (n : Nat) : flat n.repr = n.repr.toList := by
  apply flat_eq_self
  rintro c hc rfl
  exact absurd (isDigit_of_mem_repr hc) (by decide)

end ColumnName

namespace Compiler

variable {naming : ColumnNaming} {path : String} {taken : List String} {maxLength : Nat}

/-- Candidates with different numbers of four digits are different: their texts are, if they fit the
limit, and otherwise their checksums. -/
theorem candidate_inj {j k : Nat} (hj : FourDigits j) (hk : FourDigits k)
    (h : candidate (ColumnName.ofPath maxLength) path j =
      candidate (ColumnName.ofPath maxLength) path k) : j = k := by
  have hnumbered : ∀ {n}, FourDigits n → candidate (ColumnName.ofPath maxLength) path n =
      ColumnName.ofPath maxLength (path ++ "_" ++ n.repr) := by
    rintro n ⟨hn, -⟩
    rw [candidate, if_neg (by omega)]
  have hlength : ∀ {n}, FourDigits n → (ColumnName.flat (path ++ "_" ++ n.repr)).length =
      (ColumnName.flat (path ++ "_")).length + 4 := by
    intro n hn
    rw [ColumnName.flat_append, List.length_append, ColumnName.flat_repr, hn.length_repr]
  have hcollides : ∀ {m n}, FourDigits m → FourDigits n → ColumnName.Collides maxLength
      (path ++ "_" ++ m.repr) (path ++ "_" ++ n.repr) →
        path ++ "_" ++ m.repr = path ++ "_" ++ n.repr := by
    intro m n hm hn hcollides
    have hml := hlength hm
    have hnl := hlength hn
    cases hcollides with
    | flat _ _ hflat =>
      rw [ColumnName.flat_append, ColumnName.flat_append (path ++ "_")] at hflat
      have hdigits := List.append_cancel_left hflat
      rw [ColumnName.flat_repr, ColumnName.flat_repr] at hdigits
      exact congrArg (path ++ "_" ++ ·) (String.toList_inj.1 hdigits)
    | cut _ _ _ hsum =>
      have hms := hm.utf8ByteSize_repr
      have hns := hn.utf8ByteSize_repr
      exact congrArg (path ++ "_" ++ ·)
        (Checksum.ofText_append_inj (by omega) (by omega) hsum)
    | spelt hp hq _ => omega
  rw [hnumbered hj, hnumbered hk, ColumnName.ofPath_eq_iff] at h
  rcases h with h | h
  · exact numbered_inj (hcollides hj hk h)
  · exact numbered_inj (hcollides hk hj h).symm

structure FirstFree (naming : ColumnNaming) (path : String) (taken : List String)
    (number : Nat) : Prop where
  before : ∀ k < number, candidate naming path k ∈ taken
  free : candidate naming path number ∉ taken

/-- The search finds the first free candidate, unless it gives up before. -/
theorem FirstFree.freeAlias?_eq {number fuel attempt : Nat}
    (h : FirstFree naming path taken number) (hle : attempt ≤ number)
    (hlt : number < attempt + fuel) :
    freeAlias? naming path taken fuel attempt = some (candidate naming path number) := by
  induction fuel generalizing attempt with
  | zero => omega
  | succ fuel ih =>
    unfold freeAlias?
    dsimp only
    rcases Nat.lt_or_eq_of_le hle with hbefore | rfl
    · rw [if_pos (h.before attempt hbefore)]
      exact ih hbefore (by omega)
    · rw [if_neg h.free]

/-- One of the candidates with numbers of four digits is free, unless thousands of names are
taken. -/
theorem exists_firstFree (h : taken.length < 9000) :
    ∃ number ≤ 9999, FirstFree (ColumnName.ofPath maxLength) path taken number := by
  have hdigits : ∀ k ∈ List.range' 1000 9000, FourDigits k := by
    intro k hk
    rw [List.mem_range'_1] at hk
    exact ⟨hk.1, by omega⟩
  have hnodup : ((List.range' 1000 9000).map
      (candidate (ColumnName.ofPath maxLength) path)).Nodup :=
    List.Nodup.map_on (fun j hj k hk => candidate_inj (hdigits j hj) (hdigits k hk))
      List.nodup_range'
  have hfree : ∃ k ∈ List.range' 1000 9000,
      candidate (ColumnName.ofPath maxLength) path k ∉ taken := by
    by_contra! hall
    have hlength := (hnodup.subperm (List.forall_mem_map.2 hall)).length_le
    rw [List.length_map, List.length_range'] at hlength
    omega
  obtain ⟨k, hk, hk'⟩ := hfree
  have hexists : ∃ k, candidate (ColumnName.ofPath maxLength) path k ∉ taken := ⟨k, hk'⟩
  have hle : Nat.find hexists ≤ k := Nat.find_min' hexists hk'
  have hlt : k < 10000 := (hdigits k hk).2
  exact ⟨Nat.find hexists, by omega, fun j hj => not_not.1 (Nat.find_min hexists hj),
    Nat.find_spec hexists⟩

/-- The search for an alias of the member beside these columns ends at the candidate with this
number. -/
structure EndsAt (naming : ColumnNaming) (members : List MemberColumn) (path : String)
    (number : Nat) : Prop where
  first : FirstFree naming path (reserved ++ members.map MemberColumn.aliasName) number
  found : freeAlias? naming path (reserved ++ members.map MemberColumn.aliasName) attempts 0 =
    some (candidate naming path number)

theorem EndsAt.newAlias_eq {members : List MemberColumn} {number : Nat}
    (h : EndsAt naming members path number) :
    newAlias naming members path = candidate naming path number := by
  rw [newAlias, h.found, Option.getD_some]

/-- The search for an alias ends beside fewer than 8000 columns. -/
theorem exists_endsAt {members : List MemberColumn} (path : String) (h : members.length < 8000) :
    ∃ number ≤ 9999, EndsAt (ColumnName.ofPath maxLength) members path number := by
  have hreserved : reserved.length = 3 := rfl
  have htaken : (reserved ++ members.map MemberColumn.aliasName).length < 9000 := by
    rw [List.length_append, List.length_map]
    omega
  obtain ⟨number, hle, hfirst⟩ := exists_firstFree htaken
  have hattempts : 9999 < attempts := by decide
  exact ⟨number, hle, hfirst, hfirst.freeAlias?_eq (Nat.zero_le _) (by omega)⟩

/-- All searches of a query with fewer than 8000 members end. -/
theorem findsAliases_of_length {members : List MemberColumn} (h : members.length < 8000) :
    FindsAliases (ColumnName.ofPath maxLength) members := by
  intro m hm
  have htake : (members.take m.2).length < 8000 := (List.length_take_le' _ _).trans_lt h
  obtain ⟨number, -, hends⟩ := exists_endsAt m.1.path htake
  rw [hends.found]
  rfl

end Compiler

end DocStore
