import DocStore.Calendar.Date

/-!
# Instants

A point in time in UTC with nanoseconds. A leap second is the last second of a minute with a
billion or more nanoseconds, and is written as second 60.
-/

namespace DocStore

structure Instant where
  day : Int
  second : Fin 86400
  nanosecond : Fin 2000000000
  deriving DecidableEq

namespace Instant

def padded (width n : Nat) : List Char :=
  let digits := Nat.toDigits 10 n
  List.replicate (width - digits.length) '0' ++ digits

/-- Four digits, with a sign outside of the years 0 to 9999. -/
def yearText (year : Int) : List Char :=
  if 0 ≤ year ∧ year ≤ 9999 then padded 4 year.toNat
  else (if year < 0 then '-' else '+') :: padded 4 year.natAbs

def secondsText (t : Instant) : List Char :=
  let date := Date.ofDay t.day
  let leap := if t.nanosecond.val < 1000000000 then 0 else 1
  yearText date.year ++ '-' :: padded 2 date.month ++ '-' :: padded 2 date.day ++
    'T' :: padded 2 (t.second.val / 3600) ++ ':' :: padded 2 (t.second.val / 60 % 60) ++
    ':' :: padded 2 (t.second.val % 60 + leap)

def fraction (t : Instant) : Nat :=
  t.nanosecond.val % 1000000000

/-- The form that is stored as text: three fraction digits, the others cut off. -/
def text (t : Instant) : String :=
  String.ofList (t.secondsText ++ '.' :: padded 3 (t.fraction / 1000000) ++ ['Z'])

def fullText (t : Instant) : String :=
  String.ofList (t.secondsText ++ '.' :: padded 9 t.fraction ++ ['Z'])

/-- The instant of a local time of day on a date, `offset` minutes ahead of UTC. -/
def ofLocal (date : Date) (seconds : Nat) (nanosecond : Fin 2000000000) (offset : Int) : Instant :=
  let total := date.toDay * 86400 + seconds - offset * 60
  ⟨total / 86400, ⟨(total % 86400).toNat, by omega⟩, nanosecond⟩

end Instant

end DocStore
