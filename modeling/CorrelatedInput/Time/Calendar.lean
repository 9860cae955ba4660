import CorrelatedInput.Text.Numeral
/-!
Wall-clock times as RFC 3339 writes them, from the milliseconds since the start of 1970 in
universal time. A fraction is written only when there is one.
-/
namespace CorrelatedInput.Time

structure Date where
  year : Nat
  month : Nat
  day : Nat
deriving DecidableEq, Repr

/-- The date that lies `days` after the first of January 1970. Years are counted from the first of
March of the year 0, so that a leap day is the last day of its year. -/
def Date.ofDays (days : Nat) : Date :=
  let fromMarch := days + 719468
  let era := fromMarch / 146097
  let dayOfEra := fromMarch % 146097
  let yearOfEra :=
    (dayOfEra - dayOfEra / 1460 + dayOfEra / 36524 - dayOfEra / 146096) / 365
  let dayOfYear := dayOfEra - (365 * yearOfEra + yearOfEra / 4 - yearOfEra / 100)
  let monthFromMarch := (5 * dayOfYear + 2) / 153
  let day := dayOfYear - (153 * monthFromMarch + 2) / 5 + 1
  let month := if monthFromMarch < 10 then monthFromMarch + 3 else monthFromMarch - 9
  let year := yearOfEra + era * 400 + if month ≤ 2 then 1 else 0
  ⟨year, month, day⟩

/-- A number in at least `width` digits. -/
def padded (width n : Nat) : String :=
  String.ofList (List.leftpad width '0' (Text.writeNat n))

def writeYear (year : Nat) : String := if 9999 < year then "+" ++ padded 5 year else padded 4 year

def rfc3339 (milliseconds : Nat) : String :=
  let date := Date.ofDays (milliseconds / 86400000)
  let inDay := milliseconds % 86400000
  let fraction := inDay % 1000
  writeYear date.year ++ "-" ++ padded 2 date.month ++ "-" ++ padded 2 date.day ++ "T"
    ++ padded 2 (inDay / 3600000) ++ ":" ++ padded 2 (inDay / 60000 % 60) ++ ":"
    ++ padded 2 (inDay / 1000 % 60)
    ++ (if fraction = 0 then "" else "." ++ padded 3 fraction) ++ "+00:00"

end CorrelatedInput.Time
