import Appwright.Decimal.Binary
import Appwright.Text.Basic

/-!
# Moments as text

A moment is a number of seconds since the first of January 1970. Its text gives the date and the
time of day in UTC, and a fraction of six digits unless it is zero.
-/

namespace Appwright.Text

structure Day where
  year : Int
  month : Nat
  day : Nat
deriving DecidableEq, Repr

def isLeapYear (year : Nat) : Bool :=
  year % 4 == 0 && (year % 100 != 0 || year % 400 == 0)

def daysIn (year month : Nat) : Nat :=
  if month == 2 then if isLeapYear year then 29 else 28
  else if [4, 6, 9, 11].contains month then 30
  else 31

/-- The day that is so many days after the first of January 1970. Years are counted from March, in
cycles of 400 years. -/
def Day.ofNumber (n : Int) : Day :=
  let z := n + 719468
  let era := z.fdiv 146097
  let dayOfEra := (z - era * 146097).toNat
  let yearOfEra :=
    (dayOfEra - dayOfEra / 1460 + dayOfEra / 36524 - dayOfEra / 146096) / 365
  let dayOfYear := dayOfEra - (365 * yearOfEra + yearOfEra / 4 - yearOfEra / 100)
  let shifted := (5 * dayOfYear + 2) / 153
  let day := dayOfYear - (153 * shifted + 2) / 5 + 1
  let month := if shifted < 10 then shifted + 3 else shifted - 9
  let year : Int := yearOfEra + era * 400 + (if month ≤ 2 then 1 else 0)
  ⟨year, month, day⟩

/-- The whole number of microseconds nearest to a number of seconds; a half goes to the even one. -/
def microseconds (seconds : Float) : Int :=
  let (n, d) := Decimal.fraction seconds
  let m := Decimal.roundDiv (n.natAbs * 1000000) d
  if n < 0 then -(m : Int) else m

def moment (seconds : Float) : String :=
  let total := microseconds seconds
  let whole := total.fdiv 1000000
  let micros := (total.fmod 1000000).toNat
  let date := Day.ofNumber (whole.fdiv 86400)
  let clock := (whole.fmod 86400).toNat
  let fraction := if micros == 0 then "" else "." ++ padded 6 micros
  padded 4 date.year.toNat ++ "-" ++ padded 2 date.month ++ "-" ++ padded 2 date.day ++ "T" ++
    padded 2 (clock / 3600) ++ ":" ++ padded 2 (clock / 60 % 60) ++ ":" ++
    padded 2 (clock % 60) ++ fraction ++ "+00:00"

end Appwright.Text
