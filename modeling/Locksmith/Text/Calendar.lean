import Locksmith.Text.Bytes

namespace Locksmith
namespace Calendar

def isLeap (year : Nat) : Bool := year % 4 = 0 && (year % 100 ≠ 0 || year % 400 = 0)

def daysIn (year month : Nat) : Nat :=
  if month = 2 then if isLeap year then 29 else 28
  else if month = 4 || month = 6 || month = 9 || month = 11 then 30
  else 31

def isDate (year month day : Nat) : Bool :=
  1 ≤ month && month ≤ 12 && 1 ≤ day && day ≤ daysIn year month

def isTime (hour minute second : Nat) : Bool := hour ≤ 23 && minute ≤ 59 && second ≤ 59

/-- A number with at least `lo` and at most `hi` digits at the start of a text. -/
def number (lo hi : Nat) (s : Bytes) : Option (Nat × Bytes) :=
  let digits := (s.take hi).takeWhile Bytes.isDigit
  if digits.length < lo then none
  else some (digits.foldl (fun n b => n * 10 + (b.toNat - 48)) 0, s.drop digits.length)

/-- What follows a given byte at the start of a text. -/
def after (b : UInt8) : Bytes → Option Bytes
  | [] => none
  | c :: r => if c = b then some r else none

/-- Passes over a date whose month and day have at least `lo` digits. -/
def skipDate (lo : Nat) (s : Bytes) : Option Bytes := do
  let (year, s) ← number 4 4 s
  let (month, s) ← number lo 2 (← after 45 s)
  let (day, s) ← number lo 2 (← after 45 s)
  if isDate year month day then some s else none

/-- Passes over a fraction of a second, if there is one. -/
def skipFraction : Bytes → Bytes
  | b :: d :: r =>
    if (b = 46 || b = 44) && Bytes.isDigit d then r.dropWhile Bytes.isDigit else b :: d :: r
  | s => s

/-- Passes over a time of day whose numbers have at least `lo` digits. -/
def skipTime (lo : Nat) (s : Bytes) : Option Bytes := do
  let (hour, s) ← number lo 2 s
  let (minute, s) ← number lo 2 (← after 58 s)
  let (second, s) ← number lo 2 (← after 58 s)
  if isTime hour minute second then some (skipFraction s) else none

/-- Passes over a time of day without seconds. -/
def skipShortTime (s : Bytes) : Option Bytes := do
  let (hour, s) ← number 2 2 s
  let (minute, s) ← number 2 2 (← after 58 s)
  if isTime hour minute 0 then some s else none

/-- Whether a text is a distance from Greenwich: `Z`, or hours and minutes with a sign. -/
def isZone (s : Bytes) : Bool :=
  match s with
  | [90] => true
  | b :: r =>
    (b = 43 || b = 45) &&
      match number 2 2 r with
      | none => false
      | some (hour, r) =>
        match (after 58 r).bind (number 2 2) with
        | some (minute, []) => hour ≤ 24 && minute ≤ 60
        | _ => false
  | [] => false

end Calendar
end Locksmith
