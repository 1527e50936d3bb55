import Locksmith.Text.Decimal

namespace Locksmith

structure Duration where
  nanos : Int64
deriving DecidableEq, Repr

namespace Duration

/-- The nanoseconds of a unit. -/
def unit? (u : Bytes) : Option Nat :=
  if u == "ns" then some 1
  else if u == "us" || u == "µs" || u == "μs" then some 1000
  else if u == "ms" then some 1000000
  else if u == "s" then some 1000000000
  else if u == "m" then some 60000000000
  else if u == "h" then some 3600000000000
  else none

/-- Whether a byte can belong to a number. -/
def isNumeral (b : UInt8) : Bool := b == 46 || Bytes.isDigit b

/-- The value of some digits, up to the limit of nanoseconds. -/
def whole (digits : Bytes) : Option Nat :=
  digits.foldl
    (fun acc b => acc.bind fun n =>
      let n := n * 10 + (b.toNat - 48)
      if n ≤ Decimal.signedLimit then some n else none)
    (some 0)

/-- The digits after a point as a numerator and a power of ten; digits past 63 bits are dropped.
-/
def fraction (digits : Bytes) : Nat × Nat :=
  let (n, scale, _) := digits.foldl
    (fun (n, scale, full) b =>
      if full || n > (Decimal.signedLimit - 1) / 10 then (n, scale, true)
      else
        let m := n * 10 + (b.toNat - 48)
        if m > Decimal.signedLimit then (n, scale, true) else (m, scale * 10, false))
    ((0, 1, false) : Nat × Nat × Bool)
  (n, scale)

/-- The nanoseconds of a fraction of a unit, in double precision and rounded down. -/
def fractionNanos (n scale unit : Nat) : Nat :=
  (n.toFloat * (unit.toFloat / scale.toFloat)).toUInt64.toNat

/-- Reads one number with its unit: the nanoseconds and the rest of the text. -/
def readPart (s : Bytes) : Option (Nat × Bytes) := do
  let digits := s.takeWhile Bytes.isDigit
  let s := s.dropWhile Bytes.isDigit
  let v ← whole digits
  let (decimals, s) := match s with
    | 46 :: r => (r.takeWhile Bytes.isDigit, r.dropWhile Bytes.isDigit)
    | _ => ([], s)
  if digits.isEmpty && decimals.isEmpty then none
  else
    let name := s.takeWhile fun b => !isNumeral b
    let unit ← unit? name
    if v > Decimal.signedLimit / unit then none
    else
      let (n, scale) := fraction decimals
      let total := v * unit + if n > 0 then fractionNanos n scale unit else 0
      if total > Decimal.signedLimit then none
      else some (total, s.dropWhile fun b => !isNumeral b)

/-- Adds up numbers with units until the text ends. -/
def readParts (fuel : Nat) (acc : Nat) (s : Bytes) : Option Nat :=
  match fuel with
  | 0 => none
  | fuel + 1 =>
    if s.isEmpty then some acc
    else do
      let (n, rest) ← readPart s
      if acc + n > Decimal.signedLimit then none else readParts fuel (acc + n) rest

def parse? (s : Bytes) : Option Duration :=
  let (negative, r) := match s with
    | 45 :: r => (true, r)
    | 43 :: r => (false, r)
    | _ => (false, s)
  if r == "0" then some ⟨0⟩
  else if r.isEmpty then none
  else do
    let n ← readParts (r.length + 1) 0 r
    if negative then some ⟨Int64.ofInt (-n)⟩
    else if n < Decimal.signedLimit then some ⟨Int64.ofNat n⟩
    else none

/-- Digits after the point for `n / 10^places`, without trailing zeros. -/
def decimals (places n : Nat) : Bytes :=
  let part := n % Nat.pow 10 places
  let kept := ((Decimal.padded places part).reverse.dropWhile (· == 48)).reverse
  if part == 0 then [] else 46 :: kept

/-- The text of a length of time: hours, minutes and seconds, or one smaller unit below a
second. -/
def render (d : Duration) : Bytes :=
  let n := d.nanos.toInt.natAbs
  let sign : Bytes := if d.nanos < 0 then "-" else []
  if n == 0 then "0s"
  else if n < 1000 then sign ++ Decimal.ofNat n ++ "ns"
  else if n < 1000000 then sign ++ Decimal.ofNat (n / 1000) ++ decimals 3 n ++ "µs"
  else if n < 1000000000 then sign ++ Decimal.ofNat (n / 1000000) ++ decimals 6 n ++ "ms"
  else
    let seconds := n / 1000000000
    let tail := Decimal.ofNat (seconds % 60) ++ decimals 9 n ++ "s"
    let minutes := seconds / 60
    if minutes == 0 then sign ++ tail
    else
      let hours := minutes / 60
      if hours == 0 then sign ++ Decimal.ofNat minutes ++ "m" ++ tail
      else sign ++ Decimal.ofNat hours ++ "h" ++ Decimal.ofNat (minutes % 60) ++ "m" ++ tail

end Duration
end Locksmith
