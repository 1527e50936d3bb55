import Locksmith.Text.Bytes

namespace Locksmith
namespace Matches

/-- Some new bytes, then `length` bytes that also stand `offset` bytes back. -/
structure Run where
  literals : Bytes
  offset : Nat
  length : Nat

/-- Appends `n` bytes, each a copy of the one `offset` bytes back. -/
def copyBack (offset : Nat) : Nat → Array UInt8 → Array UInt8
  | 0, out => out
  | n + 1, out => copyBack offset n (out.push (out.getD (out.size - offset) 0))

/-- The farthest copy that is looked for. -/
def reach : Nat := 65535

/-- The last bytes of the data, which no copy covers. -/
def guarded : Nat := 5

/-- A copy starts no nearer to the end than this. -/
def lastStart : Nat := 12

def slots : Nat := 4096

/-- The slot of the four bytes at `p`. -/
def slot (data : Array UInt8) (p : Nat) : Nat :=
  let w := (data.getD p 0).toUInt32 ||| (data.getD (p + 1) 0).toUInt32 <<< 8 |||
    (data.getD (p + 2) 0).toUInt32 <<< 16 ||| (data.getD (p + 3) 0).toUInt32 <<< 24
  ((w * 2654435761) >>> 20).toNat

/-- How many bytes from `p` on, at most `fuel` more than the `n` counted, equal those from `c`
on. -/
def common (data : Array UInt8) (c p : Nat) : Nat → Nat → Nat
  | 0, n => n
  | fuel + 1, n =>
    if data.getD (c + n) 0 == data.getD (p + n) 0 then common data c p fuel (n + 1) else n

/-- Looks for copies of at least `least` bytes from `p` on; the bytes from `start` to `p` are
new. Gives the runs and where the bytes after the last one start. -/
def search (least : Nat) (data : Array UInt8) (p start : Nat) (seen : Array Nat)
    (runs : Array Run) : Array Run × Nat :=
  if p + lastStart < data.size then
    let k := slot data p
    let c := seen.getD k data.size
    let seen := seen.setIfInBounds k p
    let n := if c < p && p - c ≤ reach then common data c p (data.size - guarded - p) 0 else 0
    if least ≤ n && 0 < n then
      search least data (p + (n - 1) + 1) (p + (n - 1) + 1) seen
        (runs.push ⟨(data.extract start p).toList, p - c, n⟩)
    else search least data (p + 1) start seen runs
  else (runs, start)
termination_by data.size - p
decreasing_by all_goals simp only [lastStart] at *; omega

/-- The data as runs, and the bytes after the last of them. -/
def ofBytes (least : Nat) (s : Bytes) : List Run × Bytes :=
  let data := s.toArray
  let (runs, start) := search least data 0 0 (Array.replicate slots data.size) #[]
  (runs.toList, (data.extract start data.size).toList)

end Matches
end Locksmith
