import Locksmith.Compression.Zstd.Bits

namespace Locksmith
namespace Zstd
namespace Fse

/-- What a state stands for, and how the next one is found: `base` plus `bits` bits. -/
structure Entry where
  symbol : Nat
  bits : Nat
  base : Nat
deriving Inhabited

/-- A decoding table of `2 ^ log` states. -/
structure Table where
  log : Nat
  entries : Array Entry

def Table.entry (t : Table) (state : Nat) : Entry := t.entries.getD state ⟨0, 0, 0⟩

/-- Symbol frequencies; `-1` marks a symbol rarer than one state. -/
abbrev Counts := Array Int

/-- The cells of the table in the order in which frequent symbols fill them. -/
def cells (log rare : Nat) : List Nat :=
  let size := 1 <<< log
  let step := size / 2 + size / 8 + 3
  ((List.range size).map fun i => i * step % size).filter (· + rare < size)

/-- Rare symbols fill the table from its end, the others spread over the rest. -/
def spread (log : Nat) (counts : Counts) : Array Nat :=
  let size := 1 <<< log
  let named := counts.toList.zipIdx
  let rare := (named.filter (·.1 < 0)).map (·.2)
  let common := named.flatMap fun (n, s) => List.replicate n.toNat s
  let table :=
    (rare.zipIdx).foldl (fun t (s, i) => t.setIfInBounds (size - 1 - i) s)
      (Array.replicate size 0)
  ((cells log rare.length).zip common).foldl (fun t (c, s) => t.setIfInBounds c s) table

/-- The decoding table of some frequencies. -/
def Table.ofCounts (log : Nat) (counts : Counts) : Table :=
  let size := 1 <<< log
  let start := counts.map fun n => if n < 0 then 1 else n.toNat
  let entries := (spread log counts).foldl (fun (acc : Array Entry × Array Nat) s =>
    let x := acc.2.getD s 1
    let bits := log - x.log2
    (acc.1.push ⟨s, bits, x <<< bits - size⟩, acc.2.setIfInBounds s (x + 1))) (#[], start)
  ⟨log, entries.1⟩

def Table.single (symbol : Nat) : Table := ⟨0, #[⟨symbol, 0, 0⟩]⟩

/-- How many more symbols are absent, two bits at a time. -/
def readAbsent (data : Array UInt8) : (fuel pos n : Nat) → Nat × Nat
  | 0, pos, n => (pos, n)
  | fuel + 1, pos, n =>
    let flag := slice data pos 2
    if flag = 3 then readAbsent data fuel (pos + 2) (n + 3) else (pos + 2, n + flag)

/-- Reads frequencies from bit `pos` on while more than one of `remaining` is to be shared out.
-/
def readCounts (data : Array UInt8) (symbols : Nat) :
    (fuel pos remaining : Nat) → Counts → Except Error (Nat × Counts)
  | 0, _, _, _ => .error .truncated
  | fuel + 1, pos, remaining, acc =>
    if remaining ≤ 1 then .ok (pos, acc)
    else if symbols ≤ acc.size then .error .malformed
    else
      let bits := remaining.log2
      let threshold := 1 <<< bits
      let spare := 2 * threshold - 1 - remaining
      let low := slice data pos bits
      let full := slice data pos (bits + 1)
      let (value, used) :=
        if low < spare then (low, bits)
        else (if threshold ≤ full then full - spare else full, bits + 1)
      let pos := pos + used
      if 8 * data.size < pos then .error .truncated
      else if value = 0 then readCounts data symbols fuel pos (remaining - 1) (acc.push (-1))
      else if value = 1 then
        let (pos, absent) := readAbsent data (4 * data.size) pos 0
        if symbols < acc.size + 1 + absent then .error .malformed
        else readCounts data symbols fuel pos remaining (acc.push 0 ++ Array.replicate absent 0)
      else if remaining < value then .error .malformed
      else readCounts data symbols fuel pos (remaining - (value - 1)) (acc.push (value - 1))

/-- Reads the table of at most `symbols` symbols and `2 ^ maxLog` states at the start of `s`,
and what follows it. -/
def readTable (maxLog symbols : Nat) (s : Bytes) : Except Error (Table × Bytes) := do
  if s.length < 4 then throw .truncated
  let data := s.toArray
  let log := slice data 0 4 + 5
  if maxLog < log then throw .malformed
  let (pos, counts) ← readCounts data symbols (8 * data.size + 1) 4 (1 <<< log + 1) #[]
  let used := (pos + 7) / 8
  if s.length < used then throw .truncated
  return (Table.ofCounts log counts, s.drop used)

/-- The state after `e`. -/
def Entry.next? (e : Entry) (r : BitStream) : Option (Nat × BitStream) :=
  (r.read? e.bits).map fun (n, r) => (e.base + n, r)

/-- The symbols of two states that take turns until the stream is used up. -/
def interleaved (t : Table) :
    (fuel : Nat) → (now other : Nat) → BitStream → Array Nat → Except Error (Array Nat)
  | 0, _, _, _, _ => .error .malformed
  | fuel + 1, now, other, r, acc =>
    let e := t.entry now
    if r.left = 0 && 0 < e.bits then .ok ((acc.push e.symbol).push (t.entry other).symbol)
    else
      match e.next? r with
      | none => .error .truncated
      | some (state, r) => interleaved t fuel other state r (acc.push e.symbol)

end Fse
end Zstd
end Locksmith
