import Locksmith.Compression.Matches
import Locksmith.Compression.Zstd.Fse

namespace Locksmith
namespace Zstd

/-- A number given by a code: a base and some extra bits. -/
structure Range where
  base : Nat
  bits : Nat

/-- The extra bits of consecutive codes, each base following from the one before. -/
def Range.ofBits (first : Nat) (bits : List Nat) : Array Range :=
  (bits.foldl (fun (acc : Array Range × Nat) b => (acc.1.push ⟨acc.2, b⟩, acc.2 + 1 <<< b))
    (#[], first)).1

def literalCodes : Array Range :=
  Range.ofBits 0
    (List.replicate 16 0 ++ [1, 1, 1, 1, 2, 2, 3, 3, 4, 6, 7, 8, 9, 10, 11, 12, 13, 14, 15, 16])

def matchCodes : Array Range :=
  Range.ofBits 3
    (List.replicate 32 0 ++
      [1, 1, 1, 1, 2, 2, 3, 3, 4, 4, 5, 7, 8, 9, 10, 11, 12, 13, 14, 15, 16])

/-- The offsets, of which the first three stand for recent ones. -/
def offsetCodes : Array Range := ((List.range 32).map fun i => ⟨1 <<< i, i⟩).toArray

/-- One kind of code: its numbers, its largest table and the table used unless another is given.
-/
structure CodeKind where
  ranges : Array Range
  maxLog : Nat
  standard : Fse.Table

def CodeKind.literals : CodeKind where
  ranges := literalCodes
  maxLog := 9
  standard := .ofCounts 6
    #[4, 3, 2, 2, 2, 2, 2, 2, 2, 2, 2, 2, 2, 1, 1, 1, 2, 2, 2, 2, 2, 2, 2, 2, 2, 3, 2, 1,
    1, 1, 1, 1, -1, -1, -1, -1]

def CodeKind.offsets : CodeKind where
  ranges := offsetCodes
  maxLog := 8
  standard := .ofCounts 5
    #[1, 1, 1, 1, 1, 1, 2, 2, 2, 1, 1, 1, 1, 1, 1, 1, 1, 1, 1, 1, 1, 1, 1, 1, -1, -1, -1,
    -1, -1]

def CodeKind.lengths : CodeKind where
  ranges := matchCodes
  maxLog := 9
  standard := .ofCounts 6
    #[1, 4, 3, 2, 2, 2, 2, 2, 2, 1, 1, 1, 1, 1, 1, 1, 1, 1, 1, 1, 1, 1, 1, 1, 1, 1, 1, 1,
    1, 1, 1, 1, 1, 1, 1, 1, 1, 1, 1, 1, 1, 1, 1, 1, 1, 1, -1, -1, -1, -1, -1, -1, -1]

/-- Reads the table that `mode` announces: the standard one, a single code, one written out, or
the last one. -/
def CodeKind.readTable (k : CodeKind) (mode : Nat) (last : Option Fse.Table) (s : Bytes) :
    Except Error (Fse.Table × Bytes) :=
  match mode, s with
  | 0, s => .ok (k.standard, s)
  | 1, b :: r => if b.toNat < k.ranges.size then .ok (.single b.toNat, r) else .error .malformed
  | 1, [] => .error .truncated
  | 2, s => Fse.readTable k.maxLog k.ranges.size s
  | _, s =>
    match last with
    | some t => .ok (t, s)
    | none => .error .malformed

structure Tables where
  literals : Fse.Table
  offsets : Fse.Table
  lengths : Fse.Table

/-- Offsets used lately, the last one first. -/
structure Recent where
  a : Nat
  b : Nat
  c : Nat

/-- The recent offsets at the start of a frame. -/
def Recent.initial : Recent := ⟨1, 4, 8⟩

/-- The offset that `value` stands for after `literals` literals, and the recent offsets then.
-/
def Recent.resolve (r : Recent) (value literals : Nat) : Nat × Recent :=
  if 3 < value then (value - 3, ⟨value - 3, r.a, r.b⟩)
  else
    match value - 1 + if literals = 0 then 1 else 0 with
    | 0 => (r.a, r)
    | 1 => (r.b, ⟨r.b, r.a, r.c⟩)
    | 2 => (r.c, ⟨r.c, r.a, r.b⟩)
    | _ =>
      let o := max 1 (r.a - 1)
      (o, ⟨o, r.a, r.b⟩)

structure Sequence where
  literals : Nat
  offset : Nat
  length : Nat

structure States where
  literals : Nat
  offsets : Nat
  lengths : Nat

/-- The number that a state and some bits stand for. -/
def readNumber (k : CodeKind) (e : Fse.Entry) (r : BitStream) : Option (Nat × BitStream) :=
  let range := k.ranges.getD e.symbol ⟨0, 0⟩
  (r.read? range.bits).map fun (n, r) => (range.base + n, r)

/-- Reads `n` sequences; all bits are used up at the end. -/
def readSequences (t : Tables) :
    (n : Nat) → States → BitStream → Array Sequence → Except Error (Array Sequence)
  | 0, _, r, acc => if r.left = 0 then .ok acc else .error .malformed
  | n + 1, st, r, acc => do
    let ll := t.literals.entry st.literals
    let of := t.offsets.entry st.offsets
    let ml := t.lengths.entry st.lengths
    let some (offset, r) := readNumber .offsets of r | throw .truncated
    let some (length, r) := readNumber .lengths ml r | throw .truncated
    let some (literals, r) := readNumber .literals ll r | throw .truncated
    let acc := acc.push ⟨literals, offset, length⟩
    if n = 0 then readSequences t n st r acc
    else
      let some (a, r) := ll.next? r | throw .truncated
      let some (b, r) := ml.next? r | throw .truncated
      let some (c, r) := of.next? r | throw .truncated
      readSequences t n ⟨a, c, b⟩ r acc

/-- Reads `n` sequences from the stream in `s`. -/
def decodeSequences (t : Tables) (n : Nat) (s : Bytes) : Except Error (Array Sequence) := do
  let some r := BitStream.ofBytes? s | throw .malformed
  let some (a, r) := r.read? t.literals.log | throw .truncated
  let some (b, r) := r.read? t.offsets.log | throw .truncated
  let some (c, r) := r.read? t.lengths.log | throw .truncated
  readSequences t n ⟨a, b, c⟩ r #[]

/-- Carries out sequences on `out`, of which the first `start` bytes are out of reach; gives the
literals left over. -/
def execute (window start limit : Nat) :
    List Sequence → Recent → (literals : Bytes) → Array UInt8 →
    Except Error (Recent × Bytes × Array UInt8)
  | [], recent, lits, out => .ok (recent, lits, out)
  | s :: r, recent, lits, out =>
    if lits.length < s.literals then .error .malformed
    else if limit < out.size + s.literals + s.length then .error .tooLarge
    else
      let out := out ++ lits.take s.literals
      let (offset, recent) := recent.resolve s.offset s.literals
      if out.size < start + offset || window < offset then .error .malformed
      else execute window start limit r recent (lits.drop s.literals)
        (Matches.copyBack offset s.length out)

end Zstd
end Locksmith
