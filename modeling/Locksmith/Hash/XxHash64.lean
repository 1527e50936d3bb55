import Locksmith.Data.LittleEndian
import Locksmith.Data.Word

namespace Locksmith
namespace XxHash64

def prime1 : UInt64 := 0x9E3779B185EBCA87

def prime2 : UInt64 := 0xC2B2AE3D27D4EB4F

def prime3 : UInt64 := 0x165667B19E3779F9

def prime4 : UInt64 := 0x85EBCA77C2B2AE63

def prime5 : UInt64 := 0x27D4EB2F165667C5

/-- Takes eight bytes into an accumulator. -/
def round (acc lane : UInt64) : UInt64 :=
  Word.rotateLeft64 (acc + lane * prime2) 31 * prime1

/-- The word at `i`, bytes past the end being zero. -/
def lane (s : Bytes) (i : Nat) : UInt64 := (LittleEndian.toNat ((s.drop i).take 8)).toUInt64

structure Lanes where
  a : UInt64
  b : UInt64
  c : UInt64
  d : UInt64

def Lanes.stripe (l : Lanes) (s : Bytes) : Lanes :=
  ⟨round l.a (lane s 0), round l.b (lane s 8), round l.c (lane s 16), round l.d (lane s 24)⟩

/-- Folds one accumulator into the hash. -/
def merge (acc v : UInt64) : UInt64 := (acc ^^^ round 0 v) * prime1 + prime4

def Lanes.converge (l : Lanes) : UInt64 :=
  let h := Word.rotateLeft64 l.a 1 + Word.rotateLeft64 l.b 7 + Word.rotateLeft64 l.c 12 +
    Word.rotateLeft64 l.d 18
  merge (merge (merge (merge h l.a) l.b) l.c) l.d

/-- Takes the last bytes, fewer than 32. -/
def tail (h : UInt64) : Bytes → UInt64
  | b0 :: b1 :: b2 :: b3 :: b4 :: b5 :: b6 :: b7 :: r =>
    let k := round 0 (lane [b0, b1, b2, b3, b4, b5, b6, b7] 0)
    tail (Word.rotateLeft64 (h ^^^ k) 27 * prime1 + prime4) r
  | b0 :: b1 :: b2 :: b3 :: r =>
    let k := lane [b0, b1, b2, b3] 0
    tail (Word.rotateLeft64 (h ^^^ k * prime1) 23 * prime2 + prime3) r
  | b :: r => tail (Word.rotateLeft64 (h ^^^ b.toUInt64 * prime5) 11 * prime1) r
  | [] => h

/-- Spreads every bit over the whole word. -/
def avalanche (h : UInt64) : UInt64 :=
  let h := (h ^^^ h >>> 33) * prime2
  let h := (h ^^^ h >>> 29) * prime3
  h ^^^ h >>> 32

def hash (data : Bytes) : UInt64 :=
  let n := data.length / 32 * 32
  let h :=
    if n = 0 then prime5
    else ((Bytes.pieces 31 (data.take n)).foldl Lanes.stripe
      ⟨prime1 + prime2, prime2, 0, 0 - prime1⟩).converge
  avalanche (tail (h + data.length.toUInt64) (data.drop n))

end XxHash64
end Locksmith
