import Locksmith.Data.Word

namespace Locksmith
namespace Sha256

open Word (nth)

structure State where
  a : UInt32
  b : UInt32
  c : UInt32
  d : UInt32
  e : UInt32
  f : UInt32
  g : UInt32
  h : UInt32

def initial : State :=
  ⟨0x6a09e667, 0xbb67ae85, 0x3c6ef372, 0xa54ff53a,
    0x510e527f, 0x9b05688c, 0x1f83d9ab, 0x5be0cd19⟩

def constants : List UInt32 := [
  0x428a2f98, 0x71374491, 0xb5c0fbcf, 0xe9b5dba5,
  0x3956c25b, 0x59f111f1, 0x923f82a4, 0xab1c5ed5,
  0xd807aa98, 0x12835b01, 0x243185be, 0x550c7dc3,
  0x72be5d74, 0x80deb1fe, 0x9bdc06a7, 0xc19bf174,
  0xe49b69c1, 0xefbe4786, 0x0fc19dc6, 0x240ca1cc,
  0x2de92c6f, 0x4a7484aa, 0x5cb0a9dc, 0x76f988da,
  0x983e5152, 0xa831c66d, 0xb00327c8, 0xbf597fc7,
  0xc6e00bf3, 0xd5a79147, 0x06ca6351, 0x14292967,
  0x27b70a85, 0x2e1b2138, 0x4d2c6dfc, 0x53380d13,
  0x650a7354, 0x766a0abb, 0x81c2c92e, 0x92722c85,
  0xa2bfe8a1, 0xa81a664b, 0xc24b8b70, 0xc76c51a3,
  0xd192e819, 0xd6990624, 0xf40e3585, 0x106aa070,
  0x19a4c116, 0x1e376c08, 0x2748774c, 0x34b0bcb5,
  0x391c0cb3, 0x4ed8aa4a, 0x5b9cca4f, 0x682e6ff3,
  0x748f82ee, 0x78a5636f, 0x84c87814, 0x8cc70208,
  0x90befffa, 0xa4506ceb, 0xbef9a3f7, 0xc67178f2]

/-- The next word of the schedule, from the sixteen before it. -/
def expand (w : Vector UInt32 16) : UInt32 :=
  let s0 := Word.rotateRight (nth w 1) 7 ^^^ Word.rotateRight (nth w 1) 18 ^^^ nth w 1 >>> 3
  let s1 :=
    Word.rotateRight (nth w 14) 17 ^^^ Word.rotateRight (nth w 14) 19 ^^^ nth w 14 >>> 10
  nth w 0 + s0 + nth w 9 + s1

/-- Drops the oldest word and adds a new one. -/
def shift (w : Vector UInt32 16) (x : UInt32) : Vector UInt32 16 :=
  #v[nth w 1, nth w 2, nth w 3, nth w 4, nth w 5, nth w 6, nth w 7, nth w 8,
     nth w 9, nth w 10, nth w 11, nth w 12, nth w 13, nth w 14, nth w 15, x]

/-- One round with a constant and a word of the schedule. -/
def round (s : State) (k w : UInt32) : State :=
  let s1 := Word.rotateRight s.e 6 ^^^ Word.rotateRight s.e 11 ^^^ Word.rotateRight s.e 25
  let ch := (s.e &&& s.f) ^^^ (~~~s.e &&& s.g)
  let t1 := s.h + s1 + ch + k + w
  let s0 := Word.rotateRight s.a 2 ^^^ Word.rotateRight s.a 13 ^^^ Word.rotateRight s.a 22
  let maj := (s.a &&& s.b) ^^^ (s.a &&& s.c) ^^^ (s.b &&& s.c)
  ⟨t1 + s0 + maj, s.a, s.b, s.c, s.d + t1, s.e, s.f, s.g⟩

/-- The state after the block `m`. -/
def step (s : State) (m : Vector UInt32 16) : State :=
  let t := (constants.foldl (fun (p : State × Vector UInt32 16) k =>
    (round p.1 k (nth p.2 0), shift p.2 (expand p.2))) (s, m)).1
  ⟨s.a + t.a, s.b + t.b, s.c + t.c, s.d + t.d, s.e + t.e, s.f + t.f, s.g + t.g, s.h + t.h⟩

/-- A one bit, zeros up to the end of a block and the length in bits. -/
def padding (len : Nat) : Bytes :=
  let bits := len * 8
  (0x80 : UInt8) :: List.replicate ((119 - len % 64) % 64) 0 ++
    Word.toBig (bits >>> 32).toUInt32 ++ Word.toBig bits.toUInt32

/-- The 32-byte hash of `data`. -/
def hash (data : Bytes) : Bytes :=
  let s := (Bytes.pieces 63 (data ++ padding data.length)).foldl
    (fun s b => step s (Word.vector 16 (Word.ofBig b))) initial
  [s.a, s.b, s.c, s.d, s.e, s.f, s.g, s.h].flatMap Word.toBig

/-- The code that authenticates `data` under `key`. -/
def authenticate (key data : Bytes) : Bytes :=
  let key := if key.length ≤ 64 then key else hash key
  let key := key ++ List.replicate (64 - key.length) 0
  hash (key.map (· ^^^ 0x5c) ++ hash (key.map (· ^^^ 0x36) ++ data))

/-- Thirty-two bytes of key for the purpose `info`, derived from a secret without salt. -/
def deriveKey (secret info : Bytes) : Bytes :=
  authenticate (authenticate (List.replicate 32 0) secret) (info ++ [1])

end Sha256
end Locksmith
