import Locksmith.Data.Word

namespace Locksmith
namespace ChaCha20

open Word (nth)

abbrev State := Vector UInt32 16

@[inline] def quarter (v : State) (a b c d : Nat) : State :=
  let va := nth v a + nth v b
  let vd := Word.rotateLeft (nth v d ^^^ va) 16
  let vc := nth v c + vd
  let vb := Word.rotateLeft (nth v b ^^^ vc) 12
  let va := va + vb
  let vd := Word.rotateLeft (vd ^^^ va) 8
  let vc := vc + vd
  let vb := Word.rotateLeft (vb ^^^ vc) 7
  (((v.setIfInBounds a va).setIfInBounds b vb).setIfInBounds c vc).setIfInBounds d vd

def doubleRound (v : State) : State :=
  let v := quarter v 0 4 8 12
  let v := quarter v 1 5 9 13
  let v := quarter v 2 6 10 14
  let v := quarter v 3 7 11 15
  let v := quarter v 0 5 10 15
  let v := quarter v 1 6 11 12
  let v := quarter v 2 7 8 13
  quarter v 3 4 9 14

def rounds (v : State) : State := (List.range 10).foldl (fun v _ => doubleRound v) v

/-- The state made of the constants, a 32-byte key and four more words. -/
def start (key : Bytes) (rest : List UInt32) : State :=
  Word.vector 16 ([0x61707865, 0x3320646e, 0x79622d32, 0x6b206574] ++
    (Word.vector 8 (Word.ofLittle key)).toList ++ rest)

/-- Block number `counter` of the key stream for a 12-byte nonce. -/
def block (key nonce : Bytes) (counter : UInt32) : Bytes :=
  let s := start key (counter :: Word.ofLittle nonce)
  (s.zipWith (· + ·) (rounds s)).toList.flatMap Word.toLittle

/-- The key stream from block `counter` on, `n` bytes of it. -/
def keyStream (key nonce : Bytes) (counter : UInt32) (n : Nat) : Bytes :=
  ((List.range ((n + 63) / 64)).flatMap fun i => block key nonce (counter + i.toUInt32)).take n

/-- Encrypts, or decrypts, from block `counter` on. -/
def apply (key nonce : Bytes) (counter : UInt32) (data : Bytes) : Bytes :=
  List.zipWith (· ^^^ ·) data (keyStream key nonce counter data.length)

/-- The key for the rest of a long nonce whose first sixteen bytes are given. -/
def subkey (key nonce : Bytes) : Bytes :=
  let ws := (rounds (start key (Word.ofLittle nonce))).toList
  (ws.take 4 ++ ws.drop 12).flatMap Word.toLittle

end ChaCha20
end Locksmith
