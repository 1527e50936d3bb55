import Locksmith.Data.Word

namespace Locksmith
namespace Blake3

open Word (nth)

abbrev Chain := Vector UInt32 8

abbrev Block := Vector UInt32 16

/-- The words that fill the second half of a starting state. -/
def initial : Vector UInt32 4 := #v[0x6a09e667, 0xbb67ae85, 0x3c6ef372, 0xa54ff53a]

/-- First block of a leaf. -/
def leafStart : UInt32 := 1

/-- Last block of a leaf. -/
def leafEnd : UInt32 := 2

/-- A node that joins two others. -/
def parent : UInt32 := 4

/-- The node at the top. -/
def root : UInt32 := 8

/-- A hash under a key. -/
def keyed : UInt32 := 16

/-- Mixes two message words into four words of the state. -/
@[inline] def mix (v : Block) (a b c d : Nat) (x y : UInt32) : Block :=
  let va := nth v a + nth v b + x
  let vd := Word.rotateRight (nth v d ^^^ va) 16
  let vc := nth v c + vd
  let vb := Word.rotateRight (nth v b ^^^ vc) 12
  let va := va + vb + y
  let vd := Word.rotateRight (vd ^^^ va) 8
  let vc := vc + vd
  let vb := Word.rotateRight (vb ^^^ vc) 7
  (((v.setIfInBounds a va).setIfInBounds b vb).setIfInBounds c vc).setIfInBounds d vd

def round (m v : Block) : Block :=
  let v := mix v 0 4 8 12 (nth m 0) (nth m 1)
  let v := mix v 1 5 9 13 (nth m 2) (nth m 3)
  let v := mix v 2 6 10 14 (nth m 4) (nth m 5)
  let v := mix v 3 7 11 15 (nth m 6) (nth m 7)
  let v := mix v 0 5 10 15 (nth m 8) (nth m 9)
  let v := mix v 1 6 11 12 (nth m 10) (nth m 11)
  let v := mix v 2 7 8 13 (nth m 12) (nth m 13)
  mix v 3 4 9 14 (nth m 14) (nth m 15)

/-- The message words in the order that the next round takes them. -/
def permute (m : Block) : Block :=
  #v[nth m 2, nth m 6, nth m 3, nth m 10, nth m 7, nth m 0, nth m 4, nth m 13,
     nth m 1, nth m 11, nth m 12, nth m 5, nth m 9, nth m 14, nth m 15, nth m 8]

/-- Runs `n` rounds. -/
def rounds : Nat → Block → Block → Block
  | 0, _, v => v
  | n + 1, m, v => rounds n (permute m) (round m v)

/-- The chaining value that follows `h` after a block of `len` bytes. -/
def compress (h : Chain) (m : Block) (counter : UInt64) (len flags : UInt32) : Chain :=
  let v := rounds 7 m #v[nth h 0, nth h 1, nth h 2, nth h 3, nth h 4, nth h 5, nth h 6, nth h 7,
    nth initial 0, nth initial 1, nth initial 2, nth initial 3,
    counter.toUInt32, (counter >>> 32).toUInt32, len, flags]
  #v[nth v 0 ^^^ nth v 8, nth v 1 ^^^ nth v 9, nth v 2 ^^^ nth v 10, nth v 3 ^^^ nth v 11,
     nth v 4 ^^^ nth v 12, nth v 5 ^^^ nth v 13, nth v 6 ^^^ nth v 14, nth v 7 ^^^ nth v 15]

/-- Chains the blocks of a leaf; `start` marks the first one and `last` the last one. -/
def chainBlocks (counter : UInt64) (last : UInt32) (h : Chain) (start : UInt32) :
    List Bytes → Chain
  | [] => h
  | [b] =>
    compress h (Word.vector 16 (Word.ofLittle b)) counter b.length.toUInt32
      (keyed ||| start ||| leafEnd ||| last)
  | b :: r =>
    chainBlocks counter last
      (compress h (Word.vector 16 (Word.ofLittle b)) counter b.length.toUInt32
        (keyed ||| start)) 0 r

/-- The value of leaf number `counter`; empty data is one empty block. -/
def leaf (key : Chain) (counter : UInt64) (last : UInt32) (data : Bytes) : Chain :=
  let blocks := if data.isEmpty then [[]] else Bytes.pieces 63 data
  chainBlocks counter last key leafStart blocks

/-- The value of the node above two others. -/
def join (key : Chain) (flags : UInt32) (l r : Chain) : Chain :=
  compress key #v[nth l 0, nth l 1, nth l 2, nth l 3, nth l 4, nth l 5, nth l 6, nth l 7,
    nth r 0, nth r 1, nth r 2, nth r 3, nth r 4, nth r 5, nth r 6, nth r 7] 0 64
    (keyed ||| parent ||| flags)

/-- Joins neighbours; an odd last value is carried up. -/
def joinPairs (key : Chain) : List Chain → List Chain
  | a :: b :: r => join key 0 a b :: joinPairs key r
  | l => l

theorem length_joinPairs (key : Chain) (l : List Chain) :
    2 * (joinPairs key l).length ≤ l.length + 1 := by
  fun_induction joinPairs key l with
  | case1 a b r ih => simp only [List.length_cons]; omega
  | case2 l h =>
    match l, h with
    | [], _ => simp
    | [_], _ => simp
    | a :: b :: r, h => exact (h a b r rfl).elim

/-- Joins all values up to the root, which at least two lie below. -/
def joinAll (key : Chain) (l : List Chain) : Chain :=
  match l with
  | [] => key
  | [a] => a
  | [a, b] => join key root a b
  | a :: b :: c :: r =>
    have := length_joinPairs key (a :: b :: c :: r)
    joinAll key (joinPairs key (a :: b :: c :: r))
termination_by l.length
decreasing_by simp only [List.length_cons] at *; omega

/-- The 32-byte BLAKE3 hash of `data` under a 32-byte key: 1024-byte leaves, each a chain of
64-byte blocks, joined pairwise into a tree. -/
def keyedHash (key data : Bytes) : Bytes :=
  let key := Word.vector 8 (Word.ofLittle key)
  let top :=
    match Bytes.pieces 1023 data with
    | [] => leaf key 0 root []
    | [s] => leaf key 0 root s
    | l => joinAll key (l.mapIdx fun i s => leaf key i.toUInt64 0 s)
  top.toList.flatMap Word.toLittle

end Blake3
end Locksmith
