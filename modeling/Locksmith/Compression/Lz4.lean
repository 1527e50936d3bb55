import Locksmith.Compression.Matches
import Locksmith.Data.LittleEndian

namespace Locksmith
namespace Lz4

inductive Error where
  | truncated
  | badOffset
  | tooLong
deriving DecidableEq, Repr

def Error.message : Error → Bytes
  | truncated => "block ends early"
  | badOffset => "copy from outside of the block"
  | tooLong => "block is longer than expected"

def minLength : Nat := 4

/-- Adds bytes to a length, up to and including the first that is not 255. -/
def readLength (n : Nat) : Bytes → Option (Nat × Bytes)
  | [] => none
  | b :: r => if b = 255 then readLength (n + 255) r else some (n + b.toNat, r)

theorem readLength_length {n m : Nat} {s r : Bytes} (h : readLength n s = some (m, r)) :
    r.length < s.length := by
  induction s generalizing n with
  | nil => simp [readLength] at h
  | cons b s ih =>
    simp only [readLength] at h
    split at h
    · have := ih h
      simp only [List.length_cons]; omega
    · simp only [Option.some.injEq, Prod.mk.injEq] at h
      simp [h.2]

/-- A length whose first four bits are `nibble`. -/
def lengthFrom (nibble : Nat) (s : Bytes) : Option (Nat × Bytes) :=
  if nibble = 15 then readLength 15 s else some (nibble, s)

theorem lengthFrom_length {nibble m : Nat} {s r : Bytes}
    (h : lengthFrom nibble s = some (m, r)) : r.length ≤ s.length := by
  simp only [lengthFrom] at h
  split at h
  · exact Nat.le_of_lt (readLength_length h)
  · simp only [Option.some.injEq, Prod.mk.injEq] at h
    simp [h.2]

/-- Decodes what follows `out`, up to `limit` bytes in all. -/
def decodeFrom (limit : Nat) (src : Bytes) (out : Array UInt8) : Except Error (Array UInt8) :=
  match src with
  | [] => .ok out
  | token :: src =>
    match h : lengthFrom (token.toNat / 16) src with
    | none => .error .truncated
    | some (n, src') =>
      have := lengthFrom_length h
      if src'.length < n then .error .truncated
      else if limit < out.size + n then .error .tooLong
      else
        let out := out ++ src'.take n
        match hd : src'.drop n with
        | [] => if token % 16 = 0 then .ok out else .error .truncated
        | [_] => .error .truncated
        | lo :: hi :: rest =>
          let offset := lo.toNat + 256 * hi.toNat
          match hm : lengthFrom (token.toNat % 16) rest with
          | none => .error .truncated
          | some (m, rest') =>
            have := lengthFrom_length hm
            have : rest.length + 2 ≤ src'.length := by
              have := congrArg List.length hd
              simp only [List.length_drop, List.length_cons] at this
              omega
            if offset = 0 || out.size < offset then .error .badOffset
            else if limit < out.size + (m + minLength) then .error .tooLong
            else decodeFrom limit rest' (Matches.copyBack offset (m + minLength) out)
termination_by src.length
decreasing_by simp only [List.length_cons]; omega

/-- Decodes a block of at most `limit` bytes. -/
def decode (limit : Nat) (src : Bytes) : Except Error Bytes :=
  (decodeFrom limit src #[]).map Array.toList

/-- The bytes that follow a nibble of 15. -/
def lengthBytes (n : Nat) : Bytes :=
  if n < 15 then [] else List.replicate ((n - 15) / 255) 255 ++ [((n - 15) % 255).toUInt8]

def encodeRun (r : Matches.Run) : Bytes :=
  let n := r.literals.length
  let m := r.length - minLength
  (min n 15 * 16 + min m 15).toUInt8 :: lengthBytes n ++ r.literals ++
    LittleEndian.ofNat 2 r.offset ++ lengthBytes m

/-- A block that decodes to `data`. -/
def encode (data : Bytes) : Bytes :=
  let (runs, rest) := Matches.ofBytes minLength data
  let n := rest.length
  runs.flatMap encodeRun ++ ((min n 15 * 16).toUInt8 :: lengthBytes n ++ rest)

end Lz4
end Locksmith
