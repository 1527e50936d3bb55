import Locksmith.Compression.Lz4
import Locksmith.Proofs.Compression.Repetitions
import Locksmith.Proofs.Data.LittleEndian

namespace Locksmith
namespace Lz4

open Matches (Run Tells CopyAt)

variable {s tail : Bytes} {limit a b : Nat} {out : Array UInt8}

theorem readLength_replicate (n k : Nat) (tail : Bytes) :
    readLength n (List.replicate k 255 ++ tail) = readLength (n + 255 * k) tail := by
  induction k generalizing n with
  | zero => rfl
  | succ k ih =>
    rw [List.replicate_succ, List.cons_append, readLength, if_pos rfl, ih]
    congr 1
    omega

/-- A length is told by its first four bits and the bytes behind them. -/
theorem lengthFrom_lengthBytes (n : Nat) (tail : Bytes) :
    lengthFrom (min n 15) (lengthBytes n ++ tail) = some (n, tail) := by
  rw [lengthFrom, lengthBytes]
  split
  · rename_i hfull
    have hbyte : ((n - 15) % 255).toUInt8.toNat = (n - 15) % 255 :=
      UInt8.toNat_ofNat_of_lt' ((Nat.mod_lt _ (by decide)).trans (by decide))
    have hne : ((n - 15) % 255).toUInt8 ≠ 255 := by
      intro heq
      have := congrArg UInt8.toNat heq
      rw [hbyte, show (255 : UInt8).toNat = 255 from rfl] at this
      omega
    rw [if_neg (by omega), List.append_assoc, readLength_replicate, List.singleton_append,
      readLength, if_neg hne, hbyte]
    congr 2
    omega
  · rename_i hshort
    rw [if_pos (by omega), List.nil_append, min_eq_left (by omega)]

theorem toNat_token (n m : Nat) :
    (min n 15 * 16 + min m 15).toUInt8.toNat = min n 15 * 16 + min m 15 := by
  apply UInt8.toNat_ofNat_of_lt'
  rw [UInt8.size]
  omega

theorem lengthFrom_high (n m : Nat) (tail : Bytes) :
    lengthFrom ((min n 15 * 16 + min m 15).toUInt8.toNat / 16) (lengthBytes n ++ tail) =
      some (n, tail) := by
  have hhigh : (min n 15 * 16 + min m 15) / 16 = min n 15 := by omega
  rw [toNat_token, hhigh, lengthFrom_lengthBytes]

theorem lengthFrom_low (n m : Nat) (tail : Bytes) :
    lengthFrom ((min n 15 * 16 + min m 15).toUInt8.toNat % 16) (lengthBytes m ++ tail) =
      some (m, tail) := by
  have hlow : (min n 15 * 16 + min m 15) % 16 = min m 15 := by omega
  rw [toNat_token, hlow, lengthFrom_lengthBytes]

/-- The last bytes of a block are taken as they are. -/
theorem decodeFrom_last (rest : Bytes) (hlimit : out.size + rest.length ≤ limit) :
    decodeFrom limit ((min rest.length 15 * 16).toUInt8 :: lengthBytes rest.length ++ rest)
      out =
      .ok (out ++ rest) := by
  have htoken : (min rest.length 15 * 16).toUInt8.toNat = min rest.length 15 * 16 :=
    toNat_token rest.length 0
  have hlength := lengthFrom_high rest.length 0 rest
  have hno : (min rest.length 15 * 16).toUInt8 % 16 = 0 := by
    apply UInt8.toNat_inj.1
    rw [UInt8.toNat_mod, htoken]
    exact Nat.mul_mod_left _ _
  rw [List.cons_append, decodeFrom]
  split
  · rename_i h
    cases hlength.symm.trans h
  · rename_i h
    cases hlength.symm.trans h
    rw [if_neg (Nat.lt_irrefl _), if_neg (Nat.not_lt.2 hlimit)]
    dsimp only
    split
    · rw [if_pos hno, List.take_length]
    all_goals
      rename_i h
      rw [List.drop_length] at h
      cases h

/-- A run is carried out: its bytes are taken, then those that stand back are copied. -/
theorem decodeFrom_run {token lo hi : UInt8} {src lits rest : Bytes} {offset m : Nat}
    (hlits : lengthFrom (token.toNat / 16) src = some (lits.length, lits ++ lo :: hi :: rest))
    (hlength : lengthFrom (token.toNat % 16) rest = some (m, tail))
    (hoffset : lo.toNat + 256 * hi.toNat = offset)
    (hback : 0 < offset) (hreaches : offset ≤ out.size + lits.length)
    (hlimit : out.size + lits.length + (m + minLength) ≤ limit) :
    decodeFrom limit (token :: src) out =
      decodeFrom limit tail (Matches.copyBack offset (m + minLength) (out ++ lits)) := by
  have hsize : (out ++ lits).size = out.size + lits.length := by
    rw [← Array.length_toList, Array.toList_appendList, List.length_append, Array.length_toList]
  rw [decodeFrom]
  split
  · rename_i h
    cases hlits.symm.trans h
  · rename_i h
    cases hlits.symm.trans h
    rw [if_neg (by rw [List.length_append]; omega), if_neg (by omega)]
    dsimp only
    split
    · rename_i hd
      rw [List.drop_left] at hd
      cases hd
    · rename_i hd
      rw [List.drop_left] at hd
      cases hd
    · rename_i hd
      rw [List.drop_left] at hd
      cases hd
      split
      · rename_i h'
        cases hlength.symm.trans h'
      · rename_i h'
        cases hlength.symm.trans h'
        rw [List.take_left, hsize, hoffset, if_neg (by simp; omega), if_neg (by omega)]

theorem decodeFrom_encodeRun {r : Run} (tail : Bytes) (hlong : minLength ≤ r.length)
    (hback : 0 < r.offset) (hnear : r.offset ≤ Matches.reach)
    (hreaches : r.offset ≤ out.size + r.literals.length)
    (hlimit : out.size + r.literals.length + r.length ≤ limit) :
    decodeFrom limit (encodeRun r ++ tail) out =
      decodeFrom limit tail (Matches.copyBack r.offset r.length (out ++ r.literals)) := by
  have hspelt : encodeRun r ++ tail =
      (min r.literals.length 15 * 16 + min (r.length - minLength) 15).toUInt8 ::
        (lengthBytes r.literals.length ++
          (r.literals ++ (r.offset % 256).toUInt8 :: (r.offset / 256 % 256).toUInt8 ::
          (lengthBytes (r.length - minLength) ++ tail))) := by
    simp [encodeRun, LittleEndian.ofNat]
  have hoffset :
      (r.offset % 256).toUInt8.toNat + 256 * (r.offset / 256 % 256).toUInt8.toNat = r.offset :=
    LittleEndian.toNat_ofNat_of_lt (w := 2) (Nat.lt_succ_of_le hnear)
  have hlength : r.length - minLength + minLength = r.length := Nat.sub_add_cancel hlong
  rw [hspelt, decodeFrom_run (lengthFrom_high _ _ _) (lengthFrom_low _ _ _) hoffset hback
    hreaches, hlength]
  rw [hlength]
  exact hlimit

/-- Runs that tell the data from `a` up to `b` take the decoder from `a` to `b`. -/
theorem decodeFrom_tells {runs : List Run} (h : Tells s minLength a runs b)
    (hout : out.toList = s.take a) (tail : Bytes) : ∃ out', out'.toList = s.take b ∧
      decodeFrom s.length (runs.flatMap encodeRun ++ tail) out =
        decodeFrom s.length tail out' := by
  induction h generalizing out with
  | nil a => exact ⟨out, hout, rfl⟩
  | @cons a p b r runs literals copy near long further ih =>
    have hlits : (out ++ r.literals).toList = s.take p := by
      rw [Array.toList_appendList, hout, literals]
    have hsize : out.size + r.literals.length = p := by
      have hlength := congrArg List.length hlits
      have hfits := copy.fits
      rw [Array.toList_appendList, List.length_append, Array.length_toList,
        List.length_take] at hlength
      omega
    obtain ⟨out', hout', hfurther⟩ := ih (Matches.toList_copyBack copy hlits)
    refine ⟨out', hout', ?_⟩
    rw [List.flatMap_cons, List.append_assoc,
      decodeFrom_encodeRun _ long copy.back near, hfurther]
    · rw [hsize]
      exact copy.reaches
    · rw [hsize]
      exact copy.fits

/-- A block gives back the data that it was made from. -/
theorem decode_encode (data : Bytes) : decode data.length (encode data) = .ok data := by
  obtain ⟨b, htells, hrest⟩ := Matches.ofBytes_tells minLength data
  have hnone : (#[] : Array UInt8).toList = data.take 0 := rfl
  obtain ⟨out, hout, hruns⟩ := decodeFrom_tells htells hnone
    ((min (Matches.ofBytes minLength data).2.length 15 * 16).toUInt8 ::
      lengthBytes (Matches.ofBytes minLength data).2.length ++
        (Matches.ofBytes minLength data).2)
  have hall : out.toList ++ (Matches.ofBytes minLength data).2 = data := by rw [hout, ← hrest]
  have hlimit : out.size + (Matches.ofBytes minLength data).2.length ≤ data.length := by
    rw [← Array.length_toList, ← List.length_append, hall]
  rw [decode, encode]
  dsimp only
  rw [hruns, decodeFrom_last _ hlimit, Except.map, Array.toList_appendList, hall]

end Lz4
end Locksmith
