import Mathlib
import Locksmith.Compression.Matches

namespace Locksmith
namespace Matches

variable {s : Bytes} {least a b p offset n : Nat} {r : Run} {runs : List Run}

/-- The `n` bytes at `p` are a copy of those that stand `offset` bytes before. -/
structure CopyAt (s : Bytes) (p offset n : Nat) : Prop where
  back : 0 < offset
  reaches : offset ≤ p
  fits : p + n ≤ s.length
  same : ∀ i < n, s[p - offset + i]? = s[p + i]?

/-- The first part of a copy is a copy. -/
theorem CopyAt.take {m : Nat} (h : CopyAt s p offset (m + n)) : CopyAt s p offset m where
  back := h.back
  reaches := h.reaches
  fits := by
    have := h.fits
    omega
  same i hi := h.same i (by omega)

/-- What follows the first part of a copy is a copy. -/
theorem CopyAt.drop {m : Nat} (h : CopyAt s p offset (m + n)) : CopyAt s (p + m) offset n where
  back := h.back
  reaches := h.reaches.trans (Nat.le_add_right p m)
  fits := by
    have := h.fits
    omega
  same i hi := by
    have hat := h.same (m + i) (by omega)
    have hreaches := h.reaches
    rwa [← Nat.add_assoc, ← Nat.add_assoc, ← Nat.sub_add_comm hreaches] at hat

/-- Copying byte by byte gives the data as far as the copy goes. -/
theorem toList_copyBack {out : Array UInt8} (h : CopyAt s p offset n)
    (hout : out.toList = s.take p) :
    (copyBack offset n out).toList = s.take (p + n) := by
  induction n generalizing p out with
  | zero => exact hout
  | succ n ih =>
    have hfits := h.fits
    have hsize : out.size = p := by
      rw [← Array.length_toList, hout, List.length_take]
      omega
    have hbyte : out.getD (out.size - offset) 0 = s[p] := by
      have hback := h.back
      have hreaches := h.reaches
      have hsame := h.same 0 (Nat.succ_pos n)
      rw [Nat.add_zero, Nat.add_zero,
        List.getElem?_eq_getElem (show p < s.length by omega)] at hsame
      rw [Array.getD_eq_getD_getElem?, ← Array.getElem?_toList, hout, hsize,
        List.getElem?_take_of_lt (by omega), hsame]
      rfl
    have hpush : (out.push (out.getD (out.size - offset) 0)).toList = s.take (p + 1) := by
      rw [Array.toList_push, hout, hbyte, List.take_concat_get' s p (by omega)]
    rw [Nat.add_comm] at h
    rw [copyBack, ih h.drop hpush]
    congr 1
    omega

theorem size_copyBack (offset n : Nat) (out : Array UInt8) :
    (copyBack offset n out).size = out.size + n := by
  induction n generalizing out with
  | zero => rfl
  | succ n ih =>
    rw [copyBack, ih, Array.size_push]
    omega

/-- Runs tell the data from `a` up to `b`. -/
inductive Tells (s : Bytes) (least : Nat) : Nat → List Run → Nat → Prop where
  | nil (a : Nat) : Tells s least a [] a
  | cons {a p b : Nat} {r : Run} {runs : List Run}
      (literals : s.take p = s.take a ++ r.literals)
      (copy : CopyAt s p r.offset r.length) (near : r.offset ≤ reach) (long : least ≤ r.length)
      (further : Tells s least (p + r.length) runs b) : Tells s least a (r :: runs) b

theorem Tells.concat (h : Tells s least a runs b) (literals : s.take p = s.take b ++ r.literals)
    (copy : CopyAt s p r.offset r.length) (near : r.offset ≤ reach) (long : least ≤ r.length) :
    Tells s least a (runs ++ [r]) (p + r.length) := by
  induction h with
  | nil a => exact .cons literals copy near long (.nil _)
  | cons literals' copy' near' long' _ ih =>
    exact .cons literals' copy' near' long' (ih literals)

/-- What is counted as common is the same. -/
theorem common_spec (data : Array UInt8) (c p fuel n : Nat) :
    common data c p fuel n ≤ n + fuel ∧
      ∀ i, n ≤ i → i < common data c p fuel n → data.getD (c + i) 0 = data.getD (p + i) 0 := by
  induction fuel generalizing n with
  | zero => exact ⟨Nat.le_refl _, fun i hle hlt => absurd hlt (Nat.not_lt.2 hle)⟩
  | succ fuel ih =>
    rw [common]
    split
    · rename_i hsame
      obtain ⟨hbound, hlater⟩ := ih (n + 1)
      refine ⟨by omega, fun i hle hlt => ?_⟩
      rcases Nat.eq_or_lt_of_le hle with rfl | hle
      · exact eq_of_beq hsame
      · exact hlater i hle hlt
    · exact ⟨by omega, fun i hle hlt => absurd hlt (Nat.not_lt.2 hle)⟩

/-- What is common from `c` and from `p` on, compared byte by byte, is a copy. -/
theorem copyAt_common {c fuel : Nat} (hc : c < p) (hfuel : p + fuel ≤ s.length) :
    CopyAt s p (p - c) (common s.toArray c p fuel 0) := by
  obtain ⟨hbound, hsame⟩ := common_spec s.toArray c p fuel 0
  refine ⟨by omega, by omega, by omega, fun i hi => ?_⟩
  have hat := hsame i (Nat.zero_le i) hi
  simp only [Array.getD_eq_getD_getElem?, List.getElem?_toArray] at hat
  rw [show p - (p - c) + i = c + i by omega]
  rw [List.getElem?_eq_getElem (show c + i < s.length by omega),
    List.getElem?_eq_getElem (show p + i < s.length by omega)] at hat ⊢
  exact congrArg some hat

theorem take_extract (s : Bytes) {start stop : Nat} (h : start ≤ stop) :
    s.take stop = s.take start ++ (s.toArray.extract start stop).toList := by
  rw [Array.toList_extract, List.extract_eq_take_drop, ← List.take_add, Nat.add_sub_cancel' h]

/-- The search goes on behind each copy that it writes, and what it wrote tells the data up to
there. -/
theorem search_tells (seen : Array Nat) {found : Array Run} {start : Nat}
    (h : Tells s least 0 found.toList start) (hstart : start ≤ p) (hp : p ≤ s.length) :
    Tells s least 0 (search least s.toArray p start seen found).1.toList
        (search least s.toArray p start seen found).2 ∧
      (search least s.toArray p start seen found).2 ≤ s.length := by
  induction hrest : s.length - p using Nat.strong_induction_on
    generalizing p start seen found with
  | _ rest ih =>
    rw [search]
    split
    · rename_i hfar
      rw [List.size_toArray, lastStart] at hfar
      dsimp only
      generalize seen.getD (slot s.toArray p) s.toArray.size = c
      by_cases hnear : (c < p && p - c ≤ reach) = true
      · simp only [if_pos hnear]
        rw [Bool.and_eq_true, decide_eq_true_iff, decide_eq_true_iff] at hnear
        -- the place that was seen last is a guess: only what really repeats there is counted
        have hcopy :
            CopyAt s p (p - c) (common s.toArray c p (s.toArray.size - guarded - p) 0) := by
          apply copyAt_common hnear.1
          rw [List.size_toArray, guarded]
          omega
        generalize common s.toArray c p (s.toArray.size - guarded - p) 0 = n at hcopy ⊢
        split
        · rename_i hlong
          rw [Bool.and_eq_true, decide_eq_true_iff, decide_eq_true_iff] at hlong
          have hfits := hcopy.fits
          -- what is repeated is not looked at again, so the search goes on behind it
          rw [show p + (n - 1) + 1 = p + n by omega]
          refine ih (s.length - (p + n)) (by omega) _ ?_ (Nat.le_refl _) hfits rfl
          rw [Array.toList_push]
          exact h.concat (take_extract s hstart) hcopy hnear.2 hlong.1
        · exact ih (s.length - (p + 1)) (by omega) _ h (by omega) (by omega) rfl
      · simp only [if_neg hnear, Nat.lt_irrefl, decide_false, Bool.and_false,
          Bool.false_eq_true, if_false]
        exact ih (s.length - (p + 1)) (by omega) _ h (by omega) (by omega) rfl
    · exact ⟨h, hstart.trans hp⟩

theorem ofBytes_tells (least : Nat) (s : Bytes) :
    ∃ b, Tells s least 0 (ofBytes least s).1 b ∧ s = s.take b ++ (ofBytes least s).2 := by
  have hnone : Tells s least 0 (#[] : Array Run).toList 0 := .nil 0
  obtain ⟨htells, hle⟩ :=
    search_tells (Array.replicate slots s.toArray.size) hnone (Nat.le_refl 0)
      (Nat.zero_le s.length)
  have hrest := take_extract s hle
  rw [List.take_length] at hrest
  exact ⟨_, htells, hrest⟩

end Matches
end Locksmith
