import Locksmith.Compression.Zstd.Encode
import Locksmith.Proofs.Data.LittleEndian

namespace Locksmith
namespace Zstd

theorem bitAt_eq (data : Array UInt8) (i : Nat) :
    bitAt data i = LittleEndian.toNat data.toList / 2 ^ i % 2 := by
  have hbyte :
      (data.getD (i / 8) 0).toNat = LittleEndian.toNat data.toList / 256 ^ (i / 8) % 256 := by
    rw [LittleEndian.toNat_div_mod, Array.getD_eq_getD_getElem?, List.getD_eq_getElem?_getD,
      Array.getElem?_toList]
  have hpow : 2 ^ i = 256 ^ (i / 8) * 2 ^ (i % 8) := by
    rw [show 256 = 2 ^ 8 from rfl, ← Nat.pow_mul, ← Nat.pow_add, Nat.div_add_mod]
  have hshift : (i % 8).toUInt8.toNat % 8 = i % 8 := by
    rw [Nat.toUInt8_eq, UInt8.toNat_ofNat']
    omega
  rw [bitAt, UInt8.toNat_and, UInt8.toNat_shiftRight, hshift, UInt8.toNat_one,
    Nat.and_one_is_mod, Nat.shiftRight_eq_div_pow, hbyte, hpow, ← Nat.div_div_eq_div_mul]
  generalize LittleEndian.toNat data.toList / 256 ^ (i / 8) = n
  have hlt : i % 8 < 8 := Nat.mod_lt i (by decide)
  generalize i % 8 = j at hlt
  interval_cases j <;> omega

theorem slice_eq (data : Array UInt8) (pos n : Nat) :
    slice data pos n = LittleEndian.toNat data.toList / 2 ^ pos % 2 ^ n := by
  induction n generalizing pos with
  | zero => rw [slice, Nat.pow_zero, Nat.mod_one]
  | succ n ih =>
    rw [slice, ih, bitAt_eq, Nat.pow_succ 2 pos, ← Nat.div_div_eq_div_mul,
      Nat.pow_succ' (n := n), Nat.mod_mul]

namespace BitStream

variable {r : BitStream} {n m x y : Nat}

/-- The `n` bits that are unread stand for `v`. -/
structure Holds (r : BitStream) (n v : Nat) : Prop where
  left : r.left = n
  value : LittleEndian.toNat r.data.toList % 2 ^ n = v

/-- The bits that are read first are the high ones. -/
theorem Holds.read (h : r.Holds (n + m) (x * 2 ^ m + y)) (hy : y < 2 ^ m) :
    ∃ r', r.read? n = some (x, r') ∧ r'.Holds m y := by
  have hvalue := h.value
  refine ⟨{ r with left := m }, ?_, rfl, ?_⟩
  · rw [read?, h.left, if_pos (Nat.le_add_right n m), Nat.add_sub_cancel_left, slice_eq]
    congr 2
    have hdiv := congrArg (· / 2 ^ m) hvalue
    rwa [Nat.add_comm n m, Nat.pow_add, Nat.mod_mul_right_div_self, Nat.add_comm,
      Nat.add_mul_div_right _ _ (by positivity), Nat.div_eq_of_lt hy, Nat.zero_add] at hdiv
  · have hmod := congrArg (· % 2 ^ m) hvalue
    rwa [Nat.add_comm n m, Nat.pow_add, Nat.mod_mul_right_mod, Nat.add_comm,
      Nat.add_mul_mod_self_right, Nat.mod_eq_of_lt hy] at hmod

theorem read?_single (code : Nat) (r : BitStream) :
    r.read? (Fse.Table.single code).log = some (0, r) := by
  exact if_pos (Nat.zero_le r.left)

/-- The bits below the highest one of a number are a stream. -/
theorem ofBytes?_ofNat {v : Nat} (hv : v < 2 ^ n) :
    ∃ r, ofBytes? (LittleEndian.ofNat ((2 ^ n + v).log2 / 8 + 1) (2 ^ n + v)) = some r ∧
      r.Holds n v := by
  have hne : 2 ^ n + v ≠ 0 := by positivity
  have hlog : (2 ^ n + v).log2 = n :=
    (Nat.log2_eq_iff hne).2 ⟨by omega, by rw [Nat.pow_succ]; omega⟩
  have hpow : 2 ^ n = 2 ^ (n % 8) * 256 ^ (n / 8) := by
    rw [show 256 = 2 ^ 8 from rfl, ← Nat.pow_mul, ← Nat.pow_add, Nat.mod_add_div]
  have hpos : 0 < 256 ^ (n / 8) := by positivity
  -- The last byte has the highest bit of the number.
  have hlow : 2 ^ (n % 8) ≤ (2 ^ n + v) / 256 ^ (n / 8) := by
    rw [Nat.le_div_iff_mul_le hpos, ← hpow]
    exact Nat.le_add_right _ _
  have hhigh : (2 ^ n + v) / 256 ^ (n / 8) < 2 ^ (n % 8 + 1) := by
    rw [Nat.div_lt_iff_lt_mul hpos, Nat.pow_succ, Nat.mul_right_comm, ← hpow]
    omega
  have hbyte : (2 ^ n + v) / 256 ^ (n / 8) < 256 :=
    hhigh.trans_le (Nat.pow_le_pow_right (by decide) (Nat.mod_lt n (by decide)))
  rw [hlog]
  have hnumber :
      LittleEndian.toNat (LittleEndian.ofNat (n / 8 + 1) (2 ^ n + v)) = 2 ^ n + v := by
    apply LittleEndian.toNat_ofNat_of_lt
    rwa [Nat.pow_succ', ← Nat.div_lt_iff_lt_mul hpos]
  generalize hs : LittleEndian.ofNat (n / 8 + 1) (2 ^ n + v) = s at hnumber ⊢
  have hlength : s.length = n / 8 + 1 := by rw [← hs, LittleEndian.length_ofNat]
  have hlast : ∃ b, s.getLast? = some b ∧ b.toNat = (2 ^ n + v) / 256 ^ (n / 8) := by
    refine ⟨s.getD (n / 8) 0, ?_, ?_⟩
    · rw [List.getLast?_eq_getElem?, hlength, Nat.add_sub_cancel, List.getD_eq_getElem?_getD,
        List.getElem?_eq_getElem (show n / 8 < s.length by omega)]
      rfl
    · rw [← LittleEndian.toNat_div_mod, hnumber, Nat.mod_eq_of_lt hbyte]
  obtain ⟨b, hb, hvalue⟩ := hlast
  have hb0 : b ≠ 0 := by
    rintro rfl
    have := Nat.two_pow_pos (n % 8)
    rw [UInt8.toNat_zero] at hvalue
    omega
  have hb2 : b.toNat.log2 = n % 8 := by
    rw [hvalue]
    exact (Nat.log2_eq_iff (by have := Nat.two_pow_pos (n % 8); omega)).2 ⟨hlow, hhigh⟩
  refine ⟨⟨s.toArray, 8 * (s.length - 1) + b.toNat.log2⟩, ?_, ?_, ?_⟩
  · simp only [ofBytes?, hb, if_neg hb0]
  · dsimp only
    omega
  · dsimp only
    rw [hnumber, Nat.add_mod_left, Nat.mod_eq_of_lt hv]

end BitStream

/-- Ranges of numbers that follow each other, from `a` to the last one before `b`. -/
def Range.Chained : Nat → List Range → Nat → Prop
  | a, [], b => a = b
  | a, r :: l, b => r.base = a ∧ Chained (a + 2 ^ r.bits) l b

instance Range.Chained.decide :
    (a : Nat) → (l : List Range) → (b : Nat) → Decidable (Chained a l b)
  | a, [], b => inferInstanceAs (Decidable (a = b))
  | a, r :: l, b =>
    have := Chained.decide (a + 2 ^ r.bits) l b
    inferInstanceAs (Decidable (_ ∧ _))

theorem literalCodes_chained : Range.Chained 0 literalCodes.toList 131072 := by decide +kernel

theorem matchCodes_chained : Range.Chained 3 matchCodes.toList 131075 := by decide +kernel

theorem offsetCodes_chained : Range.Chained 1 offsetCodes.toList (2 ^ 32) := by decide +kernel

theorem Range.Chained.last {a b n : Nat} {l : List Range} (h : Chained a l b) (ha : a ≤ n)
    (hb : n < b) :
    ∃ i r, (l.takeWhile (·.base ≤ n)).length = i + 1 ∧ l[i]? = some r ∧ r.base ≤ n ∧
      n < r.base + 2 ^ r.bits := by
  induction l generalizing a with
  | nil => exact absurd (h ▸ ha) (Nat.not_le.2 hb)
  | cons r l ih =>
    obtain ⟨rfl, hrest⟩ := h
    rw [List.takeWhile_cons, if_pos (decide_eq_true ha)]
    by_cases hn : n < r.base + 2 ^ r.bits
    · refine ⟨0, r, ?_, rfl, ha, hn⟩
      cases l with
      | nil => rfl
      | cons r' l =>
        rw [List.takeWhile_cons, if_neg (by rw [hrest.1]; simpa using hn)]
        rfl
    · obtain ⟨i, r', hlength, hat, hbound⟩ := ih hrest (Nat.le_of_not_lt hn)
      exact ⟨i + 1, r', by rw [List.length_cons, hlength], hat, hbound⟩

/-- A code of its kind stands for `n`, with some extra bits. -/
structure CodeKind.Spells (k : CodeKind) (n code : Nat) (range : Range) : Prop where
  code_lt : code < k.ranges.size
  range_eq : k.ranges.getD code ⟨0, 0⟩ = range
  base_le : range.base ≤ n
  lt_end : n - range.base < 2 ^ range.bits

theorem codeOf_spells {k : CodeKind} {a b n : Nat} (h : Range.Chained a k.ranges.toList b)
    (ha : a ≤ n) (hb : n < b) :
    k.Spells n (codeOf k n).1 (codeOf k n).2 := by
  obtain ⟨i, r, hlength, hat, hbase, hend⟩ := h.last ha hb
  have hcode : (codeOf k n).1 = i := by rw [codeOf, hlength, Nat.add_sub_cancel]
  have hrange : k.ranges.getD i ⟨0, 0⟩ = r := by
    rw [Array.getD_eq_getD_getElem?, ← Array.getElem?_toList, hat]
    rfl
  have hcode' : (codeOf k n).2 = r := by
    rw [← hrange, ← hcode]
    rfl
  rw [hcode, hcode']
  refine ⟨?_, hrange, hbase, by omega⟩
  rw [← Array.length_toList]
  exact (List.getElem?_eq_some_iff.1 hat).1

theorem CodeKind.Spells.readNumber {k : CodeKind} {n code m y : Nat} {range : Range}
    (h : k.Spells n code range) {r : BitStream}
    (hr : r.Holds (range.bits + m) ((n - range.base) * 2 ^ m + y)) (hy : y < 2 ^ m) :
    ∃ r', readNumber k ((Fse.Table.single code).entry 0) r = some (n, r') ∧ r'.Holds m y := by
  obtain ⟨r', hread, hr'⟩ := hr.read hy
  refine ⟨r', ?_, hr'⟩
  have hentry : (Fse.Table.single code).entry 0 = ⟨code, 0, 0⟩ := rfl
  rw [Zstd.readNumber, hentry, h.range_eq]
  dsimp only
  rw [hread, Option.map_some, Nat.add_sub_cancel' h.base_le]

theorem CodeKind.Spells.bits_le {k : CodeKind} {n code most : Nat} {range : Range}
    (h : k.Spells n code range) (hk : ∀ r ∈ k.ranges.toList, r.bits ≤ most) :
    range.bits ≤ most := by
  apply hk
  rw [← h.range_eq, Array.getD_eq_getD_getElem?, Array.getElem?_eq_getElem h.code_lt]
  exact Array.getElem_mem_toList h.code_lt

/-- The extra bits of an offset, a length and a number of literals, below a bit that marks their
end. -/
def extraBits (lr or mr : Range) (lits offset length : Nat) : Nat :=
  ((1 <<< or.bits + (offset - or.base)) <<< mr.bits + (length - mr.base)) <<< lr.bits +
    (lits - lr.base)

section

variable {ll ol ml lits offset length : Nat} {lr or mr : Range}

theorem extraBits_low_lt (hl : CodeKind.literals.Spells lits ll lr)
    (hm : CodeKind.lengths.Spells length ml mr) :
    (length - mr.base) * 2 ^ lr.bits + (lits - lr.base) < 2 ^ (mr.bits + lr.bits) := by
  rw [Nat.pow_add, Nat.mul_comm (length - mr.base)]
  exact Nat.mul_add_lt_mul_of_lt_of_lt hm.lt_end hl.lt_end

theorem extraBits_all_lt (hl : CodeKind.literals.Spells lits ll lr)
    (ho : CodeKind.offsets.Spells offset ol or) (hm : CodeKind.lengths.Spells length ml mr) :
    (offset - or.base) * 2 ^ (mr.bits + lr.bits) +
      ((length - mr.base) * 2 ^ lr.bits + (lits - lr.base)) <
      2 ^ (or.bits + (mr.bits + lr.bits)) := by
  rw [Nat.pow_add _ or.bits, Nat.mul_comm (offset - or.base)]
  exact Nat.mul_add_lt_mul_of_lt_of_lt ho.lt_end (extraBits_low_lt hl hm)

theorem extraBits_eq (lr or mr : Range) (lits offset length : Nat) :
    extraBits lr or mr lits offset length = 2 ^ (or.bits + (mr.bits + lr.bits)) +
      ((offset - or.base) * 2 ^ (mr.bits + lr.bits) +
        ((length - mr.base) * 2 ^ lr.bits + (lits - lr.base))) := by
  rw [extraBits, Nat.shiftLeft_eq, Nat.shiftLeft_eq, Nat.shiftLeft_eq]
  ring

theorem log2_extraBits_lt (hl : CodeKind.literals.Spells lits ll lr)
    (ho : CodeKind.offsets.Spells offset ol or) (hm : CodeKind.lengths.Spells length ml mr) :
    (extraBits lr or mr lits offset length).log2 < 64 := by
  have hlr : lr.bits ≤ 16 := hl.bits_le (by decide +kernel)
  have hor : or.bits ≤ 31 := ho.bits_le (by decide +kernel)
  have hmr : mr.bits ≤ 16 := hm.bits_le (by decide +kernel)
  have hall := extraBits_all_lt hl ho hm
  have htop : 2 ^ (or.bits + (mr.bits + lr.bits)) ≤ 2 ^ 63 :=
    Nat.pow_le_pow_right (by decide) (by omega)
  rw [extraBits_eq, Nat.log2_lt (by positivity)]
  omega

/-- One sequence is read back from its three codes and the extra bits of them. -/
theorem decodeSequences_codes (hl : CodeKind.literals.Spells lits ll lr)
    (ho : CodeKind.offsets.Spells offset ol or) (hm : CodeKind.lengths.Spells length ml mr) :
    decodeSequences ⟨.single ll, .single ol, .single ml⟩ 1
        (LittleEndian.ofNat ((extraBits lr or mr lits offset length).log2 / 8 + 1)
          (extraBits lr or mr lits offset length)) =
      .ok #[⟨lits, offset, length⟩] := by
  obtain ⟨r, hstream, hr⟩ := BitStream.ofBytes?_ofNat (extraBits_all_lt hl ho hm)
  obtain ⟨r₁, hoffset, hr₁⟩ := ho.readNumber hr (extraBits_low_lt hl hm)
  obtain ⟨r₂, hlength, hr₂⟩ := hm.readNumber hr₁ hl.lt_end
  obtain ⟨r₃, hlits, hr₃⟩ := hl.readNumber (m := 0) (y := 0) (by simpa using hr₂) Nat.one_pos
  rw [extraBits_eq]
  simp only [decodeSequences, hstream, BitStream.read?_single, readSequences, hoffset, hlength,
    hlits, hr₃.left, if_true]
  rfl

end

end Zstd
end Locksmith
