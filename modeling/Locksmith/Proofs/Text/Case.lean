import Locksmith.Proofs.Text.Utf8
import Locksmith.Text.Case

namespace Locksmith

namespace CaseRun

/-- Whether the run covers no code point from `lo` to `hi`; if `even`, only those count that lie
an even distance from `lo`. -/
def avoids (q : CaseRun) (lo hi : Nat) (even : Bool) : Bool :=
  Nat.blt hi q.first || Nat.blt q.last lo ||
    (even && Nat.beq q.step 2 && Nat.beq ((lo + q.first) % 2) 1)

def isSettled (runs : List CaseRun) (r : CaseRun) : Bool :=
  match (r.first + r.shift).toNat, (r.last + r.shift).toNat,
    Nat.beq r.step 2 || Nat.beq r.first r.last with
  | lo, hi, even => runs.all fun q => q.avoids lo hi even

/-- Whether the run gives characters, and of ASCII takes lower-case letters and gives upper-case
ones only. -/
def isProper (r : CaseRun) : Bool :=
  0 ≤ r.first + r.shift &&
  (r.last + r.shift < 0xD800 || (0xDFFF < r.first + r.shift && r.last + r.shift < 0x110000)) &&
  (128 ≤ r.first + r.shift || (65 ≤ r.first + r.shift && r.last + r.shift ≤ 90)) &&
  (128 ≤ r.first || (97 ≤ r.first && r.last ≤ 122))

theorem isSettled_upper : upper.all (isSettled upper) = true := by
  decide +kernel

theorem isProper_upper : upper.all isProper = true := by
  decide +kernel

theorem not_covers_of_avoids {q : CaseRun} {lo hi c : Nat} {even : Bool}
    (h : q.avoids lo hi even = true) (hlo : lo ≤ c) (hhi : c ≤ hi)
    (heven : even = true → (c - lo) % 2 = 0) : q.covers c = false := by
  simp only [avoids, Nat.blt_eq, Bool.or_eq_true, Bool.and_eq_true, Nat.beq_eq] at h
  rw [covers, Bool.and_eq_false_iff, Bool.and_eq_false_iff]
  rcases h with (h | h) | ⟨⟨he, hs⟩, hp⟩
  · exact .inl (.inl (decide_eq_false (by omega)))
  · exact .inl (.inr (decide_eq_false (by omega)))
  · by_cases hq : q.first ≤ c
    · refine .inr (beq_false_of_ne ?_)
      rw [hs]
      have := heven he
      omega
    · exact .inl (.inl (decide_eq_false hq))

/-- A code point stays where it is, or goes to a character that stays. -/
theorem apply_upper_cases (c : Nat) :
    apply upper c = c ∨
      apply upper (apply upper c) = apply upper c ∧ (apply upper c).isValidChar ∧
        (128 ≤ apply upper c ∨ 65 ≤ apply upper c ∧ apply upper c ≤ 90) ∧
        (128 ≤ c ∨ 97 ≤ c ∧ c ≤ 122) := by
  cases hf : upper.find? (·.covers c) with
  | none => exact .inl (by rw [apply, hf])
  | some r =>
    have hc : r.covers c = true := by simpa using List.find?_some hf
    have hmem := List.mem_of_find?_eq_some hf
    have hproper := List.all_eq_true.1 isProper_upper r hmem
    have hsettled := List.all_eq_true.1 isSettled_upper r hmem
    have hd : apply upper c = (c + r.shift).toNat := by rw [apply, hf]
    simp only [covers, Bool.and_eq_true, decide_eq_true_eq, beq_iff_eq] at hc
    simp only [isProper, Bool.and_eq_true, Bool.or_eq_true, decide_eq_true_eq] at hproper
    refine .inr ⟨?_, ?_, ?_, ?_⟩
    · have hnone : upper.find? (·.covers (apply upper c)) = none := by
        refine List.find?_eq_none.2 fun q hq => ?_
        have havoids := List.all_eq_true.1 hsettled q hq
        rw [hd, not_covers_of_avoids havoids (by omega) (by omega)]
        · exact Bool.false_ne_true
        · intro heven
          rw [Bool.or_eq_true, Nat.beq_eq, Nat.beq_eq] at heven
          rcases heven with hstep | hsame
          · rw [hstep] at hc
            omega
          · omega
      rw [apply, hnone]
    · rw [hd]
      simp only [Nat.isValidChar]
      omega
    · omega
    · omega

end CaseRun

namespace Case

theorem toNat_upperChar (c : Char) :
    (upperChar c).toNat = CaseRun.apply CaseRun.upper c.toNat := by
  rcases CaseRun.apply_upper_cases c.toNat with h | ⟨-, h, -⟩
  · rw [upperChar, h, Char.ofNat_toNat]
  · rw [upperChar, Utf8.toNat_ofNat h]

theorem upperChar_upperChar (c : Char) : upperChar (upperChar c) = upperChar c := by
  refine congrArg Char.ofNat ?_
  rw [toNat_upperChar]
  rcases CaseRun.apply_upper_cases c.toNat with h | ⟨h, -⟩
  · rw [h, h]
  · exact h

/-- What upper case changes is no ASCII but a letter, and becomes none but a letter. -/
theorem upperChar_cases (c : Char) :
    upperChar c = c ∨
      (128 ≤ (upperChar c).toNat ∨ 65 ≤ (upperChar c).toNat ∧ (upperChar c).toNat ≤ 90) ∧
        (128 ≤ c.toNat ∨ 97 ≤ c.toNat ∧ c.toNat ≤ 122) := by
  rw [toNat_upperChar]
  rcases CaseRun.apply_upper_cases c.toNat with h | ⟨-, -, h⟩
  · exact .inl (by rw [upperChar, h, Char.ofNat_toNat])
  · exact .inr h

end Case

namespace Bytes

theorem toUpper_toUpper (s : Bytes) : s.toUpper.toUpper = s.toUpper := by
  rw [toUpper, Utf8.mapChars, toUpper, Utf8.decode_mapChars, List.flatMap_map]
  simp only [Symbol.toChar, Case.upperChar_upperChar]
  rfl

theorem toUpper_eq_self {s : Bytes} (h : ∀ b ∈ s, 65 ≤ b.toNat ∧ b.toNat ≤ 90) :
    s.toUpper = s := by
  rw [toUpper, Utf8.mapChars, Utf8.decode_of_ascii fun b hb => by have := h b hb; omega,
    List.flatMap_map]
  induction s with
  | nil => rfl
  | cons b s ih =>
    have hb := h b (List.mem_cons_self ..)
    have hnat : (Char.ofNat b.toNat).toNat = b.toNat :=
      Utf8.toNat_ofNat (by rw [Nat.isValidChar]; omega)
    have hupper : Case.upperChar (Char.ofNat b.toNat) = Char.ofNat b.toNat := by
      rcases Case.upperChar_cases (Char.ofNat b.toNat) with h | ⟨-, h⟩
      · exact h
      · omega
    rw [List.flatMap_cons, ih fun c hc => h c (List.mem_cons_of_mem b hc)]
    change String.utf8EncodeChar (Case.upperChar (Char.ofNat b.toNat)) ++ s = _
    rw [hupper, Utf8.utf8EncodeChar_ascii (by omega), hnat, UInt8.ofNat_toNat]
    rfl

def isMark (b : UInt8) : Bool := b.toNat < 128 && !isLetter b

theorem isMark_of_not_ascii {b : UInt8} (h : 128 ≤ b.toNat) : isMark b = false := by
  rw [isMark, decide_eq_false (Nat.not_lt.2 h), Bool.false_and]

/-- The texts have the same marks, with something between them in one where there is in the
other. -/
inductive Recased : Bytes → Bytes → Prop
  | nil : Recased [] []
  | mark {b : UInt8} {s t : Bytes} (hb : isMark b = true) (h : Recased s t) :
      Recased (b :: s) (b :: t)
  | other {xs ys s t : Bytes} (hx : xs ≠ []) (hy : ys ≠ []) (hxs : ∀ b ∈ xs, isMark b = false)
      (hys : ∀ b ∈ ys, isMark b = false) (h : Recased s t) : Recased (xs ++ s) (ys ++ t)

theorem utf8EncodeChar_not_mark {c : Char} (h : 128 ≤ c.toNat ∨ 65 ≤ c.toNat ∧ c.toNat ≤ 90) :
    ∀ b ∈ String.utf8EncodeChar c, isMark b = false := by
  rcases h with h | h
  · exact fun b hb => isMark_of_not_ascii (Utf8.utf8EncodeChar_not_ascii h b hb)
  · rw [Utf8.utf8EncodeChar_ascii (by omega)]
    intro b hb
    obtain rfl := List.mem_singleton.1 hb
    have hn : (UInt8.ofNat c.toNat).toNat = c.toNat := Utf8.toNat_byte (by omega)
    simp [isMark, isLetter, UInt8.le_iff_toNat_le, hn]
    omega

theorem recased_toUpper (s : Bytes) : Recased s s.toUpper := by
  induction hn : s.length using Nat.strongRecOn generalizing s with
  | ind n ih =>
    rcases s with _ | ⟨a, r⟩
    · exact .nil
    have hupper : toUpper (a :: r) =
        String.utf8EncodeChar (Case.upperChar (Utf8.lead a r).1.toChar) ++
          toUpper (r.drop (Utf8.lead a r).2) := by
      rw [toUpper, Utf8.mapChars, Utf8.decode_cons, List.flatMap_cons]
      rfl
    have hrest : Recased (r.drop (Utf8.lead a r).2) (toUpper (r.drop (Utf8.lead a r).2)) := by
      refine ih _ ?_ _ rfl
      subst hn
      simp only [List.length_drop, List.length_cons]
      omega
    have hne (c : Char) : String.utf8EncodeChar c ≠ [] := String.utf8EncodeChar_ne_nil
    by_cases ha : a.toNat < 128
    · rw [Utf8.lead_ascii ha] at hupper hrest
      rw [hupper]
      simp only [Symbol.toChar, List.drop_zero] at hrest ⊢
      have hnat : (Char.ofNat a.toNat).toNat = a.toNat :=
        Utf8.toNat_ofNat (by rw [Nat.isValidChar]; omega)
      rcases Case.upperChar_cases (Char.ofNat a.toNat) with h | ⟨h, hlower⟩
      · rw [h, Utf8.utf8EncodeChar_ascii (by omega), hnat, UInt8.ofNat_toNat]
        rcases hmark : isMark a with _ | _
        · have hone : ∀ b ∈ [a], isMark b = false := by simpa using hmark
          exact Recased.other (List.cons_ne_nil a []) (List.cons_ne_nil a []) hone hone hrest
        · exact .mark hmark hrest
      · have hletter : isMark a = false := by
          simp [isMark, isLetter, UInt8.le_iff_toNat_le]
          omega
        have hone : ∀ b ∈ [a], isMark b = false := by simpa using hletter
        exact Recased.other (List.cons_ne_nil a []) (hne _) hone
          (utf8EncodeChar_not_mark h) hrest
    · rw [hupper]
      have hsplit : a :: r = (a :: r.take (Utf8.lead a r).2) ++ r.drop (Utf8.lead a r).2 := by
        rw [List.cons_append, List.take_append_drop]
      have hlead := Utf8.lead_not_ascii (Nat.not_lt.1 ha) r
      rw [hsplit]
      refine .other (List.cons_ne_nil _ _) (hne _) ?_ ?_ hrest
      · intro b hb
        rcases List.mem_cons.1 hb with rfl | hb
        · exact isMark_of_not_ascii (Nat.not_lt.1 ha)
        · exact isMark_of_not_ascii (Utf8.lead_tail a r b hb)
      · refine utf8EncodeChar_not_mark ?_
        rcases Case.upperChar_cases (Utf8.lead a r).1.toChar with h | ⟨h, -⟩
        · rw [h]
          exact .inl hlead
        · exact h

end Bytes
end Locksmith
