import Mathlib
import Locksmith.Text.Utf8

namespace Locksmith
namespace Utf8

theorem isTail_iff {b : UInt8} : isTail b = true ↔ 128 ≤ b.toNat ∧ b.toNat ≤ 191 := by
  simp [isTail, UInt8.le_iff_toNat_le]

theorem isPair_iff {a b : UInt8} :
    isPair a b = true ↔ 194 ≤ a.toNat ∧ a.toNat ≤ 223 ∧ isTail b = true := by
  simp [isPair, UInt8.le_iff_toNat_le, and_assoc]

theorem isTriple_iff {a b c : UInt8} :
    isTriple a b c = true ↔ 224 ≤ a.toNat ∧ a.toNat ≤ 239 ∧ isTail b = true ∧ isTail c = true ∧
      (a.toNat = 224 → 160 ≤ b.toNat) ∧ (a.toNat = 237 → b.toNat ≤ 159) := by
  simp [isTriple, UInt8.le_iff_toNat_le, UInt8.lt_iff_toNat_lt, ← UInt8.toNat_inj, and_assoc,
    imp_iff_not_or]

theorem isQuad_iff {a b c d : UInt8} :
    isQuad a b c d = true ↔ 240 ≤ a.toNat ∧ a.toNat ≤ 244 ∧ isTail b = true ∧ isTail c = true ∧
      isTail d = true ∧ (a.toNat = 240 → 144 ≤ b.toNat) ∧ (a.toNat = 244 → b.toNat ≤ 143) := by
  simp [isQuad, UInt8.le_iff_toNat_le, UInt8.lt_iff_toNat_lt, ← UInt8.toNat_inj, and_assoc,
    imp_iff_not_or]

theorem decodeAfter_eq (k : Nat) (s : Bytes) : decodeAfter k s = decode (s.drop k) := by
  induction s generalizing k with
  | nil => cases k <;> simp [decodeAfter, decode]
  | cons a r ih =>
    cases k with
    | zero => rfl
    | succ k => exact ih k

theorem decode_cons (a : UInt8) (r : Bytes) :
    decode (a :: r) = (lead a r).1 :: decode (r.drop (lead a r).2) := by
  rw [decode, decodeAfter, decodeAfter_eq]

theorem lead_ascii {a : UInt8} (h : a.toNat < 128) (r : Bytes) :
    lead a r = (.char (Char.ofNat a.toNat), 0) := by
  rw [lead.eq_def, if_pos (UInt8.lt_iff_toNat_lt.2 h)]

theorem decode_ascii {a : UInt8} (h : a.toNat < 128) (r : Bytes) :
    decode (a :: r) = .char (Char.ofNat a.toNat) :: decode r := by
  rw [decode_cons, lead_ascii h]
  rfl

/-- The bytes that belong to a symbol after its first are not ASCII. -/
theorem lead_tail (a : UInt8) (r : Bytes) : ∀ b ∈ r.take (lead a r).2, 128 ≤ b.toNat := by
  have hpair {a b : UInt8} (h : isPair a b = true) : 128 ≤ b.toNat :=
    (isTail_iff.1 (isPair_iff.1 h).2.2).1
  have htriple {a b c : UInt8} (h : isTriple a b c = true) : 128 ≤ b.toNat ∧ 128 ≤ c.toNat := by
    obtain ⟨-, -, hb, hc, -⟩ := isTriple_iff.1 h
    exact ⟨(isTail_iff.1 hb).1, (isTail_iff.1 hc).1⟩
  have hquad {a b c d : UInt8} (h : isQuad a b c d = true) :
      128 ≤ b.toNat ∧ 128 ≤ c.toNat ∧ 128 ≤ d.toNat := by
    obtain ⟨-, -, hb, hc, hd, -⟩ := isQuad_iff.1 h
    exact ⟨(isTail_iff.1 hb).1, (isTail_iff.1 hc).1, (isTail_iff.1 hd).1⟩
  fun_cases lead a r with
  | case2 b c d r _ h => simpa using hpair h
  | case3 b c d r _ _ h => simpa using htriple h
  | case4 b c d r _ _ _ h => simpa using hquad h
  | case6 b c _ h => simpa using hpair h
  | case7 b c _ _ h => simpa using htriple h
  | case9 b _ h => simpa using hpair h
  | _ => exact fun _ hb => absurd hb List.not_mem_nil

theorem lead_pair {a b : UInt8} (h : isPair a b = true) (r : Bytes) :
    lead a (b :: r) = (.char (Char.ofNat (a.toNat % 32 * 64 + tail b)), 1) := by
  have ha : ¬a < 0x80 := by
    have := isPair_iff.1 h
    simp [UInt8.lt_iff_toNat_lt]
    omega
  rcases r with _ | ⟨c, _ | ⟨d, r⟩⟩
  · simp [lead, ha, h]
  · simp [lead, ha, h]
  · simp [lead, ha, h]

theorem lead_triple {a b c : UInt8} (h : isTriple a b c = true) (r : Bytes) :
    lead a (b :: c :: r) =
      (.char (Char.ofNat ((a.toNat % 16 * 64 + tail b) * 64 + tail c)), 2) := by
  have htriple := isTriple_iff.1 h
  have ha : ¬a < 0x80 := by
    simp [UInt8.lt_iff_toNat_lt]
    omega
  have hpair : isPair a b = false := by
    rw [Bool.eq_false_iff, ne_eq, isPair_iff]
    omega
  rcases r with _ | ⟨d, r⟩
  · simp [lead, ha, hpair, h]
  · simp [lead, ha, hpair, h]

theorem lead_quad {a b c d : UInt8} (h : isQuad a b c d = true) (r : Bytes) :
    lead a (b :: c :: d :: r) =
      (.char (Char.ofNat (((a.toNat % 8 * 64 + tail b) * 64 + tail c) * 64 + tail d)), 3) := by
  have hquad := isQuad_iff.1 h
  have ha : ¬a < 0x80 := by
    simp [UInt8.lt_iff_toNat_lt]
    omega
  have hpair : isPair a b = false := by
    rw [Bool.eq_false_iff, ne_eq, isPair_iff]
    omega
  have htriple : isTriple a b c = false := by
    rw [Bool.eq_false_iff, ne_eq, isTriple_iff]
    omega
  simp [lead, ha, hpair, htriple, h]

theorem toNat_byte {n : Nat} (h : n < 256) : (UInt8.ofNat n).toNat = n :=
  UInt8.toNat_ofNat_of_lt h

/-- A written character is read back. -/
theorem decode_utf8EncodeChar (c : Char) (r : Bytes) :
    decode (String.utf8EncodeChar c ++ r) = .char c :: decode r := by
  have hvalid : c.toNat.isValidChar := c.valid
  have hchar {n : Nat} (h : n = c.toNat) : Symbol.char (Char.ofNat n) = .char c := by
    rw [h, Char.ofNat_toNat]
  have henc : String.utf8EncodeChar c =
      if c.toNat ≤ 127 then [UInt8.ofNat c.toNat]
      else if c.toNat ≤ 2047 then
        [UInt8.ofNat (c.toNat / 64 % 32 + 192), UInt8.ofNat (c.toNat % 64 + 128)]
      else if c.toNat ≤ 65535 then
        [UInt8.ofNat (c.toNat / 4096 % 16 + 224), UInt8.ofNat (c.toNat / 64 % 64 + 128),
          UInt8.ofNat (c.toNat % 64 + 128)]
      else
        [UInt8.ofNat (c.toNat / 262144 % 8 + 240), UInt8.ofNat (c.toNat / 4096 % 64 + 128),
          UInt8.ofNat (c.toNat / 64 % 64 + 128), UInt8.ofNat (c.toNat % 64 + 128)] := rfl
  rw [Nat.isValidChar] at hvalid
  rw [henc]
  split
  · have hn := toNat_byte (n := c.toNat) (by omega)
    rw [List.singleton_append, decode_ascii (by omega), hn, hchar rfl]
  split
  · have ha := toNat_byte (n := c.toNat / 64 % 32 + 192) (by omega)
    have hb := toNat_byte (n := c.toNat % 64 + 128) (by omega)
    rw [List.cons_append, List.singleton_append, decode_cons, lead_pair, hchar]
    · rfl
    · rw [tail, ha, hb]
      omega
    · rw [isPair_iff, isTail_iff, ha, hb]
      omega
  split
  · have ha := toNat_byte (n := c.toNat / 4096 % 16 + 224) (by omega)
    have hb := toNat_byte (n := c.toNat / 64 % 64 + 128) (by omega)
    have hc := toNat_byte (n := c.toNat % 64 + 128) (by omega)
    rw [List.cons_append, List.cons_append, List.singleton_append, decode_cons,
      lead_triple, hchar]
    · rfl
    · rw [tail, tail, ha, hb, hc]
      omega
    · rw [isTriple_iff, isTail_iff, isTail_iff, ha, hb, hc]
      omega
  · have ha := toNat_byte (n := c.toNat / 262144 % 8 + 240) (by omega)
    have hb := toNat_byte (n := c.toNat / 4096 % 64 + 128) (by omega)
    have hc := toNat_byte (n := c.toNat / 64 % 64 + 128) (by omega)
    have hd := toNat_byte (n := c.toNat % 64 + 128) (by omega)
    rw [List.cons_append, List.cons_append, List.cons_append, List.singleton_append,
      decode_cons, lead_quad, hchar]
    · rfl
    · rw [tail, tail, tail, ha, hb, hc, hd]
      omega
    · rw [isQuad_iff, isTail_iff, isTail_iff, isTail_iff, ha, hb, hc, hd]
      omega

theorem isValidChar_of_isTriple {a b c : UInt8} (h : isTriple a b c = true) :
    2048 ≤ (a.toNat % 16 * 64 + tail b) * 64 + tail c ∧
      ((a.toNat % 16 * 64 + tail b) * 64 + tail c).isValidChar := by
  obtain ⟨ha, ha', hb, hc, hlow, hhigh⟩ := isTriple_iff.1 h
  rw [isTail_iff] at hb hc
  rw [tail, tail, Nat.isValidChar]
  omega

theorem isValidChar_of_isQuad {a b c d : UInt8} (h : isQuad a b c d = true) :
    65536 ≤ ((a.toNat % 8 * 64 + tail b) * 64 + tail c) * 64 + tail d ∧
      (((a.toNat % 8 * 64 + tail b) * 64 + tail c) * 64 + tail d).isValidChar := by
  obtain ⟨ha, ha', hb, hc, hd, hlow, hhigh⟩ := isQuad_iff.1 h
  rw [isTail_iff] at hb hc hd
  rw [tail, tail, tail, Nat.isValidChar]
  omega

theorem isValidChar_of_isPair {a b : UInt8} (h : isPair a b = true) :
    128 ≤ a.toNat % 32 * 64 + tail b ∧ (a.toNat % 32 * 64 + tail b).isValidChar := by
  obtain ⟨ha, ha', hb⟩ := isPair_iff.1 h
  rw [isTail_iff] at hb
  rw [tail, Nat.isValidChar]
  omega

theorem toNat_ofNat {n : Nat} (h : n.isValidChar) : (Char.ofNat n).toNat = n := by
  rw [Char.ofNat, dif_pos h]
  rfl

/-- A symbol that does not start with an ASCII byte is no ASCII character. -/
theorem lead_not_ascii {a : UInt8} (h : 128 ≤ a.toNat) (r : Bytes) :
    128 ≤ (lead a r).1.toChar.toNat := by
  have hpair {b : UInt8} (h : isPair a b = true) :
      128 ≤ (Char.ofNat (a.toNat % 32 * 64 + tail b)).toNat := by
    obtain ⟨hle, hvalid⟩ := isValidChar_of_isPair h
    rwa [toNat_ofNat hvalid]
  have htriple {b c : UInt8} (h : isTriple a b c = true) :
      128 ≤ (Char.ofNat ((a.toNat % 16 * 64 + tail b) * 64 + tail c)).toNat := by
    obtain ⟨hle, hvalid⟩ := isValidChar_of_isTriple h
    rw [toNat_ofNat hvalid]
    omega
  have hquad {b c d : UInt8} (h : isQuad a b c d = true) :
      128 ≤ (Char.ofNat (((a.toNat % 8 * 64 + tail b) * 64 + tail c) * 64 + tail d)).toNat := by
    obtain ⟨hle, hvalid⟩ := isValidChar_of_isQuad h
    rw [toNat_ofNat hvalid]
    omega
  have hstray : 128 ≤ Symbol.replacement.toNat := by decide
  fun_cases lead a r with
  | case1 =>
    rename_i ha
    rw [UInt8.lt_iff_toNat_lt] at ha
    exact absurd ha (Nat.not_lt.2 h)
  | case2 b c d r _ h => exact hpair h
  | case3 b c d r _ _ h => exact htriple h
  | case4 b c d r _ _ _ h => exact hquad h
  | case6 b c _ h => exact hpair h
  | case7 b c _ _ h => exact htriple h
  | case9 b _ h => exact hpair h
  | _ => exact hstray

/-- The bytes of a character outside ASCII are not ASCII. -/
theorem utf8EncodeChar_not_ascii {c : Char} (h : 128 ≤ c.toNat) :
    ∀ b ∈ String.utf8EncodeChar c, 128 ≤ b.toNat := by
  have hbyte {n : Nat} (h : 128 ≤ n) (h' : n < 256) : 128 ≤ (UInt8.ofNat n).toNat := by
    rwa [toNat_byte h']
  have hv : ¬c.val.toNat ≤ 127 := by
    change ¬c.toNat ≤ 127
    omega
  unfold String.utf8EncodeChar
  simp only [if_neg hv]
  split
  · simp only [List.mem_cons, List.not_mem_nil, or_false, forall_eq_or_imp, forall_eq]
    exact ⟨hbyte (by omega) (by omega), hbyte (by omega) (by omega)⟩
  split
  · simp only [List.mem_cons, List.not_mem_nil, or_false, forall_eq_or_imp, forall_eq]
    exact ⟨hbyte (by omega) (by omega), hbyte (by omega) (by omega),
      hbyte (by omega) (by omega)⟩
  · simp only [List.mem_cons, List.not_mem_nil, or_false, forall_eq_or_imp, forall_eq]
    exact ⟨hbyte (by omega) (by omega), hbyte (by omega) (by omega),
      hbyte (by omega) (by omega), hbyte (by omega) (by omega)⟩

theorem utf8EncodeChar_ascii {c : Char} (h : c.toNat < 128) :
    String.utf8EncodeChar c = [UInt8.ofNat c.toNat] := by
  have hv : c.val.toNat ≤ 127 := by
    change c.toNat ≤ 127
    omega
  unfold String.utf8EncodeChar
  simp only [if_pos hv]
  rfl

theorem decode_flatMap (f : Symbol → Char) (xs : List Symbol) :
    decode (xs.flatMap fun x => String.utf8EncodeChar (f x)) = xs.map fun x => .char (f x) := by
  induction xs with
  | nil => rfl
  | cons x xs ih => rw [List.flatMap_cons, decode_utf8EncodeChar, ih, List.map_cons]

theorem decode_mapChars (f : Char → Char) (s : Bytes) :
    decode (mapChars f s) = (decode s).map fun x => .char (f x.toChar) :=
  decode_flatMap _ _

/-- An ASCII byte of a text is a symbol of it. -/
theorem mem_decode_of_mem {s : Bytes} {b : UInt8} (hb : b ∈ s) (h : b.toNat < 128) :
    Symbol.char (Char.ofNat b.toNat) ∈ decode s := by
  induction hn : s.length using Nat.strongRecOn generalizing s with
  | ind n ih =>
    rcases s with _ | ⟨a, r⟩
    · cases hb
    rw [decode_cons, List.mem_cons]
    rcases List.mem_cons.1 hb with rfl | hb
    · rw [lead_ascii h]
      exact .inl rfl
    · rw [← List.take_append_drop (lead a r).2 r, List.mem_append] at hb
      rcases hb with hb | hb
      · exact absurd h (Nat.not_lt.2 (lead_tail a r b hb))
      · refine .inr (ih (r.drop (lead a r).2).length ?_ hb rfl)
        subst hn
        simp only [List.length_drop, List.length_cons]
        omega

theorem decode_of_ascii {s : Bytes} (h : ∀ b ∈ s, b.toNat < 128) :
    decode s = s.map fun b => .char (Char.ofNat b.toNat) := by
  induction s with
  | nil => rfl
  | cons a r ih =>
    rw [decode_ascii (h a (List.mem_cons_self ..)),
      ih fun b hb => h b (List.mem_cons_of_mem a hb), List.map_cons]

theorem encode_of_ascii {s : Bytes} (h : ∀ b ∈ s, b.toNat < 128) :
    encode (s.map fun b => .char (Char.ofNat b.toNat)) = s := by
  induction s with
  | nil => rfl
  | cons a r ih =>
    have ha := h a (List.mem_cons_self ..)
    have hnat : (Char.ofNat a.toNat).toNat = a.toNat :=
      toNat_ofNat (by rw [Nat.isValidChar]; omega)
    have ih := ih fun b hb => h b (List.mem_cons_of_mem a hb)
    rw [encode] at ih ⊢
    rw [List.map_cons, List.flatMap_cons, ih]
    simp only [Symbol.bytes]
    rw [utf8EncodeChar_ascii (by omega), hnat, UInt8.ofNat_toNat]
    rfl

end Utf8
end Locksmith
