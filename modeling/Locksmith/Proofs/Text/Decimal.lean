import Locksmith.Proofs.Text.Utf8
import Locksmith.Dbref

namespace Locksmith
namespace Decimal

theorem toNat_digit {n : Nat} (h : n < 10) : ((48 + n).toUInt8).toNat = 48 + n :=
  Utf8.toNat_byte (by omega)

theorem isDigit_digit {n : Nat} (h : n < 10) : Bytes.isDigit (48 + n).toUInt8 = true := by
  simp only [Bytes.isDigit, UInt8.le_iff_toNat_le, toNat_digit h, Bool.and_eq_true,
    decide_eq_true_eq]
  change 48 ≤ 48 + n ∧ 48 + n ≤ 57
  omega

theorem isDigit_of_mem_ofNat {n : Nat} {b : UInt8} (h : b ∈ ofNat n) :
    Bytes.isDigit b = true := by
  fun_induction ofNat n with
  | case1 n hn =>
    obtain rfl := List.mem_singleton.1 h
    exact isDigit_digit hn
  | case2 n hn ih =>
    rcases List.mem_append.1 h with h | h
    · exact ih h
    · obtain rfl := List.mem_singleton.1 h
      exact isDigit_digit (Nat.mod_lt n (by decide))

theorem ofNat_ne_nil (n : Nat) : ofNat n ≠ [] := by
  rw [ofNat]
  split
  · exact List.cons_ne_nil _ _
  · exact List.append_ne_nil_of_right_ne_nil _ (List.cons_ne_nil _ _)

theorem readDigits_append (acc : Nat) (s t : Bytes) :
    readDigits acc (s ++ t) = readDigits acc s >>= fun n => readDigits n t := by
  induction s generalizing acc with
  | nil => rfl
  | cons b s ih =>
    rw [List.cons_append, readDigits, readDigits]
    split
    · rfl
    · simp only
      split
      · exact ih _
      · rfl

theorem readDigits_digit (acc : Nat) {n : Nat} (h : n < 10)
    (hlimit : acc * 10 + n < unsignedLimit) :
    readDigits acc [(48 + n).toUInt8] = .ok (acc * 10 + n) := by
  have hn : acc * 10 + ((48 + n).toUInt8.toNat - 48) = acc * 10 + n := by
    rw [toNat_digit h]
    omega
  rw [readDigits, isDigit_digit h]
  simp only [hn, if_pos hlimit, readDigits, Bool.not_true, Bool.false_eq_true, if_false]

theorem readDigits_ofNat {n : Nat} (h : n < unsignedLimit) :
    readDigits 0 (ofNat n) = .ok n := by
  fun_induction ofNat n with
  | case1 n hn =>
    have := readDigits_digit 0 hn (by omega)
    rwa [Nat.zero_mul, Nat.zero_add] at this
  | case2 n hn ih =>
    have hdiv : n / 10 * 10 + n % 10 = n := by omega
    rw [readDigits_append, ih (by omega)]
    have := readDigits_digit (n / 10) (Nat.mod_lt n (by decide)) (by omega)
    rwa [hdiv] at this

theorem readNat_ofNat {n : Nat} (h : n < unsignedLimit) : readNat (ofNat n) = .ok n := by
  rw [readNat, if_neg (by simpa using ofNat_ne_nil n), readDigits_ofNat h]

theorem readInt64_ofInt (x : Int64) : readInt64 (ofInt x.toInt) = .ok x := by
  have hle := x.le_toInt
  have hlt := x.toInt_lt
  have hx : Int64.ofInt x.toInt = x := Int64.ofInt_toInt x
  rcases hi : x.toInt with n | n
  · rw [hi] at hlt hx
    have hn : n < signedLimit := Int.ofNat_lt.1 hlt
    have hread : readNat (ofNat n) = .ok n := readNat_ofNat (Nat.lt_trans hn (by decide))
    have hhead {b : UInt8} {r : Bytes} (he : ofNat n = b :: r) : Bytes.isDigit b = true :=
      isDigit_of_mem_ofNat (he ▸ List.mem_cons_self ..)
    rw [ofInt]
    unfold readInt64
    split
    · rename_i he
      cases hhead he
    · rename_i he
      cases hhead he
    · rw [hread]
      change (if n < signedLimit then Except.ok (Int64.ofNat n) else .error Error.outOfRange) =
        _
      rw [if_pos hn, ← hx]
      rfl
  · rw [hi] at hle hx
    have hn : n + 1 ≤ signedLimit := by
      rw [signedLimit]
      omega
    have hread : readNat (ofNat (n + 1)) = .ok (n + 1) :=
      readNat_ofNat (Nat.lt_of_le_of_lt hn (by decide))
    rw [ofInt, readInt64, hread]
    change (if n + 1 ≤ signedLimit then Except.ok (Int64.ofInt (-((n + 1 : Nat) : Int)))
      else .error Error.outOfRange) = _
    rw [if_pos hn, ← hx]
    rfl

def isNumeral (b : UInt8) : Bool := b == 43 || b == 45 || Bytes.isDigit b

theorem isNumeral_of_readDigits {acc n : Nat} {s : Bytes} (h : readDigits acc s = .ok n) :
    ∀ b ∈ s, isNumeral b = true := by
  induction s generalizing acc with
  | nil => exact List.forall_mem_nil _
  | cons b r ih =>
    rw [readDigits] at h
    split at h
    · cases h
    · rename_i hdigit
      dsimp only at h
      split at h
      · rw [Bool.not_eq_true', Bool.not_eq_false] at hdigit
        refine List.forall_mem_cons.2 ⟨?_, ih h⟩
        rw [isNumeral, hdigit, Bool.or_true]
      · cases h

theorem isNumeral_of_readNat {α : Type} {s : Bytes} {f : Nat → Except Error α} {a : α}
    (h : (do let n ← readNat s; f n) = .ok a) : ∀ b ∈ s, isNumeral b = true := by
  rcases hread : readNat s with e | n
  · rw [hread] at h
    cases h
  · rw [readNat] at hread
    split at hread
    · cases hread
    · exact isNumeral_of_readDigits hread

theorem isNumeral_of_readInt64 {s : Bytes} {n : Int64} (h : readInt64 s = .ok n) :
    ∀ b ∈ s, isNumeral b = true := by
  unfold readInt64 at h
  split at h
  · exact List.forall_mem_cons.2 ⟨rfl, isNumeral_of_readNat h⟩
  · exact List.forall_mem_cons.2 ⟨rfl, isNumeral_of_readNat h⟩
  · exact isNumeral_of_readNat h

theorem isNumeral_visible {b : UInt8} (h : isNumeral b = true) :
    33 ≤ b.toNat ∧ b.toNat < 128 := by
  simp [isNumeral, Bytes.isDigit, UInt8.le_iff_toNat_le, ← UInt8.toNat_inj] at h
  omega

end Decimal

namespace Bytes

theorem isBlank_ascii {b : UInt8} (h : 33 ≤ b.toNat) (h' : b.toNat < 128) :
    Symbol.isBlank (.char (Char.ofNat b.toNat)) = false := by
  have hb : (Char.ofNat b.toNat).toNat = b.toNat :=
    Utf8.toNat_ofNat (by rw [Nat.isValidChar]; omega)
  simp [Symbol.isBlank, isBlank, hb]
  omega

theorem trimBlanks_eq_self {s : Bytes} (h : ∀ b ∈ s, 33 ≤ b.toNat ∧ b.toNat < 128) :
    s.trimBlanks = s := by
  have hblank : ∀ x ∈ s.map fun b => Symbol.char (Char.ofNat b.toNat), x.isBlank = false := by
    intro x hx
    obtain ⟨b, hb, rfl⟩ := List.mem_map.1 hx
    exact isBlank_ascii (h b hb).1 (h b hb).2
  have hdrop {l : List Symbol} (hl : ∀ x ∈ l, x.isBlank = false) :
      l.dropWhile Symbol.isBlank = l := by
    rcases l with _ | ⟨x, l⟩
    · rfl
    · rw [List.dropWhile_cons_of_neg (by simp [hl x (List.mem_cons_self ..)])]
  rw [trimBlanks, Utf8.decode_of_ascii fun b hb => (h b hb).2, hdrop hblank,
    hdrop fun x hx => hblank x (List.mem_reverse.1 hx), List.reverse_reverse,
    Utf8.encode_of_ascii fun b hb => (h b hb).2]

end Bytes

namespace Dbref

theorem render_eq (d : Dbref) : d.render = 35 :: Decimal.ofInt d.num.toInt := rfl

/-- Whether a byte may stand in a written reference: `#`, `-` or a digit. -/
def isWritten (b : UInt8) : Bool := b == 35 || b == 45 || Bytes.isDigit b

theorem isWritten_of_mem_render {d : Dbref} {b : UInt8} (h : b ∈ d.render) :
    isWritten b = true := by
  rw [render_eq] at h
  rcases List.mem_cons.1 h with rfl | h
  · rfl
  · rcases hi : d.num.toInt with n | n
    · rw [hi] at h
      rw [isWritten, Decimal.isDigit_of_mem_ofNat h, Bool.or_true]
    · rw [hi] at h
      rcases List.mem_cons.1 h with rfl | h
      · rfl
      · rw [isWritten, Decimal.isDigit_of_mem_ofNat h, Bool.or_true]

theorem trimBlanks_render (d : Dbref) : d.render.trimBlanks = d.render := by
  refine Bytes.trimBlanks_eq_self fun b hb => ?_
  have := isWritten_of_mem_render hb
  simp [isWritten, Bytes.isDigit, UInt8.le_iff_toNat_le, ← UInt8.toNat_inj] at this
  omega

theorem parse_render (d : Dbref) : parse d.render = .ok d := by
  rw [parse, trimBlanks_render, render_eq]
  simp only
  rw [Decimal.readInt64_ofInt]

theorem parse_eq_ok {text : Bytes} {d : Dbref} (h : parse text = .ok d) :
    ∃ digits, text.trimBlanks = 35 :: digits ∧ Decimal.readInt64 digits = .ok d.num := by
  unfold parse at h
  dsimp only at h
  split at h
  · rename_i digits htext
    split at h
    · rename_i n hn
      cases h
      exact ⟨digits, htext, hn⟩
    · cases h
  · cases h

end Dbref
end Locksmith
