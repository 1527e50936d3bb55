import Locksmith.Proofs.Text.Decimal

namespace Locksmith
namespace Utf8

theorem utf8EncodeChar_ofNat {n : Nat} (h : n.isValidChar) :
    String.utf8EncodeChar (Char.ofNat n) =
      if n ≤ 127 then [UInt8.ofNat n]
      else if n ≤ 2047 then [UInt8.ofNat (n / 64 % 32 + 192), UInt8.ofNat (n % 64 + 128)]
      else if n ≤ 65535 then
        [UInt8.ofNat (n / 4096 % 16 + 224), UInt8.ofNat (n / 64 % 64 + 128),
          UInt8.ofNat (n % 64 + 128)]
      else
        [UInt8.ofNat (n / 262144 % 8 + 240), UInt8.ofNat (n / 4096 % 64 + 128),
          UInt8.ofNat (n / 64 % 64 + 128), UInt8.ofNat (n % 64 + 128)] := by
  generalize hc : Char.ofNat n = c
  obtain rfl : n = c.toNat := by rw [← hc, toNat_ofNat h]
  rfl

/-- The bytes that a symbol was read from are its own. -/
theorem bytes_lead (a : UInt8) (r : Bytes) : (lead a r).1.bytes = a :: r.take (lead a r).2 := by
  have hbyte {b : UInt8} {n : Nat} (h : n = b.toNat) : UInt8.ofNat n = b := by
    rw [h, UInt8.ofNat_toNat]
  have hpair {b : UInt8} (h : isPair a b = true) :
      String.utf8EncodeChar (Char.ofNat (a.toNat % 32 * 64 + tail b)) = [a, b] := by
    obtain ⟨ha, ha', hb⟩ := isPair_iff.1 h
    rw [isTail_iff] at hb
    rw [utf8EncodeChar_ofNat (isValidChar_of_isPair h).2, tail, if_neg (by omega),
      if_pos (by omega), hbyte (b := a) (by omega), hbyte (b := b) (by omega)]
  have htriple {b c : UInt8} (h : isTriple a b c = true) :
      String.utf8EncodeChar (Char.ofNat ((a.toNat % 16 * 64 + tail b) * 64 + tail c)) =
        [a, b, c] := by
    obtain ⟨ha, ha', hb, hc, hlow, hhigh⟩ := isTriple_iff.1 h
    rw [isTail_iff] at hb hc
    rw [utf8EncodeChar_ofNat (isValidChar_of_isTriple h).2, tail, tail, if_neg (by omega),
      if_neg (by omega), if_pos (by omega), hbyte (b := a) (by omega),
      hbyte (b := b) (by omega), hbyte (b := c) (by omega)]
  have hquad {b c d : UInt8} (h : isQuad a b c d = true) :
      String.utf8EncodeChar
        (Char.ofNat (((a.toNat % 8 * 64 + tail b) * 64 + tail c) * 64 + tail d)) =
        [a, b, c, d] := by
    obtain ⟨ha, ha', hb, hc, hd, hlow, hhigh⟩ := isQuad_iff.1 h
    rw [isTail_iff] at hb hc hd
    rw [utf8EncodeChar_ofNat (isValidChar_of_isQuad h).2, tail, tail, tail, if_neg (by omega),
      if_neg (by omega), if_neg (by omega), hbyte (b := a) (by omega),
      hbyte (b := b) (by omega), hbyte (b := c) (by omega), hbyte (b := d) (by omega)]
  fun_cases lead a r with
  | case1 =>
    rename_i ha
    rw [UInt8.lt_iff_toNat_lt] at ha
    have ha : a.toNat < 128 := ha
    rw [Symbol.bytes, utf8EncodeChar_ofNat (by rw [Nat.isValidChar]; omega), if_pos (by omega),
      hbyte rfl]
    rfl
  | case2 b c d r _ h => exact hpair h
  | case3 b c d r _ _ h => exact htriple h
  | case4 b c d r _ _ _ h => exact hquad h
  | case6 b c _ h => exact hpair h
  | case7 b c _ _ h => exact htriple h
  | case9 b _ h => exact hpair h
  | _ => rfl

/-- Reading a text loses nothing. -/
theorem encode_decode (s : Bytes) : encode (decode s) = s := by
  induction hn : s.length using Nat.strongRecOn generalizing s with
  | ind n ih =>
    rcases s with _ | ⟨a, r⟩
    · rfl
    have hshort : (r.drop (lead a r).2).length < n := by
      rw [List.length_cons] at hn
      rw [List.length_drop]
      omega
    rw [decode_cons, encode, List.flatMap_cons, bytes_lead]
    change a :: r.take (lead a r).2 ++ encode (decode (r.drop (lead a r).2)) = _
    rw [ih _ hshort _ rfl, List.cons_append, List.take_append_drop]

/-- The text ends with a symbol, whatever stands behind it. -/
def Whole (s : Bytes) : Prop := ∀ t, decode (s ++ t) = decode s ++ decode t

theorem Whole.append {s t : Bytes} (hs : Whole s) (ht : Whole t) : Whole (s ++ t) := by
  intro u
  rw [List.append_assoc, hs, hs, ht, List.append_assoc]

theorem whole_of_ascii {s : Bytes} (h : ∀ b ∈ s, b.toNat < 128) : Whole s := by
  induction s with
  | nil => exact fun _ => rfl
  | cons a s ih =>
    obtain ⟨ha, hs⟩ := List.forall_mem_cons.1 h
    intro t
    rw [List.cons_append, decode_ascii ha, decode_ascii ha, ih hs t, List.cons_append]

theorem decode_chars_append (cs : List Char) (t : Bytes) :
    decode (cs.flatMap String.utf8EncodeChar ++ t) = cs.map .char ++ decode t := by
  induction cs with
  | nil => rfl
  | cons c cs ih =>
    rw [List.flatMap_cons, List.append_assoc, decode_utf8EncodeChar, ih, List.map_cons,
      List.cons_append]

theorem decode_chars (cs : List Char) :
    decode (cs.flatMap String.utf8EncodeChar) = cs.map .char := by
  have happend := decode_chars_append cs []
  rw [List.append_nil] at happend
  exact happend.trans (List.append_nil _)

end Utf8

namespace Bytes

open Utf8 (Whole decode encode)

variable {s t before after : Bytes}

def Blank (s : Bytes) : Prop :=
  ∃ cs : List Char, (∀ c ∈ cs, isBlank c = true) ∧ s = cs.flatMap String.utf8EncodeChar

theorem Blank.nil : Blank [] := ⟨[], List.forall_mem_nil _, rfl⟩

theorem Blank.append (hs : Blank s) (ht : Blank t) : Blank (s ++ t) := by
  obtain ⟨cs, hcs, rfl⟩ := hs
  obtain ⟨ds, hds, rfl⟩ := ht
  exact ⟨cs ++ ds, List.forall_mem_append.2 ⟨hcs, hds⟩, List.flatMap_append.symm⟩

theorem Blank.isBlank (h : Blank s) : ∀ x ∈ decode s, x.isBlank = true := by
  obtain ⟨cs, hcs, rfl⟩ := h
  rw [Utf8.decode_chars]
  exact List.forall_mem_map.2 hcs

theorem Blank.whole (h : Blank s) : Whole s := by
  obtain ⟨cs, -, rfl⟩ := h
  intro t
  rw [Utf8.decode_chars_append, Utf8.decode_chars]

/-- The bytes of white space are no visible ASCII characters. -/
theorem Blank.not_visible (h : Blank s) : ∀ b ∈ s, b.toNat < 33 ∨ 128 ≤ b.toNat := by
  obtain ⟨cs, hcs, rfl⟩ := h
  intro b hb
  obtain ⟨c, hc, hb⟩ := List.mem_flatMap.1 hb
  have hblank := hcs c hc
  simp only [Locksmith.isBlank, Bool.or_eq_true, Bool.and_eq_true, decide_eq_true_eq,
    beq_iff_eq] at hblank
  rcases Nat.lt_or_ge c.toNat 128 with hascii | hother
  · rw [Utf8.utf8EncodeChar_ascii hascii, List.mem_singleton] at hb
    rw [hb, Utf8.toNat_byte (by omega)]
    omega
  · exact .inr (Utf8.utf8EncodeChar_not_ascii hother b hb)

theorem blank_encode {xs : List Symbol} (h : ∀ x ∈ xs, x.isBlank = true) :
    Blank (encode xs) := by
  induction xs with
  | nil => exact .nil
  | cons x xs ih =>
    obtain ⟨hx, hxs⟩ := List.forall_mem_cons.1 h
    cases x with
    | char c =>
      refine Blank.append ⟨[c], List.forall_mem_singleton.2 hx, ?_⟩ (ih hxs)
      exact (List.flatMap_singleton ..).symm
    | stray b => cases hx

/-- The text begins and ends with symbols that are not white space. -/
structure Trimmed (s : Bytes) : Prop where
  whole : Whole s
  first : ∃ x xs, decode s = x :: xs ∧ x.isBlank = false
  last : ∃ xs x, decode s = xs ++ [x] ∧ x.isBlank = false

theorem Trimmed.of_visible (hne : s ≠ []) (h : ∀ b ∈ s, 33 ≤ b.toNat ∧ b.toNat < 128) :
    Trimmed s := by
  have hascii : ∀ b ∈ s, b.toNat < 128 := fun b hb => (h b hb).2
  have hblank {b : UInt8} (hb : b ∈ s) := isBlank_ascii (h b hb).1 (h b hb).2
  refine ⟨Utf8.whole_of_ascii hascii, ?_, ?_⟩
  · obtain ⟨b, r, rfl⟩ := List.exists_cons_of_ne_nil hne
    exact ⟨_, _, Utf8.decode_of_ascii hascii, hblank List.mem_cons_self⟩
  · obtain ⟨r, b, rfl⟩ := (List.eq_nil_or_concat' s).resolve_left hne
    rw [Utf8.decode_of_ascii hascii, List.map_append]
    exact ⟨_, _, rfl, hblank (List.mem_append_right _ (List.mem_singleton_self b))⟩

theorem Trimmed.append (hs : Trimmed s) {m : Bytes} (hm : Whole m) (ht : Trimmed t) :
    Trimmed (s ++ (m ++ t)) := by
  refine ⟨hs.whole.append (hm.append ht.whole), ?_, ?_⟩
  · obtain ⟨x, xs, hfirst, hx⟩ := hs.first
    rw [hs.whole, hfirst]
    exact ⟨x, _, rfl, hx⟩
  · obtain ⟨xs, x, hlast, hx⟩ := ht.last
    rw [hs.whole, hm, hlast, ← List.append_assoc, ← List.append_assoc]
    exact ⟨_, x, rfl, hx⟩

/-- White space around a text is trimmed off. -/
theorem Trimmed.trimBlanks (h : Trimmed s) (hbefore : Blank before) (hafter : Blank after) :
    (before ++ (s ++ after)).trimBlanks = s := by
  obtain ⟨x, xs, hfirst, hx⟩ := h.first
  obtain ⟨ys, y, hlast, hy⟩ := h.last
  have hfront :
      (decode (before ++ (s ++ after))).dropWhile Symbol.isBlank =
        decode s ++ decode after := by
    rw [hbefore.whole, h.whole, List.dropWhile_append_of_pos hbefore.isBlank, hfirst,
      List.cons_append, List.dropWhile_cons_of_neg (Bool.not_eq_true _ ▸ hx)]
  have hback :
      (decode s ++ decode after).reverse.dropWhile Symbol.isBlank = (decode s).reverse := by
    rw [List.reverse_append,
      List.dropWhile_append_of_pos fun z hz => hafter.isBlank z (List.mem_reverse.1 hz), hlast,
      List.reverse_concat, List.dropWhile_cons_of_neg (Bool.not_eq_true _ ▸ hy)]
  rw [Bytes.trimBlanks, hfront, hback, List.reverse_reverse, Utf8.encode_decode]

/-- Nothing but white space is trimmed off. -/
theorem exists_trimBlanks (s : Bytes) :
    ∃ before after, Blank before ∧ Blank after ∧ s = before ++ (s.trimBlanks ++ after) := by
  have hsplit :
      decode s = (decode s).takeWhile Symbol.isBlank ++ (decode s).dropWhile Symbol.isBlank :=
    List.takeWhile_append_dropWhile.symm
  generalize hrest : (decode s).dropWhile Symbol.isBlank = rest at hsplit
  have hrear : rest =
      (rest.reverse.dropWhile Symbol.isBlank).reverse ++
        (rest.reverse.takeWhile Symbol.isBlank).reverse := by
    rw [← List.reverse_append, List.takeWhile_append_dropWhile, List.reverse_reverse]
  refine ⟨encode ((decode s).takeWhile Symbol.isBlank),
    encode (rest.reverse.takeWhile Symbol.isBlank).reverse, ?_, ?_, ?_⟩
  · exact blank_encode fun x hx => List.mem_takeWhile_imp hx
  · exact blank_encode fun x hx => List.mem_takeWhile_imp (List.mem_reverse.1 hx)
  · rw [Bytes.trimBlanks, hrest, encode, encode, encode, ← List.flatMap_append,
      ← List.flatMap_append, ← hrear, ← hsplit]
    exact (Utf8.encode_decode s).symm

/-- A word between white space, read up to the white space behind it. -/
theorem fieldsFrom_append {xs : List Symbol} (h : ∀ x ∈ xs, x.isBlank = false)
    (word rest : List Symbol) :
    fieldsFrom word (xs ++ rest) = fieldsFrom (xs.reverse ++ word) rest := by
  induction xs generalizing word with
  | nil => rfl
  | cons x xs ih =>
    obtain ⟨hx, hxs⟩ := List.forall_mem_cons.1 h
    rw [List.cons_append, fieldsFrom, if_neg (Bool.not_eq_true _ ▸ hx), ih hxs,
      List.reverse_cons, List.append_assoc]
    rfl

theorem fieldsFrom_word {w : Bytes} (hne : w ≠ []) (h : ∀ b ∈ w, 33 ≤ b.toNat ∧ b.toNat < 128)
    (rest : List Symbol) :
    fieldsFrom [] (decode w) = [w] ∧
    fieldsFrom [] (decode w ++ .char ' ' :: rest) = w :: fieldsFrom [] rest := by
  have hdecode := Utf8.decode_of_ascii fun b hb => (h b hb).2
  have hblank : ∀ x ∈ decode w, x.isBlank = false := by
    rw [hdecode]
    exact List.forall_mem_map.2 fun b hb => isBlank_ascii (h b hb).1 (h b hb).2
  have hsome : (decode w).reverse.isEmpty = false := by
    rw [List.isEmpty_reverse, hdecode, List.isEmpty_map, List.isEmpty_eq_false_iff]
    exact hne
  have hread (rest : List Symbol) :
      fieldsFrom [] (decode w ++ rest) = fieldsFrom (decode w).reverse rest := by
    rw [fieldsFrom_append hblank, List.append_nil]
  constructor
  · rw [← List.append_nil (decode w), hread, fieldsFrom, hsome, if_neg Bool.false_ne_true,
      List.reverse_reverse, Utf8.encode_decode]
  · rw [hread, fieldsFrom, if_pos (by decide), hsome, if_neg Bool.false_ne_true,
      List.reverse_reverse, Utf8.encode_decode]

/-- The words of a text are those that it was joined from. -/
theorem fields_join {words : List Bytes}
    (h : ∀ w ∈ words, w ≠ [] ∧ ∀ b ∈ w, 33 ≤ b.toNat ∧ b.toNat < 128) :
    (join " " words).fields = words := by
  induction words with
  | nil => rfl
  | cons w words ih =>
    obtain ⟨⟨hne, hvisible⟩, hwords⟩ := List.forall_mem_cons.1 h
    cases words with
    | nil =>
      have hjoin : join " " [w] = w := List.append_nil w
      rw [hjoin]
      exact (fieldsFrom_word hne hvisible []).1
    | cons w' words =>
      have hjoin : join " " (w :: w' :: words) = w ++ (32 :: join " " (w' :: words)) := rfl
      rw [hjoin, fields, Utf8.whole_of_ascii fun b hb => (hvisible b hb).2,
        Utf8.decode_ascii (by decide)]
      exact (fieldsFrom_word hne hvisible _).2.trans (congrArg (w :: ·) (ih hwords))

end Bytes
end Locksmith
