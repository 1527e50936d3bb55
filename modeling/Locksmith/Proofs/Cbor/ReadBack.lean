import Mathlib
import Locksmith.Cbor.Fields

namespace Locksmith
namespace Cbor

theorem bigEndian_succ (w n : Nat) :
    bigEndian (w + 1) n = bigEndian w (n / 256) ++ [n.toUInt8] := by
  have hshift (i : Nat) : n >>> (8 * (i + 1)) = (n / 256) >>> (8 * i) := by
    rw [Nat.shiftRight_eq_div_pow, Nat.shiftRight_eq_div_pow, Nat.div_div_eq_div_mul,
      Nat.mul_succ, Nat.pow_add, Nat.mul_comm]
  rw [bigEndian, List.range_succ_eq_map, List.map_cons, List.reverse_cons, List.map_map,
    bigEndian]
  congr 2
  apply List.map_congr_left
  intro i _
  exact congrArg Nat.toUInt8 (hshift i)

theorem length_bigEndian (w n : Nat) : (bigEndian w n).length = w := by
  rw [bigEndian, List.length_reverse, List.length_map, List.length_range]

theorem ofBigEndian_bigEndian (w n : Nat) : ofBigEndian (bigEndian w n) = n % 256 ^ w := by
  induction w generalizing n with
  | zero => rw [Nat.pow_zero, Nat.mod_one]; rfl
  | succ w ih =>
    have hlast : n.toUInt8.toNat = n % 256 := UInt8.toNat_ofNat'
    have hfold : ofBigEndian (bigEndian w (n / 256) ++ [n.toUInt8]) =
        ofBigEndian (bigEndian w (n / 256)) * 256 + n.toUInt8.toNat := List.foldl_concat ..
    rw [bigEndian_succ, hfold, ih, hlast, Nat.pow_succ, Nat.mul_comm (256 ^ w), Nat.mod_mul]
    omega

theorem toNat_first {major info : Nat} (hmajor : major < 8) (hinfo : info < 32) :
    (major * 32 + info).toUInt8.toNat / 32 = major ∧
    (major * 32 + info).toUInt8.toNat % 32 = info := by
  simp only [Nat.toUInt8_eq, UInt8.toNat_ofNat']
  omega

/-- A head whose number follows in `1 <<< k` bytes. -/
theorem readHead_long {major n : Nat} (hmajor : major < 8) (k : Nat) (hk : k < 4)
    (hn : n < 256 ^ (1 <<< k)) (rest : Bytes) :
    readHead ((major * 32 + (24 + k)).toUInt8 :: bigEndian (1 <<< k) n ++ rest) =
      .ok (major, 24 + k, some (UInt64.ofNat n), rest) := by
  obtain ⟨hdiv, hrem⟩ : _ ∧ (major * 32 + (24 + k)).toUInt8.toNat % 32 = 24 + k :=
    toNat_first hmajor (by omega)
  have htake : (bigEndian (1 <<< k) n ++ rest).take (1 <<< k) = bigEndian (1 <<< k) n :=
    List.take_left' (length_bigEndian _ _)
  have hdrop : (bigEndian (1 <<< k) n ++ rest).drop (1 <<< k) = rest :=
    List.drop_left' (length_bigEndian _ _)
  have hshort : ¬(bigEndian (1 <<< k) n ++ rest).length < 1 <<< k := by
    rw [List.length_append, length_bigEndian]
    omega
  rw [List.cons_append, readHead, hdiv, hrem, if_neg (by omega), if_pos (by omega)]
  simp only [Nat.add_sub_cancel_left, htake, hdrop, if_neg hshort, ofBigEndian_bigEndian,
    Nat.mod_eq_of_lt hn]

theorem readHead_head (major : Nat) {n : Nat} (hmajor : major < 8) (hn : n < 2 ^ 64)
    (rest : Bytes) :
    ∃ info, readHead (head major n ++ rest) =
      .ok (major, info, some (UInt64.ofNat n), rest) := by
  unfold head
  dsimp only
  split
  · rename_i h
    obtain ⟨hdiv, hrem⟩ : _ ∧ (major * 32 + n).toUInt8.toNat % 32 = n :=
      toNat_first hmajor (by omega)
    use n
    rw [List.singleton_append, readHead, hdiv, hrem, if_pos h]
  · split
    · exact ⟨24, readHead_long hmajor 0 (by omega) ‹n < 0x100› rest⟩
    · split
      · exact ⟨25, readHead_long hmajor 1 (by omega) ‹n < 0x10000› rest⟩
      · split
        · exact ⟨26, readHead_long hmajor 2 (by omega) ‹n < 0x100000000› rest⟩
        · exact ⟨27, readHead_long hmajor 3 (by omega) hn rest⟩

/-- An item is read back with at most `depth` levels, whatever follows it. -/
def Reads (depth : Nat) (i : Item) : Prop :=
  ∀ fuel rest, 2 * i.encode.length ≤ fuel + 1 →
    readItem (fuel + 1) depth (i.encode ++ rest) = .ok (i, rest)

def Refused (depth : Nat) (i : Item) (e : Error) : Prop :=
  ∀ fuel rest, 2 * i.encode.length ≤ fuel + 1 →
    readItem (fuel + 1) depth (i.encode ++ rest) = .error e

theorem length_head_pos (major n : Nat) : 0 < (head major n).length := by
  unfold head
  dsimp only
  split_ifs <;> exact Nat.succ_pos _

theorem readString_append (major : Nat) {s : Bytes} (hs : s.length < 2 ^ 64) (rest : Bytes) :
    readString major (some (UInt64.ofNat s.length)) (s ++ rest) = .ok (s, rest) := by
  have hlength : (UInt64.ofNat s.length).toNat = s.length := UInt64.toNat_ofNat_of_lt' hs
  have hshort : ¬(s ++ rest).length < s.length := by
    rw [List.length_append]
    omega
  rw [readString, hlength, if_neg hshort, List.take_left, List.drop_left]

def interleaved (entries : List (Item × Item)) : List Item :=
  entries.flatMap fun e => [e.1, e.2]

theorem interleaved_cons (e : Item × Item) (entries : List (Item × Item)) :
    interleaved (e :: entries) = e.1 :: e.2 :: interleaved entries := rfl

theorem pairs_interleaved (entries : List (Item × Item)) :
    pairs (interleaved entries) = entries := by
  induction entries with
  | nil => rfl
  | cons e entries ih => rw [interleaved_cons, pairs, ih]

theorem length_interleaved (entries : List (Item × Item)) :
    (interleaved entries).length = 2 * entries.length := by
  induction entries with
  | nil => rfl
  | cons e entries ih =>
    rw [interleaved_cons, List.length_cons, List.length_cons, ih, List.length_cons]
    omega

theorem encodeAll_interleaved (entries : List (Item × Item)) :
    encodeAll (interleaved entries) = (encodeEntries entries).flatMap fun e => e.1 ++ e.2 := by
  induction entries with
  | nil => rfl
  | cons e entries ih =>
    rw [interleaved_cons, encodeAll, encodeAll, ih, encodeEntries, List.flatMap_cons,
      List.append_assoc]

theorem map_fst_encodeEntries (entries : List (Item × Item)) :
    (encodeEntries entries).map (·.1) = entries.map (·.1.encode) := by
  induction entries with
  | nil => rfl
  | cons e entries ih => exact congrArg (e.1.encode :: ·) ih

def KeysSorted (entries : List (Item × Item)) : Prop :=
  (entries.map (·.1.encode)).Pairwise fun a b => Bytes.le a b = true

theorem encode_map {entries : List (Item × Item)} (h : KeysSorted entries) :
    (Item.map entries).encode = head 5 entries.length ++ encodeAll (interleaved entries) := by
  rw [KeysSorted, ← map_fst_encodeEntries, List.pairwise_map] at h
  have hsorted : sortEntries (encodeEntries entries) = encodeEntries entries :=
    List.mergeSort_of_pairwise h
  rw [Item.encode, hsorted, encodeAll_interleaved]

theorem length_le_encodeAll {i : Item} {items : List Item} (h : i ∈ items) :
    i.encode.length ≤ (encodeAll items).length := by
  induction items with
  | nil => cases h
  | cons j rest ih =>
    rw [encodeAll, List.length_append]
    rcases List.mem_cons.1 h with rfl | h
    · exact Nat.le_add_right _ _
    · exact (ih h).trans (Nat.le_add_left _ _)

theorem length_le_encode_array {i : Item} {items : List Item} (h : i ∈ items) :
    i.encode.length ≤ (Item.array items).encode.length := by
  rw [Item.encode, List.length_append]
  exact (length_le_encodeAll h).trans (Nat.le_add_left _ _)

theorem length_le_encode_map {k v : Item} {entries : List (Item × Item)}
    (hsorted : KeysSorted entries) (h : (k, v) ∈ entries) :
    v.encode.length ≤ (Item.map entries).encode.length := by
  rw [encode_map hsorted, List.length_append]
  refine (length_le_encodeAll ?_).trans (Nat.le_add_left _ _)
  exact List.mem_flatMap.2 ⟨(k, v), h, List.mem_cons_of_mem _ (List.mem_singleton.2 rfl)⟩

theorem length_items_le {items : List Item} (h : ∀ i ∈ items, 0 < i.encode.length) :
    items.length ≤ (encodeAll items).length := by
  induction items with
  | nil => exact Nat.le_refl _
  | cons i rest ih =>
    have hfirst := h i List.mem_cons_self
    have hrest := ih fun j hj => h j (List.mem_cons_of_mem _ hj)
    rw [encodeAll, List.length_append, List.length_cons]
    omega

theorem length_head_le (major n : Nat) : (head major n).length ≤ 9 := by
  unfold head
  dsimp only
  split_ifs <;> simp only [List.length_cons, List.length_nil, length_bigEndian] <;> omega

theorem length_nat_le (n : UInt64) : (Item.nat n).encode.length ≤ 9 := length_head_le 0 n.toNat

theorem length_ofInt64_le (n : Int64) : (Item.ofInt64 n).encode.length ≤ 9 := by
  rw [Item.ofInt64]
  split
  · exact length_head_le _ _
  · exact length_head_le _ _

theorem length_bytes_le (s : Bytes) : (Item.bytes s).encode.length ≤ 9 + s.length := by
  rw [Item.encode, List.length_append]
  exact Nat.add_le_add_right (length_head_le _ _) _

theorem length_text_le (s : Bytes) : (Item.text s).encode.length ≤ 9 + s.length := by
  rw [Item.encode, List.length_append]
  exact Nat.add_le_add_right (length_head_le _ _) _

theorem length_map_le {entries : List (Item × Item)} (hsorted : KeysSorted entries) :
    (Item.map entries).encode.length ≤
      9 + (entries.map fun e => e.1.encode.length + e.2.encode.length).sum := by
  have hall : (encodeAll (interleaved entries)).length =
      (entries.map fun e => e.1.encode.length + e.2.encode.length).sum := by
    induction entries with
    | nil => rfl
    | cons e rest ih =>
      rw [interleaved_cons, encodeAll, encodeAll, List.length_append, List.length_append,
        List.map_cons, List.sum_cons, ih (List.Pairwise.of_cons hsorted)]
      omega
  rw [encode_map hsorted, List.length_append, hall]
  exact Nat.add_le_add_right (length_head_le _ _) _

theorem Reads.length_pos {depth : Nat} {i : Item} (h : Reads depth i) :
    0 < i.encode.length := by
  by_contra hzero
  have hread := h 0 [] (by omega)
  rw [List.length_eq_zero_iff.1 (Nat.eq_zero_of_not_pos hzero)] at hread
  cases hread

theorem readCounted_succ {depth limit n : Nat} (hlimit : n < limit) (fuel : Nat) (s : Bytes) :
    readCounted (fuel + 1) depth limit (some (n + 1)) s =
      (readItem fuel depth s).bind fun head =>
        (readCounted fuel depth (limit - 1) (some n) head.2).bind fun tail =>
          .ok (head.1 :: tail.1, tail.2) := by
  have hroom : (limit = 0 || (some (n + 1)).any (limit < ·)) = false := by
    rw [Option.any_some, Bool.or_eq_false_iff, decide_eq_false_iff_not, decide_eq_false_iff_not]
    omega
  rw [readCounted, hroom]
  · rfl
  · intro hzero
    cases hzero
  · intro r hnone
    cases hnone

theorem readCounted_encodeAll {depth : Nat} {items : List Item} (h : ∀ i ∈ items, Reads depth i)
    {fuel limit : Nat} (rest : Bytes) (hfuel : 2 * (encodeAll items).length ≤ fuel)
    (hlimit : items.length ≤ limit) :
    readCounted (fuel + 1) depth limit (some items.length) (encodeAll items ++ rest) =
      .ok (items, rest) := by
  induction items generalizing fuel limit with
  | nil => rw [List.length_nil, readCounted, encodeAll, List.nil_append]
  | cons i items ih =>
    have hi := h i List.mem_cons_self
    have hpos := hi.length_pos
    rw [encodeAll, List.length_append] at hfuel
    rw [List.length_cons] at hlimit
    obtain ⟨fuel, rfl⟩ : ∃ k, fuel = k + 1 := Nat.exists_eq_succ_of_ne_zero (by omega)
    have hitem := hi fuel (encodeAll items ++ rest) (by omega)
    have hitems :
        readCounted (fuel + 1) depth (limit - 1) (some items.length) (encodeAll items ++ rest) =
        .ok (items, rest) :=
      ih (fun i hi => h i (List.mem_cons_of_mem _ hi)) (by omega) (by omega)
    rw [List.length_cons, encodeAll, List.append_assoc, readCounted_succ hlimit, hitem,
      Except.bind, hitems, Except.bind]

namespace Reads

variable {depth : Nat}

theorem nat (n : UInt64) : Reads depth (.nat n) := by
  intro fuel rest _
  obtain ⟨info, hhead⟩ := readHead_head 0 (by omega) n.toNat_lt rest
  rw [Item.encode]
  change Except.bind (readHead _) _ = _
  rw [hhead, UInt64.ofNat_toNat]
  rfl

theorem negative (n : UInt64) : Reads depth (.negative n) := by
  intro fuel rest _
  obtain ⟨info, hhead⟩ := readHead_head 1 (by omega) n.toNat_lt rest
  rw [Item.encode]
  change Except.bind (readHead _) _ = _
  rw [hhead, UInt64.ofNat_toNat]
  rfl

theorem ofInt64 (n : Int64) : Reads depth (.ofInt64 n) := by
  unfold Item.ofInt64
  split
  · exact negative _
  · exact nat _

theorem bytes {s : Bytes} (hs : s.length < 2 ^ 64) : Reads depth (.bytes s) := by
  intro fuel rest _
  obtain ⟨info, hhead⟩ := readHead_head 2 (by omega) hs (s ++ rest)
  rw [Item.encode, List.append_assoc]
  change Except.bind (readHead _) _ = _
  rw [hhead]
  change (readString 2 (some (UInt64.ofNat s.length)) (s ++ rest)).bind
    (fun r => .ok (r.map Item.bytes id)) = _
  rw [readString_append 2 hs]
  rfl

theorem text {s : Bytes} (hs : s.length < 2 ^ 64) : Reads depth (.text s) := by
  intro fuel rest _
  obtain ⟨info, hhead⟩ := readHead_head 3 (by omega) hs (s ++ rest)
  rw [Item.encode, List.append_assoc]
  change Except.bind (readHead _) _ = _
  rw [hhead]
  change (readString 3 (some (UInt64.ofNat s.length)) (s ++ rest)).bind
    (fun r => .ok (r.map Item.text id)) = _
  rw [readString_append 3 hs]
  rfl

theorem null : Reads depth .null := by
  intro fuel rest _
  rfl

theorem array {items : List Item} (h : ∀ i ∈ items, Reads depth i)
    (hcount : items.length ≤ maxCount) : Reads (depth + 1) (.array items) := by
  have hlimit : maxCount < 2 ^ 64 := by decide
  have hnumber : (UInt64.ofNat items.length).toNat = items.length :=
    UInt64.toNat_ofNat_of_lt' (hcount.trans_lt hlimit)
  intro fuel rest hfuel
  rw [Item.encode, List.length_append] at hfuel
  have hpos := length_head_pos 4 items.length
  obtain ⟨info, hhead⟩ :=
    readHead_head 4 (by omega) (by omega : items.length < 2 ^ 64) (encodeAll items ++ rest)
  obtain ⟨fuel, rfl⟩ : ∃ k, fuel = k + 1 := Nat.exists_eq_succ_of_ne_zero (by omega)
  rw [Item.encode, List.append_assoc]
  change Except.bind (readHead _) _ = _
  rw [hhead]
  change (readCounted (fuel + 1) depth maxCount (some (UInt64.ofNat items.length).toNat)
    (encodeAll items ++ rest)).bind (fun r => .ok (Item.array r.1, r.2)) = _
  rw [hnumber, readCounted_encodeAll h rest (by omega) hcount]
  rfl

theorem map {entries : List (Item × Item)}
    (h : ∀ e ∈ entries, Reads depth e.1 ∧ Reads depth e.2)
    (hsorted : KeysSorted entries) (hcount : entries.length ≤ maxCount) :
    Reads (depth + 1) (.map entries) := by
  have hlimit : maxCount < 2 ^ 64 := by decide
  have hnumber : 2 * (UInt64.ofNat entries.length).toNat = (interleaved entries).length := by
    rw [length_interleaved, UInt64.toNat_ofNat_of_lt' (hcount.trans_lt hlimit)]
  have hparts : ∀ i ∈ interleaved entries, Reads depth i := by
    intro i hi
    obtain ⟨e, he, hi⟩ := List.mem_flatMap.1 hi
    rcases List.mem_pair.1 hi with rfl | rfl
    · exact (h e he).1
    · exact (h e he).2
  intro fuel rest hfuel
  rw [encode_map hsorted, List.length_append] at hfuel
  have hpos := length_head_pos 5 entries.length
  obtain ⟨info, hhead⟩ := readHead_head 5 (by omega) (by omega : entries.length < 2 ^ 64)
    (encodeAll (interleaved entries) ++ rest)
  obtain ⟨fuel, rfl⟩ : ∃ k, fuel = k + 1 := Nat.exists_eq_succ_of_ne_zero (by omega)
  have heven : ¬(interleaved entries).length % 2 ≠ 0 := by
    rw [length_interleaved]
    omega
  rw [encode_map hsorted, List.append_assoc]
  change Except.bind (readHead _) _ = _
  rw [hhead]
  change (readCounted (fuel + 1) depth (2 * maxCount)
    (some (2 * (UInt64.ofNat entries.length).toNat))
    (encodeAll (interleaved entries) ++ rest)).bind (fun r =>
      if r.1.length % 2 ≠ 0 then .error .malformed else .ok (Item.map (pairs r.1), r.2)) = _
  rw [hnumber, readCounted_encodeAll hparts rest (by omega) (by rw [length_interleaved]; omega)]
  change (if (interleaved entries).length % 2 ≠ 0 then _ else _) = _
  rw [if_neg heven, pairs_interleaved]

end Reads

theorem decode_encode {i : Item} (h : Reads maxDepth i) : decode i.encode = .ok i := by
  have hread := h (2 * i.encode.length + 1) [] (by omega)
  rw [List.append_nil] at hread
  rw [decode, hread]
  rfl

namespace Refused

variable {depth : Nat} {e : Error}

theorem array {items : List Item} (hmany : maxCount < items.length)
    (hitems : items.length < 2 ^ 64) :
    Refused (depth + 1) (.array items) .tooMany := by
  have hnumber : (UInt64.ofNat items.length).toNat = items.length :=
    UInt64.toNat_ofNat_of_lt' hitems
  intro fuel rest hfuel
  rw [Item.encode, List.length_append] at hfuel
  have hpos := length_head_pos 4 items.length
  obtain ⟨info, hhead⟩ := readHead_head 4 (by omega) hitems (encodeAll items ++ rest)
  obtain ⟨fuel, rfl⟩ : ∃ k, fuel = k + 1 := Nat.exists_eq_succ_of_ne_zero (by omega)
  rw [Item.encode, List.append_assoc]
  change Except.bind (readHead _) _ = _
  rw [hhead]
  change (readCounted (fuel + 1) depth maxCount (some (UInt64.ofNat items.length).toNat)
    (encodeAll items ++ rest)).bind (fun r => .ok (Item.array r.1, r.2)) = _
  have hroom : (maxCount = 0 || (some items.length).any (maxCount < ·)) = true := by
    rw [Option.any_some, decide_eq_true hmany, Bool.or_true]
  rw [hnumber, readCounted, hroom]
  · rfl
  · intro hzero
    rw [Option.some.inj hzero] at hmany
    cases hmany
  · intro r hnone
    cases hnone

/-- A map is refused for its only value. -/
theorem map {k v : Item} (hk : Reads depth k) (hv : Refused depth v e) :
    Refused (depth + 1) (.map [(k, v)]) e := by
  have hsorted : KeysSorted [(k, v)] := List.pairwise_singleton _ _
  have hencode : (Item.map [(k, v)]).encode = head 5 1 ++ (k.encode ++ v.encode) := by
    rw [encode_map hsorted, interleaved_cons, encodeAll, encodeAll]
    exact congrArg (fun r => head 5 1 ++ (k.encode ++ r)) (List.append_nil _)
  have hpos := hk.length_pos
  have hhead := length_head_pos 5 1
  intro fuel rest hfuel
  rw [hencode, List.length_append, List.length_append] at hfuel
  rw [hencode, List.append_assoc, List.append_assoc]
  obtain ⟨info, hread⟩ :=
    readHead_head 5 (by omega) (by omega : 1 < 2 ^ 64) (k.encode ++ (v.encode ++ rest))
  obtain ⟨fuel, rfl⟩ : ∃ j, fuel = j + 3 := Nat.exists_eq_add_of_le' (by omega)
  have hvalue := hv fuel rest (by omega)
  have hkey := hk (fuel + 1) (v.encode ++ rest) (by omega)
  rw [readItem, hread]
  change (readCounted (fuel + 3) depth (2 * maxCount) (some 2)
    (k.encode ++ (v.encode ++ rest))).bind (fun r =>
      if r.1.length % 2 ≠ 0 then .error .malformed else .ok (Item.map (pairs r.1), r.2)) = _
  rw [readCounted_succ (by decide), hkey, Except.bind, readCounted_succ (by decide), hvalue]
  rfl

end Refused

theorem decode_eq_error {i : Item} {e : Error} (h : Refused maxDepth i e) :
    decode i.encode = .error e := by
  have hread := h (2 * i.encode.length + 1) [] (by omega)
  rw [List.append_nil] at hread
  rw [decode, hread]
  rfl

namespace Item

theorem toInt?_ofInt64 (n : Int64) : (ofInt64 n).toInt? = some n.toInt := by
  have hint :
      n.toInt = if 2 * n.toUInt64.toNat <
        2 ^ 64 then (n.toUInt64.toNat : Int) else n.toUInt64.toNat - 2 ^ 64 :=
    n.toBitVec.toInt_eq_toNat_cond
  have hlt := n.toUInt64.toNat_lt
  rw [ofInt64]
  split
  · rename_i hneg
    have hneg : n.toInt < 0 := Int64.lt_iff_toInt_lt.1 hneg
    rw [toInt?, UInt64.toNat_not]
    apply congrArg some
    split at hint
    · omega
    · have : UInt64.size = 2 ^ 64 := rfl
      omega
  · rename_i hpos
    have hpos : ¬n.toInt < 0 := fun h => hpos (Int64.lt_iff_toInt_lt.2 h)
    rw [toInt?]
    apply congrArg some
    split at hint
    · omega
    · omega

theorem asInt64_ofInt64 (n : Int64) : (ofInt64 n).asInt64 = .ok n := by
  have hlo := n.le_toInt
  have hhi := n.toInt_lt
  rw [asInt64, asInt, toInt?_ofInt64]
  dsimp only
  rw [if_pos (by omega)]
  exact congrArg Except.ok n.ofInt_toInt

theorem asByte_nat (b : UInt8) : (nat b.toUInt64).asByte = .ok b := by
  have hb := b.toNat_lt
  rw [asByte, asInt, toInt?]
  dsimp only
  rw [UInt8.toNat_toUInt64, if_pos (by omega)]
  exact congrArg Except.ok b.ofNat_toNat

theorem asBlock_bytes {n : Nat} {s : Bytes} (hs : s.length = n) :
    (bytes s).asBlock n = .ok s := by
  change Except.ok (s.take n ++ List.replicate (n - s.length) 0) = _
  rw [hs, Nat.sub_self, List.take_of_length_le hs.le, List.replicate_zero, List.append_nil]

end Item
end Cbor
end Locksmith
