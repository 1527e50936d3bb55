import Mathlib
import Locksmith.Machine.Bytecode
import Locksmith.Proofs.Data.LittleEndian

namespace Locksmith

namespace Bytes

def upToZero (s : Bytes) : Bytes := s.takeWhile (· != 0)

theorem upToZero_append (s after : Bytes) :
    (s ++ 0 :: after).takeWhile (· != 0) = s.upToZero := by
  induction s with
  | nil => rfl
  | cons b s ih =>
    rw [upToZero, List.cons_append, List.takeWhile_cons, List.takeWhile_cons, ih]
    rfl

theorem upToZero_eq_self {s : Bytes} : s.upToZero = s ↔ 0 ∉ s := by
  rw [upToZero, List.takeWhile_eq_self_iff]
  constructor
  · intro h hz
    exact absurd (h 0 hz) (by decide)
  · intro h b hb
    simp only [bne_iff_ne, ne_eq]
    rintro rfl
    exact h hb

theorem isPrefix_upToZero (s : Bytes) : s.upToZero <+: s := List.takeWhile_prefix _

end Bytes

theorem Opcode.ofByte_toByte (op : Opcode) : ofByte op.toByte = op := by
  cases op with
  | unassigned n =>
    obtain ⟨n, hn⟩ := n
    have hb : (16 + n).toUInt8.toNat = 16 + n := by
      simp only [Nat.toUInt8_eq, UInt8.toNat_ofNat']
      omega
    have hl : assigned[16 + n]? = none := List.getElem?_eq_none (by simp [assigned])
    simp only [ofByte, toByte, hb, hl]
    congr
    omega
  | _ => rfl

namespace Bytecode

theorem ofNat_toUInt32_toNat (x : Int32) : Int32.ofNat x.toUInt32.toNat = x :=
  calc Int32.ofNat x.toUInt32.toNat
      = (UInt32.ofNat x.toUInt32.toNat).toInt32 := rfl
    _ = x.toUInt32.toInt32 := by rw [UInt32.ofNat_toNat]
    _ = x := x.toInt32_toUInt32

theorem toInt_ofNat {n : Nat} (h : n < 2 ^ 31) : (Int32.ofNat n).toInt = n :=
  Int32.toInt_ofNat_of_lt h

theorem length_encodeInsn (i : Insn) : (encodeInsn i).length = insnWidth := by
  rw [encodeInsn, List.length_cons, LittleEndian.length_ofNat]
  rfl

theorem length_flatMap_encodeInsn (l : List Insn) :
    (l.flatMap encodeInsn).length = l.length * insnWidth := by
  induction l with
  | nil => rfl
  | cons i l ih =>
    rw [List.flatMap_cons, List.length_append, ih, length_encodeInsn, List.length_cons]
    exact (Nat.succ_mul _ _).symm ▸ Nat.add_comm _ _

/-- What is read where an instruction was written. -/
theorem fetch_encodeInsn (before after : Bytes) (i : Insn) (h : before.length % insnWidth = 0) :
    fetch (before ++ (encodeInsn i ++ after)) before.length =
      if i.op.isExecutable then .ok i
      else .error ⟨before.length, .unknownOpcode i.op.toByte⟩ := by
  have hlen : (before ++ (encodeInsn i ++ after)).length =
      before.length + insnWidth + after.length := by
    rw [List.length_append, List.length_append, length_encodeInsn, Nat.add_assoc]
  have harg : Int32.ofNat (LittleEndian.toNat
      ((LittleEndian.ofNat 4 i.arg.toUInt32.toNat ++ after).take 4)) = i.arg := by
    have hlt : i.arg.toUInt32.toNat < 256 ^ 4 := i.arg.toUInt32.toNat_lt
    rw [List.take_left' (LittleEndian.length_ofNat 4 _), LittleEndian.toNat_ofNat,
      Nat.mod_eq_of_lt hlt, ofNat_toUInt32_toNat]
  unfold fetch
  rw [if_neg (by omega), List.drop_left]
  simp only [encodeInsn, List.cons_append, Opcode.ofByte_toByte, harg]

theorem fetch_flatMap (l : List Insn) (after : Bytes) (before : List Insn) (i : Insn)
    (rest : List Insn) (h : l = before ++ i :: rest) :
    fetch (l.flatMap encodeInsn ++ after) (before.length * insnWidth) =
      if i.op.isExecutable then .ok i
      else .error ⟨(before.length * insnWidth : Nat), .unknownOpcode i.op.toByte⟩ := by
  have hb := length_flatMap_encodeInsn before
  have hf := fetch_encodeInsn (before.flatMap encodeInsn) (rest.flatMap encodeInsn ++ after) i
    (by rw [hb]; exact Nat.mul_mod_left _ _)
  rw [hb] at hf
  rw [← hf, h]
  simp only [List.flatMap_append, List.flatMap_cons, List.append_assoc]

/-- What is read where a text was written, if the text has zero bytes of its own or not. -/
theorem textAt_append_upToZero (before s after : Bytes) (hb : before.length < 2 ^ 31) :
    textAt (before ++ (s ++ 0 :: after)) (Int32.ofNat before.length) = .ok s.upToZero := by
  have hi := toInt_ofNat hb
  have hneg : ¬Int32.ofNat before.length < 0 := by
    rw [Int32.lt_iff_toInt_lt, hi]
    simp
  have hlen : ¬(before ++ (s ++ 0 :: after)).length ≤ before.length := by
    simp only [List.length_append, List.length_cons]
    omega
  unfold textAt
  simp only [hi, Int.toNat_natCast, List.drop_left]
  rw [if_neg (not_or.2 ⟨hneg, hlen⟩), if_pos (by simp), Bytes.upToZero_append]

end Bytecode

namespace Assembly

/-- The instructions that become code. -/
def solid (code : List Insn) : List Insn := code.filter (·.op != .label)

theorem length_solid (code : List Insn) : (solid code).length = insnCount code :=
  List.countP_eq_length_filter.symm

theorem solid_append (xs ys : List Insn) : solid (xs ++ ys) = solid xs ++ solid ys :=
  List.filter_append ..

theorem insnCount_append (xs ys : List Insn) :
    insnCount (xs ++ ys) = insnCount xs + insnCount ys :=
  List.countP_append

theorem insnCount_cons_label {i : Insn} (h : i.op = .label) (code : List Insn) :
    insnCount (i :: code) = insnCount code := by
  rw [insnCount, List.countP_cons_of_neg (by simp [h]), insnCount]

theorem insnCount_cons {i : Insn} (h : i.op ≠ .label) (code : List Insn) :
    insnCount (i :: code) = insnCount code + 1 := by
  rw [insnCount, List.countP_cons_of_pos (by simp [h]), insnCount]

def bytes (a : Assembly) : Bytes :=
  ((solid a.code).map a.resolve).flatMap Bytecode.encodeInsn ++ a.pool.flatMap (· ++ [0])

theorem emit_eq (a : Assembly) :
    a.emit = if insnCount a.code = 0 then none else some a.bytes := by
  rw [emit, bytes, solid, List.flatMap_map]

theorem length_bytes (a : Assembly) : a.bytes.length =
    insnCount a.code * Bytecode.insnWidth + (a.pool.flatMap (· ++ [0])).length := by
  rw [bytes, List.length_append, Bytecode.length_flatMap_encodeInsn, List.length_map,
    length_solid]

theorem op_resolve (a : Assembly) (i : Insn) : (a.resolve i).op = i.op := by
  unfold resolve
  split <;> rfl

theorem fetch_bytes {a : Assembly} {before rest : List Insn} {i : Insn}
    (h : a.code = before ++ i :: rest) (hi : i.op ≠ .label) :
    Bytecode.fetch a.bytes (insnCount before * Bytecode.insnWidth) =
      if i.op.isExecutable then .ok (a.resolve i)
      else .error ⟨(insnCount before * Bytecode.insnWidth : Nat),
        .unknownOpcode i.op.toByte⟩ := by
  have hl : (solid a.code).map a.resolve =
      (solid before).map a.resolve ++ a.resolve i :: (solid rest).map a.resolve := by
    have hc : solid (i :: rest) = i :: solid rest := List.filter_cons_of_pos (by simp [hi])
    rw [h, solid_append, hc, List.map_append, List.map_cons]
  have hf := Bytecode.fetch_flatMap _ (a.pool.flatMap (· ++ [0])) _ _ _ hl
  rw [List.length_map, length_solid, op_resolve] at hf
  exact hf

theorem length_le_length_flatMap (pool : List Bytes) :
    pool.length ≤ (pool.flatMap (· ++ [0])).length := by
  induction pool with
  | nil => exact Nat.le_refl 0
  | cons s pool ih =>
    simp only [List.flatMap_cons, List.length_append, List.length_cons, List.length_nil]
    omega

/-- What is read at the offset of a text, however long the texts after it are. -/
theorem textAt_bytes_of_offset {a : Assembly} {k : Nat} {s : Bytes} (hk : a.pool[k]? = some s)
    (hoffset :
      insnCount a.code * Bytecode.insnWidth +
        ((a.pool.take k).flatMap (· ++ [0])).length < 2 ^ 31) :
    Bytecode.textAt a.bytes (a.textOffset (Int32.ofNat k)) = .ok s.upToZero := by
  obtain ⟨hlt, rfl⟩ := List.getElem?_eq_some_iff.1 hk
  have hpool : a.pool = a.pool.take k ++ a.pool[k] :: a.pool.drop (k + 1) := by
    rw [List.getElem_cons_drop, List.take_append_drop]
  have hk31 : k < 2 ^ 31 := by
    have := length_le_length_flatMap (a.pool.take k)
    rw [List.length_take] at this
    omega
  let before := ((solid a.code).map a.resolve).flatMap Bytecode.encodeInsn ++
    (a.pool.take k).flatMap (· ++ [0])
  let after := (a.pool.drop (k + 1)).flatMap (· ++ [0])
  have hsplit : a.pool.flatMap (· ++ [0]) =
      (a.pool.take k).flatMap (· ++ [0]) ++ (a.pool[k] ++ 0 :: after) := by
    conv => lhs; rw [hpool]
    simp only [after, List.flatMap_append, List.flatMap_cons, List.append_assoc,
      List.cons_append, List.nil_append]
  have hbytes : a.bytes = before ++ (a.pool[k] ++ 0 :: after) := by
    rw [bytes, hsplit, ← List.append_assoc]
  have hlen : before.length =
      insnCount a.code * Bytecode.insnWidth + ((a.pool.take k).flatMap (· ++ [0])).length := by
    rw [List.length_append, Bytecode.length_flatMap_encodeInsn, List.length_map, length_solid]
  rw [textOffset, Bytecode.toInt_ofNat hk31, Int.toNat_natCast, hbytes, ← hlen]
  exact Bytecode.textAt_append_upToZero before _ after (hlen ▸ hoffset)

theorem textAt_bytes_upToZero {a : Assembly} {k : Nat} {s : Bytes} (hk : a.pool[k]? = some s)
    (hsize : a.bytes.length < 2 ^ 31) :
    Bytecode.textAt a.bytes (a.textOffset (Int32.ofNat k)) = .ok s.upToZero := by
  apply textAt_bytes_of_offset hk
  have hprefix := ((List.take_prefix k a.pool).flatMap (· ++ [0])).length_le
  rw [length_bytes] at hsize
  omega

theorem textAt_bytes {a : Assembly} {k : Nat} {s : Bytes} (hk : a.pool[k]? = some s)
    (hs : 0 ∉ s) (hsize : a.bytes.length < 2 ^ 31) :
    Bytecode.textAt a.bytes (a.textOffset (Int32.ofNat k)) = .ok s := by
  rw [textAt_bytes_upToZero hk hsize, Bytes.upToZero_eq_self.2 hs]

/-- A label stands for the offset of the instruction after its last place. -/
theorem labelOffset_eq {code before rest : List Insn} {i : Insn} {l : Int32}
    (h : code = before ++ i :: rest) (hi : i.places l = true)
    (hrest : ∀ j ∈ rest, j.places l = false) :
    labelOffset code l = Int32.ofNat (insnCount before * Bytecode.insnWidth) := by
  have hfind : code.zipIdx.findRev? (·.1.places l) = some (i, before.length) := by
    rw [List.findRev?_eq_find?_reverse, h, List.zipIdx_append, List.zipIdx_cons,
      List.reverse_append, List.reverse_cons, List.find?_append, List.find?_append]
    have hnone :
        ((rest.zipIdx (0 + before.length + 1)).reverse.find? (·.1.places l)) = none := by
      rw [List.find?_eq_none]
      rintro ⟨j, k⟩ hj
      have hmem : j ∈ rest := (List.mem_zipIdx (List.mem_reverse.1 hj)).2.2 ▸ List.getElem_mem _
      simp [hrest j hmem]
    rw [hnone]
    simp [hi]
  rw [labelOffset, hfind, h]
  simp only [List.take_left]

end Assembly
end Locksmith
