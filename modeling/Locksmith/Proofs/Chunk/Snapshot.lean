import Locksmith.Chunk.Snapshot
import Locksmith.Proofs.Chunk.Packed
import Locksmith.Proofs.Machine.Layout

namespace Locksmith
namespace ChaCha20

theorem length_block (key nonce : Bytes) (counter : UInt32) :
    (block key nonce counter).length = 64 := by
  have hword (x : UInt32) : (Word.toLittle x).length = 4 := rfl
  rw [block, List.length_flatMap, List.map_congr_left fun x _ => hword x, List.map_const',
    List.sum_replicate, Vector.length_toList]
  rfl

theorem length_keyStream (key nonce : Bytes) (counter : UInt32) (n : Nat) :
    (keyStream key nonce counter n).length = n := by
  have hblocks :
      ((List.range ((n + 63) / 64)).flatMap fun i =>
        block key nonce (counter + i.toUInt32)).length =
      (n + 63) / 64 * 64 := by
    rw [List.length_flatMap, List.map_congr_left fun i _ => length_block key nonce _,
      List.map_const', List.sum_replicate, List.length_range, smul_eq_mul]
  rw [keyStream, List.length_take, hblocks]
  omega

theorem length_apply (key nonce : Bytes) (counter : UInt32) (data : Bytes) :
    (apply key nonce counter data).length = data.length := by
  rw [apply, List.length_zipWith, length_keyStream, Nat.min_self]

/-- Encryption undoes itself. -/
theorem apply_apply (key nonce : Bytes) (counter : UInt32) (data : Bytes) :
    apply key nonce counter (apply key nonce counter data) = data := by
  apply List.ext_getElem
  · rw [length_apply, length_apply]
  · intro i _ _
    simp only [apply, List.length_zipWith, length_keyStream, Nat.min_self, List.getElem_zipWith]
    rw [UInt8.xor_assoc, UInt8.xor_self, UInt8.xor_zero]

end ChaCha20

namespace Aead

variable {key nonce aad text : Bytes}

theorem length_tag (key nonce aad text : Bytes) : (tag key nonce aad text).length = tagSize :=
  LittleEndian.length_ofNat _ _

theorem length_encrypt (key nonce aad text : Bytes) :
    (encrypt key nonce aad text).length = text.length + tagSize := by
  simp only [encrypt, List.length_append, ChaCha20.length_apply, length_tag]

theorem decrypt_encrypt (key nonce aad text : Bytes) :
    decrypt key nonce aad (encrypt key nonce aad text) = some text := by
  have hlength := length_encrypt key nonce aad text
  simp only [decrypt, hlength, Nat.add_sub_cancel]
  have hout :
      (ChaCha20.apply (session key nonce).1 (session key nonce).2 1 text).length =
        text.length :=
    ChaCha20.length_apply _ _ _ _
  simp only [encrypt, List.take_left' hout, List.drop_left' hout, ChaCha20.apply_apply]
  simp

end Aead

namespace Sealing

theorem unwrap_wrap {nonce master header data blob : Bytes}
    (hnonce : nonce.length = Aead.nonceSize)
    (h : wrap nonce master header data = .ok blob) : unwrap master header blob = .ok data := by
  rcases hkey : deriveKey master with e | key
  · rw [wrap, hkey] at h
    cases h
  · rw [wrap, hkey] at h
    cases h
    have hsize : overhead ≤
        (version :: nonce ++ Aead.encrypt key nonce (version :: header) data).length := by
      rw [List.length_append, List.length_cons, hnonce, Aead.length_encrypt, overhead]
      omega
    have hblob :
        ((version :: nonce ++ Aead.encrypt key nonce (version :: header) data).drop 1).take
          Aead.nonceSize = nonce := List.take_left' hnonce
    have htext :
        (version :: nonce ++ Aead.encrypt key nonce (version :: header) data).drop
          (1 + Aead.nonceSize) = Aead.encrypt key nonce (version :: header) data := by
      apply List.drop_left'
      rw [List.length_cons, hnonce, Nat.add_comm]
    rw [unwrap, hblob, htext, if_neg (Nat.not_lt.2 hsize), hkey]
    simp only [List.cons_append, List.headD_cons, ne_eq, not_true_eq_false, if_false, bind,
      Except.bind, Aead.decrypt_encrypt]
    rfl

theorem length_le_of_wrap {nonce master header data blob : Bytes}
    (h : wrap nonce master header data = .ok blob) : data.length ≤ blob.length := by
  rcases hkey : deriveKey master with e | key
  · rw [wrap, hkey] at h
    cases h
  · rw [wrap, hkey] at h
    cases h
    rw [List.length_append, Aead.length_encrypt]
    omega

end Sealing

namespace Snapshot

variable {nonce raw : Bytes} {key : Option Bytes} {item : Cbor.Item}

theorem length_header (isSealed : Bool) : (header isSealed).length = headerSize := by
  cases isSealed <;> rfl

theorem body_sorted (payload : Bytes) : Cbor.KeysSorted
    [(.nat 1, .bytes (Digest.ofSnapshot payload).toBytes), (.nat 2, .bytes payload)] := by
  simp only [Cbor.KeysSorted, List.map_cons, List.map_nil]
  decide

theorem body_reads {payload : Bytes} (h : payload.length < 2 ^ 64) :
    Cbor.Reads Cbor.maxDepth (body payload) := by
  apply Cbor.Reads.map
  · simp only [List.forall_mem_cons]
    have hdigest : (Digest.ofSnapshot payload).toBytes.length < 2 ^ 64 := by
      rw [Digest.length_toBytes]
      decide
    exact ⟨⟨.nat _, .bytes hdigest⟩, ⟨.nat _, .bytes h⟩, List.forall_mem_nil _⟩
  · exact body_sorted payload
  · change 2 ≤ Cbor.maxCount
    decide

theorem length_body (payload : Bytes) : payload.length ≤ (body payload).encode.length := by
  have hitem :=
    Cbor.length_le_encode_map (k := .nat 2) (v := .bytes payload)
      (body_sorted payload) (by simp)
  apply Nat.le_trans _ hitem
  rw [Cbor.Item.encode, List.length_append]
  exact Nat.le_add_left _ _

theorem length_body_le (payload : Bytes) :
    (body payload).encode.length ≤ 77 + payload.length := by
  have hmap := Cbor.length_map_le (body_sorted payload)
  have hdigest := Cbor.length_bytes_le (Digest.ofSnapshot payload).toBytes
  rw [Digest.length_toBytes] at hdigest
  simp only [List.map_cons, List.map_nil, List.sum_cons, List.sum_nil] at hmap
  rw [body]
  linarith [Cbor.length_nat_le 1, Cbor.length_nat_le 2, Cbor.length_bytes_le payload]

/-- What is read once the body is there. -/
theorem read_body {b : Bytes} {isSealed : Bool} (hitem : item.encode.length < 2 ^ 64)
    (hopen : if isSealed then ∃ k, key = some k ∧
      Sealing.unwrap k (header true) b = .ok (body item.encode).encode
      else b = (body item.encode).encode) :
    read key (header isSealed ++ b) = (Cbor.decode item.encode).mapError .decoding := by
  have hlength : ¬(header isSealed ++ b).length < headerSize := by
    rw [List.length_append, length_header]
    omega
  have hmagic : (header isSealed ++ b).startsWith magic = true := by
    cases isSealed <;> rfl
  have hhead : (header isSealed ++ b).take headerSize = header isSealed :=
    List.take_left' (length_header _)
  have hrest : (header isSealed ++ b).drop headerSize = b := List.drop_left' (length_header _)
  have hversion : (header isSealed).getD 8 0 = version := by cases isSealed <;> rfl
  have hdecode := Cbor.decode_encode (body_reads hitem)
  have hrecord : (body item.encode).asRecord =
      .ok [(1, .bytes (Digest.ofSnapshot item.encode).toBytes), (2, .bytes item.encode)] := rfl
  have hdigest :=
    Cbor.Item.asBlock_bytes (Digest.length_toBytes (Digest.ofSnapshot item.encode))
  have hfirst :
      Cbor.Record.field [(1, .bytes (Digest.ofSnapshot item.encode).toBytes),
        (2, .bytes item.encode)] 1 =
      .bytes (Digest.ofSnapshot item.encode).toBytes := rfl
  have hsecond :
      (Cbor.Record.field
        [(1, .bytes (Digest.ofSnapshot item.encode).toBytes), (2, .bytes item.encode)] 2
      ).asBytes = .ok (some item.encode) := rfl
  cases isSealed with
  | false =>
    have hflag : (header false).getD 9 0 &&& sealedFlag = 0 := rfl
    cases hopen
    simp only [read, hlength, hmagic, hhead, hrest, hversion, hflag, hdecode, hrecord, hfirst,
      hsecond, hdigest, Digest.ofBytes_toBytes, decide_false, Bool.not_true, Bool.or_self,
      Bool.false_eq_true, if_false, ne_eq, not_true_eq_false, bind, Except.bind, pure,
      Except.pure, Except.mapError, Option.getD_some]
  | true =>
    have hflag : (header true).getD 9 0 &&& sealedFlag ≠ 0 := by decide
    obtain ⟨k, rfl, hunwrap⟩ := hopen
    simp only [read, hlength, hmagic, hhead, hrest, hversion, hflag, hdecode, hrecord, hfirst,
      hsecond, hdigest, hunwrap, Digest.ofBytes_toBytes, decide_false, Bool.not_true,
      Bool.or_self, Bool.false_eq_true, if_false, ne_eq, not_true_eq_false, not_false_eq_true,
      if_true, bind, Except.bind, Except.mapError, Option.getD_some]

theorem length_le_of_write (h : write nonce key item = .ok raw) :
    item.encode.length ≤ raw.length := by
  apply (length_body _).trans
  cases key with
  | none =>
    cases h
    rw [List.length_append]
    exact Nat.le_add_left _ _
  | some k =>
    rcases hwrap : Sealing.wrap nonce k (header true) (body item.encode).encode with e | b
    · rw [write, hwrap] at h
      cases h
    · rw [write, hwrap] at h
      cases h
      rw [List.length_append]
      exact (Sealing.length_le_of_wrap hwrap).trans (Nat.le_add_left _ _)

/-- Reading a snapshot with the key that it was written with gives what its payload stands for.
-/
theorem read_write (hnonce : nonce.length = Aead.nonceSize)
    (hitem : item.encode.length < 2 ^ 64) (h : write nonce key item = .ok raw) :
    read key raw = (Cbor.decode item.encode).mapError .decoding := by
  cases key with
  | none =>
    cases h
    exact read_body hitem rfl
  | some k =>
    rcases hwrap : Sealing.wrap nonce k (header true) (body item.encode).encode with e | b
    · rw [write, hwrap] at h
      cases h
    · rw [write, hwrap] at h
      cases h
      exact read_body hitem ⟨k, rfl, Sealing.unwrap_wrap hnonce hwrap⟩

end Snapshot
end Locksmith
