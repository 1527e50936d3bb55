import Locksmith.Chunk.Packed
import Locksmith.Proofs.Cbor.ReadBack
import Locksmith.Proofs.Compression.Lz4
import Locksmith.Proofs.Compression.Zstd.Frame

namespace Locksmith

namespace Digest

theorem length_toBytes (d : Digest) : d.toBytes.length = 32 := by
  rw [toBytes, Vector.length_toList]

theorem ofBytes_toBytes (d : Digest) : ofBytes d.toBytes = d := by
  apply congrArg Digest.mk
  apply Vector.ext
  intro i hi
  rw [Vector.getElem_ofFn]
  simp [toBytes, Vector.getElem?_eq_getElem hi]

end Digest

namespace Compression

/-- The ways to compress that have a meaning. -/
def Supported (c : Compression) : Prop := c = none ∨ c = lz4 ∨ c = zstd

instance (c : Compression) : Decidable c.Supported := inferInstanceAs (Decidable (_ ∨ _))

variable {data encoded out : Bytes}

theorem eq_of_ifSmaller (h : ifSmaller data encoded = .ok out) :
    out = encoded ∧ out.length < data.length := by
  unfold ifSmaller at h
  split at h
  · rename_i hlength
    cases h
    exact ⟨rfl, hlength⟩
  · cases h

theorem incompressible_of_ifSmaller {e : Error} (h : ifSmaller data encoded = .error e) :
    e = .incompressible := by
  unfold ifSmaller at h
  split at h
  · cases h
  · cases h
    rfl

theorem ofSize_length (wrong : Nat → Nat → DecodeError) (data : Bytes) :
    ofSize data.length wrong data = .ok data := if_pos rfl

theorem length_of_ofSize {want : Nat} {wrong : Nat → Nat → DecodeError}
    (h : ofSize want wrong data = .ok out) : out = data ∧ out.length = want := by
  unfold ofSize at h
  split at h
  · rename_i hlength
    cases h
    exact ⟨rfl, hlength⟩
  · cases h

theorem decompress_none {size : Int} (h : none.decompress size data = .ok out) :
    out = data := by
  unfold decompress at h
  split at h
  · cases h
  · exact (length_of_ofSize h).1

theorem decompress_self (h : data.length ≤ maxChunkSize) :
    none.decompress data.length data = .ok data := by
  rw [decompress, if_neg (by omega)]
  exact ofSize_length _ data

/-- What does not fail to be compressed gets shorter and can be decompressed. -/
theorem decompress_compress {c : Compression} (hc : c ≠ none) (h : c.compress data = .ok out)
    (hdata : data.length ≤ maxChunkSize) :
    c.decompress data.length out = .ok data ∧ out.length < data.length := by
  obtain ⟨tag⟩ := c
  rw [decompress, if_neg (by omega)]
  unfold compress at h
  dsimp only [Int.toNat_natCast] at h ⊢
  split at h
  · exact absurd rfl hc
  · obtain ⟨rfl, hlength⟩ := eq_of_ifSmaller h
    rw [Lz4.decode_encode]
    exact ⟨ofSize_length _ data, hlength⟩
  · obtain ⟨rfl, hlength⟩ := eq_of_ifSmaller h
    rw [Zstd.decode_encode (hdata.trans_lt (by decide))]
    exact ⟨ofSize_length _ data, hlength⟩
  · cases h

theorem compress_supported {c : Compression} (hc : c.Supported) {e : Error}
    (h : c.compress data = .error e) : e = .incompressible := by
  rcases hc with rfl | rfl | rfl
  · cases h
  · exact incompressible_of_ifSmaller h
  · exact incompressible_of_ifSmaller h

/-- Only data of the size that was asked for is given. -/
theorem size_of_decompress {c : Compression} {size : Int}
    (h : c.decompress size data = .ok out) :
    0 ≤ size ∧ size ≤ maxChunkSize ∧ (out.length : Int) = size := by
  have hfits {n : Nat} {wrong : Nat → Nat → DecodeError} {x : Except DecodeError Bytes}
      (hx : x >>= ofSize n wrong = .ok out) : out.length = n := by
    rcases x with e | raw
    · cases hx
    · exact (length_of_ofSize hx).2
  unfold decompress at h
  split at h
  · cases h
  · rename_i hsize
    have hlength : out.length = size.toNat := by
      dsimp only at h
      split at h
      · exact (length_of_ofSize h).2
      · exact hfits h
      · exact hfits h
      · cases h
    omega

theorem length_of_decompress {c : Compression} {size : Int}
    (h : c.decompress size data = .ok out) : out.length ≤ maxChunkSize := by
  obtain ⟨-, hsize, hlength⟩ := size_of_decompress h
  omega

end Compression

namespace Packed

variable {c : Compression} {data : Option Bytes} {p q : Packed} {b : Bytes}

/-- The data of a stored chunk is `b`, whether it is absent or empty. -/
def Keeps (p : Packed) (b : Bytes) : Prop :=
  p.compression.decompress p.size.toInt (p.data.getD []) = .ok b ∧ Digest.ofChunk b = p.digest

theorem Keeps.unpack (h : p.Keeps b) :
    p.unpack = .ok (if p.compression = .none then p.data else some b) := by
  simp only [Packed.unpack, h.1, Except.mapError, bind, Except.bind, h.2, ne_eq,
    not_true_eq_false, if_false, pure, Except.pure]

theorem Keeps.getD_unpack (h : p.Keeps b) : ∃ data, p.unpack = .ok data ∧ data.getD [] = b := by
  refine ⟨_, h.unpack, ?_⟩
  split
  · rename_i hc
    have hraw := h.1
    rw [hc] at hraw
    exact (Compression.decompress_none hraw).symm
  · rfl

theorem keeps_of_unpack (h : p.unpack = .ok data) : p.Keeps (data.getD []) := by
  rcases hraw : p.compression.decompress p.size.toInt (p.data.getD []) with e | b
  · rw [unpack, hraw] at h
    cases h
  · by_cases hdigest : Digest.ofChunk b = p.digest
    · have hkeeps : p.Keeps b := ⟨hraw, hdigest⟩
      obtain ⟨data', hdata', rfl⟩ := hkeeps.getD_unpack
      cases h.symm.trans hdata'
      exact hkeeps
    · simp only [unpack, hraw, Except.mapError, bind, Except.bind, ne_eq, hdigest,
        not_false_eq_true, if_true, throw, throwThe, MonadExceptOf.throw] at h
      cases h

/-- Absent data and empty data are alike. -/
theorem Keeps.with_data (h : p.Keeps b) {data : Option Bytes}
    (hdata : data.getD [] = p.data.getD []) : { p with data }.Keeps b := by
  rw [Keeps, hdata]
  exact h

theorem Keeps.length_le (h : p.Keeps b) : b.length ≤ maxChunkSize :=
  Compression.length_of_decompress h.1

theorem toInt_size {n : Nat} (h : n ≤ maxChunkSize) : (Int64.ofNat n).toInt = n := by
  have hmax : maxChunkSize < 2 ^ 63 := by decide
  exact Int64.toInt_ofNat_of_lt (h.trans_lt hmax)

theorem keeps_stored (h : (data.getD []).length ≤ maxChunkSize) :
    Keeps ⟨.none, Int64.ofNat (data.getD []).length, Digest.ofChunk (data.getD []), data⟩
      (data.getD []) := by
  refine ⟨?_, rfl⟩
  rw [toInt_size h]
  exact Compression.decompress_self h

/-- What packing gives: the data as it is, or a shorter form of it. -/
theorem pack_cases (h : pack c data = .ok p) :
    (data.getD []).length ≤ maxChunkSize ∧ p.Keeps (data.getD []) ∧
    (p.compression = .none ∧ p.data = data ∨
      p.compression ≠ .none ∧ ∃ out, p.data = some out ∧
        out.length < (data.getD []).length) := by
  unfold pack at h
  dsimp only at h
  split at h
  · cases h
  · rename_i hlength
    have hle : (data.getD []).length ≤ maxChunkSize := Nat.le_of_not_lt hlength
    split at h
    · rename_i hc
      cases h
      rw [hc]
      exact ⟨hle, keeps_stored hle, .inl ⟨rfl, rfl⟩⟩
    · rename_i hc
      rcases hout : c.compress (data.getD []) with e | out
      · rw [hout] at h
        cases e with
        | incompressible =>
          cases h
          exact ⟨hle, keeps_stored hle, .inl ⟨rfl, rfl⟩⟩
        | unsupported c' => cases h
      · rw [hout] at h
        cases h
        obtain ⟨hback, hshort⟩ := Compression.decompress_compress hc hout hle
        refine ⟨hle, ⟨?_, rfl⟩, .inr ⟨hc, out, rfl, hshort⟩⟩
        rw [toInt_size hle]
        exact hback

theorem unpack_pack (h : pack c data = .ok p) : p.unpack = .ok data := by
  obtain ⟨-, hkeeps, ⟨hc, hdata⟩ | ⟨hc, out, -, hshort⟩⟩ := pack_cases h
  · rw [hkeeps.unpack, if_pos hc, hdata]
  · rw [hkeeps.unpack, if_neg hc]
    rcases data with _ | b
    · cases hshort
    · rfl

/-- Packing in a supported way fails for data that is too long and for no other. -/
theorem pack_supported (hc : c.Supported) (data : Option Bytes) :
    if maxChunkSize < (data.getD []).length then pack c data =
      .error (.tooLarge (data.getD []).length)
    else ∃ p, pack c data = .ok p := by
  unfold pack
  dsimp only
  split
  · rfl
  · split
    · exact ⟨_, rfl⟩
    · rcases hout : c.compress (data.getD []) with e | out
      · cases Compression.compress_supported hc hout
        exact ⟨_, rfl⟩
      · exact ⟨_, rfl⟩

theorem asBytes_dataItem (data : Option Bytes) : (dataItem data).asBytes = .ok data := by
  cases data with
  | none => rfl
  | some b => rfl

def fields (p : Packed) : Cbor.Record :=
  [(1, .nat p.compression.tag.toUInt64), (2, .ofInt64 p.size), (3, .bytes p.digest.toBytes),
    (4, dataItem p.data)]

theorem ofItem_toItem (p : Packed) : ofItem p.toItem = .ok p := by
  have hrecord : p.toItem.asRecord = .ok p.fields := rfl
  have htag : (p.fields.field 1).asByte = .ok p.compression.tag := Cbor.Item.asByte_nat _
  have hsize : (p.fields.field 2).asInt64 = .ok p.size := Cbor.Item.asInt64_ofInt64 _
  have hdigest : (p.fields.field 3).asBlock 32 = .ok p.digest.toBytes :=
    Cbor.Item.asBlock_bytes p.digest.length_toBytes
  have hdata : (p.fields.field 4).asBytes = .ok p.data := asBytes_dataItem _
  simp only [ofItem, hrecord, htag, hsize, hdigest, hdata, bind, Except.bind,
    Digest.ofBytes_toBytes, pure, Except.pure]

theorem toItem_sorted (p : Packed) : Cbor.KeysSorted
    [(.nat 1, .nat p.compression.tag.toUInt64), (.nat 2, .ofInt64 p.size),
      (.nat 3, .bytes p.digest.toBytes), (.nat 4, dataItem p.data)] := by
  simp only [Cbor.KeysSorted, List.map_cons, List.map_nil]
  decide

theorem length_data_le (p : Packed) : (p.data.getD []).length ≤ p.toItem.encode.length := by
  have hitem :=
    Cbor.length_le_encode_map (k := .nat 4) (v := dataItem p.data) p.toItem_sorted (by simp)
  apply Nat.le_trans _ hitem
  rcases p.data with _ | b
  · exact Nat.zero_le _
  · rw [dataItem, Cbor.Item.encode, List.length_append]
    exact Nat.le_add_left _ _

theorem length_toItem_le (p : Packed) :
    p.toItem.encode.length ≤ 113 + (p.data.getD []).length := by
  have hmap := Cbor.length_map_le p.toItem_sorted
  have hdigest := Cbor.length_bytes_le p.digest.toBytes
  have hdata : (dataItem p.data).encode.length ≤ 9 + (p.data.getD []).length := by
    rcases p.data with _ | b
    · exact Nat.le_add_left 1 8
    · exact Cbor.length_bytes_le b
  rw [p.digest.length_toBytes] at hdigest
  simp only [List.map_cons, List.map_nil, List.sum_cons, List.sum_nil] at hmap
  rw [toItem]
  linarith [Cbor.length_nat_le 1, Cbor.length_nat_le 2, Cbor.length_nat_le 3,
    Cbor.length_nat_le 4, Cbor.length_nat_le p.compression.tag.toUInt64,
    Cbor.length_ofInt64_le p.size]

theorem toItem_reads {depth : Nat} (h : (p.data.getD []).length < 2 ^ 64) :
    Cbor.Reads (depth + 1) p.toItem := by
  have hdata : Cbor.Reads depth (dataItem p.data) := by
    rcases hp : p.data with _ | b
    · exact .null
    · rw [hp] at h
      exact .bytes h
  have hdigest : p.digest.toBytes.length < 2 ^ 64 := by
    rw [p.digest.length_toBytes]
    decide
  apply Cbor.Reads.map
  · simp only [List.forall_mem_cons]
    exact ⟨⟨.nat _, .nat _⟩, ⟨.nat _, .ofInt64 _⟩, ⟨.nat _, .bytes hdigest⟩, ⟨.nat _, hdata⟩,
      List.forall_mem_nil _⟩
  · exact p.toItem_sorted
  · change 4 ≤ Cbor.maxCount
    decide

end Packed
end Locksmith
