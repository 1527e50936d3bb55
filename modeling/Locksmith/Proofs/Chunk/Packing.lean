import Locksmith.Proofs.Chunk.Packed

namespace Locksmith
namespace Compression

variable {c : Compression}

def encoding (c : Compression) (data : Bytes) : Bytes :=
  match c.tag with
  | 1 => Lz4.encode data
  | 2 => Zstd.encode data
  | _ => data

/-- Compression fails only where it would not make the data shorter. -/
theorem compress_eq (hc : c.Supported) (hne : c ≠ none) (data : Bytes) :
    c.compress data =
      if (c.encoding data).length < data.length then .ok (c.encoding data)
      else .error .incompressible := by
  rcases hc with rfl | rfl | rfl
  · exact absurd rfl hne
  · rfl
  · rfl

end Compression

namespace Packed

variable {c : Compression} {data : Option Bytes}

/-- What data is packed to: its encoding if that is shorter, and otherwise the data itself. -/
def packed (c : Compression) (data : Option Bytes) : Packed :=
  let raw := data.getD []
  if (c.encoding raw).length < raw.length then
    ⟨c, Int64.ofNat raw.length, Digest.ofChunk raw, some (c.encoding raw)⟩
  else ⟨.none, Int64.ofNat raw.length, Digest.ofChunk raw, data⟩

theorem pack_packed (hc : c.Supported) (hdata : (data.getD []).length ≤ maxChunkSize) :
    pack c data = .ok (packed c data) := by
  unfold pack packed
  dsimp only
  rw [if_neg (Nat.not_lt.2 hdata)]
  split
  · rename_i hnone
    subst hnone
    rw [if_neg]
    exact Nat.lt_irrefl _
  · rename_i hne
    rw [Compression.compress_eq hc hne]
    by_cases hshort : (c.encoding (data.getD [])).length < (data.getD []).length
    · simp only [if_pos hshort]
    · simp only [if_neg hshort]

/-- A stored chunk is unpacked to data of its size and digest, if at all. -/
def Guarded (p : Packed) : Prop :=
  (∃ e, p.unpack = .error e ∧ ("chunk is corrupt: " : Bytes) <+: e.message) ∨
    ∃ data, p.unpack = .ok data ∧ 0 ≤ p.size.toInt ∧ p.size.toInt ≤ maxChunkSize ∧
      ((data.getD []).length : Int) = p.size.toInt ∧ Digest.ofChunk (data.getD []) = p.digest

theorem guarded (p : Packed) : p.Guarded := by
  rcases h : p.unpack with e | data
  · refine .inl ⟨e, h, ?_⟩
    cases e with
    | undecodable e => exact List.prefix_append _ _
    | digestMismatch => exact List.prefix_append _ _
  · obtain ⟨hraw, hdigest⟩ := keeps_of_unpack h
    obtain ⟨hneg, hmax, hlength⟩ := Compression.size_of_decompress hraw
    exact .inr ⟨data, h, hneg, hmax, hlength, hdigest⟩

/-- Data that is not too long is packed in every supported way, is not made longer and is given
back as it was, absent data as absent and empty data as empty; whatever else is unpacked has the
size and digest that are stored with it. -/
theorem packing_guarded (hc : c.Supported) (hdata : (data.getD []).length ≤ maxChunkSize)
    (p : Packed) :
    pack c data = .ok (packed c data) ∧ (packed c data).unpack = .ok data ∧
      ((packed c data).data.getD []).length ≤ (data.getD []).length ∧ p.Guarded := by
  have hpack := pack_packed hc hdata
  refine ⟨hpack, unpack_pack hpack, ?_, p.guarded⟩
  obtain ⟨-, -, ⟨-, hsame⟩ | ⟨-, out, hout, hshort⟩⟩ := pack_cases hpack
  · rw [hsame]
  · rw [hout]
    exact hshort.le

def letters : Bytes := List.replicate 64 97

theorem packing_guarded_letters :
    (packed .lz4 (some letters)).compression = .lz4 ∧
    (packed .lz4 (some letters)).unpack = .ok (some letters) ∧
      (packed .zstd (some letters)).compression = .zstd ∧
      (packed .zstd (some letters)).unpack = .ok (some letters) ∧
      pack .zstd none = .ok (packed .zstd none) ∧ (packed .zstd none).unpack = .ok none ∧
      { packed .lz4 (some letters) with size := -1 }.Guarded := by
  have hletters : ((some letters).getD []).length ≤ maxChunkSize := by decide
  have hnothing : ((none : Option Bytes).getD []).length ≤ maxChunkSize := by decide
  have hlz4 : (Compression.lz4.encoding letters).length < letters.length := by decide +kernel
  have hzstd : (Compression.zstd.encoding letters).length < letters.length := by decide +kernel
  obtain ⟨-, hback₁, -, hguarded⟩ := packing_guarded (c := .lz4) (.inr (.inl rfl)) hletters
    { packed .lz4 (some letters) with size := -1 }
  obtain ⟨-, hback₂, -⟩ := packing_guarded (c := .zstd) (.inr (.inr rfl)) hletters default
  obtain ⟨hpack, hback₃, -⟩ := packing_guarded (c := .zstd) (.inr (.inr rfl)) hnothing default
  refine ⟨?_, hback₁, ?_, hback₂, hpack, hback₃, hguarded⟩
  · exact congrArg Packed.compression (if_pos hlz4)
  · exact congrArg Packed.compression (if_pos hzstd)

end Packed
end Locksmith
