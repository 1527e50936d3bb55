import Locksmith.Data.LittleEndian
import Locksmith.Data.Word

namespace Locksmith
namespace Poly1305

def prime : Nat := 1 <<< 130 - 5

/-- Clears the bits that a point may not have. -/
def clamp (r : Nat) : Nat := r &&& 0x0ffffffc0ffffffc0ffffffc0fffffff

/-- The sixteen bytes that authenticate `data` under a one-time key of 32 bytes. -/
def tag (key data : Bytes) : Bytes :=
  let r := clamp (LittleEndian.toNat (key.take 16))
  let s := LittleEndian.toNat ((key.drop 16).take 16)
  let h := (Bytes.pieces 15 data).foldl
    (fun h b => (h + LittleEndian.toNat (b ++ [1])) * r % prime) 0
  LittleEndian.ofNat 16 (h + s)

end Poly1305
end Locksmith
