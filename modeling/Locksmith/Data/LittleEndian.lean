import Locksmith.Text.Bytes

namespace Locksmith
namespace LittleEndian

/-- The low `width` bytes of a number. -/
def ofNat : (width : Nat) → Nat → Bytes
  | 0, _ => []
  | w + 1, n => (n % 256).toUInt8 :: ofNat w (n / 256)

/-- The number that some bytes stand for. -/
def toNat : Bytes → Nat
  | [] => 0
  | b :: r => b.toNat + 256 * toNat r

end LittleEndian
end Locksmith
