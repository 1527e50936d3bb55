import Mathlib
import Locksmith.Data.LittleEndian

namespace Locksmith
namespace LittleEndian

theorem length_ofNat (w n : Nat) : (ofNat w n).length = w := by
  induction w generalizing n with
  | zero => rfl
  | succ w ih => rw [ofNat, List.length_cons, ih]

theorem toNat_ofNat (w n : Nat) : toNat (ofNat w n) = n % 256 ^ w := by
  induction w generalizing n with
  | zero => rw [Nat.pow_zero, Nat.mod_one]; rfl
  | succ w ih =>
    have hb : ((n % 256).toUInt8).toNat = n % 256 := by simp
    rw [ofNat, toNat, ih, hb, Nat.pow_succ, Nat.mul_comm (256 ^ w), Nat.mod_mul]

theorem toNat_ofNat_of_lt {w n : Nat} (h : n < 256 ^ w) : toNat (ofNat w n) = n := by
  rw [toNat_ofNat, Nat.mod_eq_of_lt h]

theorem toNat_div_mod (s : Bytes) (i : Nat) : toNat s / 256 ^ i % 256 = (s.getD i 0).toNat := by
  induction s generalizing i with
  | nil => rw [toNat, Nat.zero_div]; rfl
  | cons b s ih =>
    have hb := b.toNat_lt
    cases i with
    | zero =>
      rw [toNat, Nat.pow_zero, Nat.div_one, List.getD_cons_zero]
      omega
    | succ i =>
      rw [List.getD_cons_succ, ← ih i, toNat, Nat.pow_succ', ← Nat.div_div_eq_div_mul]
      congr 2
      omega

end LittleEndian
end Locksmith
