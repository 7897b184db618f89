import Mathlib.Data.Nat.Bitwise
import Mathlib.Tactic.NormNum

/-!
# Fields of a machine word

Numbers packed side by side into one word by shift-and-or, and taken out again by
shift-and-mask, in terms of addition, division and remainder. Packing is exact while each
number fits in the bits below the next one.
-/

namespace LinkState

namespace BitField

/-- Or with a number shifted past the bits of the other is addition. -/
theorem lor_shiftLeft {low w : Nat} (high : Nat) (h : low < 2 ^ w) :
    low ||| high <<< w = low + 2 ^ w * high := by
  rw [Nat.lor_comm, ← Nat.shiftLeft_add_eq_or_of_lt h, Nat.shiftLeft_eq,
    Nat.add_comm, Nat.mul_comm]

/-- Shift and mask take out a field of `w` bits. -/
theorem shiftRight_land_mask (x off w : Nat) :
    (x >>> off) &&& (2 ^ w - 1) = x / 2 ^ off % 2 ^ w := by
  rw [Nat.and_two_pow_sub_one_eq_mod, Nat.shiftRight_eq_div_pow]

/-- A shift that loses no bit of a 64-bit word. -/
theorem toNat_shiftLeft {x s : UInt64} (hs : s.toNat < 64)
    (h : 2 ^ s.toNat * x.toNat < 2 ^ 64) : (x <<< s).toNat = x.toNat <<< s.toNat := by
  rw [UInt64.toNat_shiftLeft, Nat.mod_eq_of_lt hs, Nat.mod_eq_of_lt]
  rw [Nat.shiftLeft_eq, Nat.mul_comm]
  exact h

/-- One more does not wrap while the word is not full. -/
theorem toNat_add_one {x : UInt64} (h : x.toNat + 1 < 2 ^ 64) :
    (x + 1).toNat = x.toNat + 1 := by
  rw [UInt64.toNat_add, Nat.mod_eq_of_lt]
  · rfl
  · exact h

end BitField

end LinkState
