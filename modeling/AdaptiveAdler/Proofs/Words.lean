import Mathlib.Data.UInt

/-! Fields of a word.

A word is often several numbers side by side. Here is what it comes to as one number
(`toNat_append_eq_add`, `toNat_shiftLeft_or`), and how a shift and a mask read a part of it
(`toNat_field`). -/
namespace AdaptiveAdler

/-- A number of two parts, the high one first. -/
theorem toNat_append_eq_add {m n : Nat} (high : BitVec m) (low : BitVec n) :
    (high ++ low).toNat = high.toNat * 2 ^ n + low.toNat := by
  rw [BitVec.toNat_append, ← Nat.shiftLeft_add_eq_or_of_lt low.isLt, Nat.shiftLeft_eq]

/-- Two words in one, if both have room. -/
theorem toNat_shiftLeft_or {high low place : UInt32} (hplace : place.toNat < 32)
    (hhigh : high.toNat * 2 ^ place.toNat < 2 ^ 32) (hlow : low.toNat < 2 ^ place.toNat) :
    ((high <<< place) ||| low).toNat = high.toNat * 2 ^ place.toNat + low.toNat := by
  rw [UInt32.toNat_or, UInt32.toNat_shiftLeft, Nat.mod_eq_of_lt hplace, Nat.shiftLeft_eq,
    Nat.mod_eq_of_lt hhigh, ← Nat.shiftLeft_eq, ← Nat.shiftLeft_add_eq_or_of_lt hlow]

/-- A shift and a mask of `n` ones read the field of `n` bits at a place. -/
theorem toNat_field (word : UInt32) {place mask : UInt32} {n : Nat}
    (hplace : place.toNat < 32) (hmask : mask.toNat = 2 ^ n - 1) :
    ((word >>> place) &&& mask).toNat = (word.toBitVec.extractLsb' place.toNat n).toNat := by
  rw [UInt32.toNat_and, hmask, Nat.and_two_pow_sub_one_eq_mod, UInt32.toNat_shiftRight,
    Nat.mod_eq_of_lt hplace, BitVec.extractLsb'_toNat, UInt32.toNat_toBitVec]

end AdaptiveAdler
