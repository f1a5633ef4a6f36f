/-! The two running sums.

An Adler-32 checksum packs two sums modulo 65521: the plain sum of the bytes and
the weighted sum, in which a byte counts once for itself and once for every byte
after it. Between reductions both live in 32-bit words that wrap.

`byteSum` and `weightedSum` are the two sums as natural numbers, without a
modulus and without words: they say what every kernel has to add. -/
namespace AdaptiveAdler

/-- The largest prime below 2^16. -/
def modulus : UInt32 := 65521

/-- The most bytes that can be absorbed between two reductions: from sums below
the modulus, 5552 bytes of any value keep both sums below 2^32. -/
def deferralLimit : Nat := 5552

theorem deferralLimit_pos : 0 < deferralLimit := by decide

/-- The largest weighted sum that `n` bytes can reach from reduced sums. -/
def worstWeighted (n : Nat) : Nat :=
  255 * (n * (n + 1) / 2) + (n + 1) * (modulus.toNat - 1)

/-- The deferral limit is the last length whose worst case fits a 32-bit word. -/
theorem worstWeighted_deferralLimit :
    worstWeighted deferralLimit < 0x100000000 ∧
      0x100000000 ≤ worstWeighted (deferralLimit + 1) := by
  decide

/-- The checksum of no bytes: plain sum one, weighted sum zero. -/
def initial : UInt32 := 1

/-- A packed checksum is one 32-bit word. -/
def digestSize : Nat := 4

/-- The two running sums, as words that wrap. -/
structure Sums where
  plain : UInt32
  weighted : UInt32
deriving DecidableEq

namespace Sums

/-- The plain sum is the low half of a packed checksum and the weighted sum the high half. -/
def unpack (digest : UInt32) : Sums := ⟨digest &&& 0xFFFF, digest >>> 16⟩

/-- The high bits of the weighted sum are shifted out; the plain sum is not masked. -/
def pack (s : Sums) : UInt32 := (s.weighted <<< 16) ||| s.plain

def reduce (s : Sums) : Sums := ⟨s.plain % modulus, s.weighted % modulus⟩

def Reduced (s : Sums) : Prop := s.plain < modulus ∧ s.weighted < modulus

def absorb (s : Sums) (byte : UInt8) : Sums :=
  let plain := s.plain + byte.toUInt32
  ⟨plain, s.weighted + plain⟩

def absorbAll (s : Sums) (bytes : List UInt8) : Sums := bytes.foldl absorb s

theorem absorbAll_append (s : Sums) (a b : List UInt8) :
    s.absorbAll (a ++ b) = (s.absorbAll a).absorbAll b := List.foldl_append

end Sums

/-! ### The sums as natural numbers -/

def byteSum : List UInt8 → Nat
  | [] => 0
  | b :: rest => b.toNat + byteSum rest

/-- The last byte counts once, the one before it twice, and so on. -/
def weightedSum : List UInt8 → Nat
  | [] => 0
  | b :: rest => (rest.length + 1) * b.toNat + weightedSum rest

/-- A packed checksum with both halves reduced modulo 65521. -/
def normalize (digest : UInt32) : UInt32 := (Sums.unpack digest).reduce.pack

end AdaptiveAdler
