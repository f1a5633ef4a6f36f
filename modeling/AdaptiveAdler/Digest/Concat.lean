import AdaptiveAdler.Sums

/-! Joining checksums.

The checksum of two adjacent byte strings follows from theirs and the length of
the second: the plain sum of the first counts once more for every byte after it,
and the leading one of the second is counted once only. The arithmetic is done
in 64-bit words on residues, so the length matters modulo 65521 only. -/
namespace AdaptiveAdler

def wideModulus : UInt64 := 65521

/-- The words that two joint sums go through before they are reduced. In each a modulus is
added before the subtraction, which therefore stays above zero. -/
structure JointWords where
  /-- The length of the second part, reduced. -/
  steps : UInt64
  plainSum : UInt64
  plainRaised : UInt64
  plain : UInt64
  weightedSum : UInt64
  /-- What the plain sum of the first part adds to the weighted sum. -/
  share : UInt64
  weightedShared : UInt64
  weightedRaised : UInt64
  weighted : UInt64

/-- The words for parts with the reduced sums `a` and `b`, the second part being `length`
bytes long. -/
def Sums.jointWords (a b : Sums) (length : UInt64) : JointWords :=
  let steps := length % wideModulus
  let plainSum := a.plain.toUInt64 + b.plain.toUInt64
  let plainRaised := plainSum + wideModulus
  let weightedSum := a.weighted.toUInt64 + b.weighted.toUInt64
  let share := steps * a.plain.toUInt64
  let weightedShared := weightedSum + share
  let weightedRaised := weightedShared + wideModulus
  { steps, plainSum, plainRaised, weightedSum, share, weightedShared, weightedRaised
    plain := plainRaised - 1
    weighted := weightedRaised - steps }

/-- The sums of a string whose parts have the reduced sums `a` and `b`, the second part
being `length` bytes long. -/
def Sums.join (a b : Sums) (length : UInt64) : Sums :=
  let words := a.jointWords b length
  ⟨(words.plain % wideModulus).toUInt32, (words.weighted % wideModulus).toUInt32⟩

/-- The checksum of a string whose parts have checksums `a` and `b`, the second
part being `length` bytes long. -/
def combine (a b : UInt32) (length : UInt64) : UInt32 :=
  ((Sums.unpack a).reduce.join (Sums.unpack b).reduce length).pack

/-- Folds parts, given by checksum and length, onto a checksum, keeping every
intermediate result. -/
def combineChain (digest : UInt32) : List (UInt32 × UInt64) → List UInt32
  | [] => []
  | (part, length) :: rest =>
    let joined := combine digest part length
    joined :: combineChain joined rest

end AdaptiveAdler
