import AdaptiveAdler.Buffer
import AdaptiveAdler.Sums

/-! How a buffer is divided for a vector kernel.

A vector kernel reads whole segments from aligned addresses, and sums at most so
many bytes before its lanes have to be emptied. Its `Geometry` says how many. A
buffer is then divided into a lead that reaches the alignment, pieces of whole
segments, and a tail shorter than a segment; lead and tail are summed byte by
byte. -/
namespace AdaptiveAdler

/-- What a vector kernel asks of the chunks it is given. -/
structure Geometry where
  /-- The first piece begins at a multiple of this. -/
  alignment : Nat
  /-- Bytes the kernel takes in one round. -/
  segment : Nat
  /-- The longest chunk whose lanes cannot overflow. -/
  largest : Nat

namespace Geometry

/-- The lengths a kernel of this geometry accepts. -/
def Legal (g : Geometry) (length : Nat) : Prop :=
  0 < length ∧ g.segment ∣ length ∧ length ≤ g.largest

instance (g : Geometry) (length : Nat) : Decidable (g.Legal length) :=
  inferInstanceAs (Decidable (_ ∧ _ ∧ _))

/-- The length of a full piece: as many whole segments as the kernel and the
deferral limit allow. It is zero if not one segment fits. -/
def pieceSize (g : Geometry) : Nat := min deferralLimit g.largest / g.segment * g.segment

/-- The longest legal prefix of a string of this length; zero if there is none. -/
def longestLegal (g : Geometry) (length : Nat) : Nat := min length g.largest / g.segment * g.segment

end Geometry

/-- A buffer divided for a geometry. -/
structure Schedule where
  lead : Buffer
  pieces : List Buffer
  tail : Buffer

namespace Schedule

def bytes (p : Schedule) : List UInt8 :=
  p.lead.bytes ++ p.pieces.flatMap Buffer.bytes ++ p.tail.bytes

end Schedule

/-- The lead ends at the first aligned address, the pieces hold as many whole
segments as are left, and the tail holds the rest. -/
def Geometry.schedule (g : Geometry) (room : 0 < g.pieceSize) (b : Buffer) : Schedule :=
  let lead := min (b.padding g.alignment) b.size
  let rest := b.drop lead
  let body := rest.size / g.segment * g.segment
  ⟨b.take lead, (rest.take body).pieces g.pieceSize room, rest.drop body⟩

/-- A schedule loses no byte and repeats none. -/
theorem Geometry.bytes_schedule (g : Geometry) (room : 0 < g.pieceSize) (b : Buffer) :
    (g.schedule room b).bytes = b.bytes := by
  simp only [Geometry.schedule, Schedule.bytes, Buffer.flatMap_pieces, Buffer.bytes_take,
    Buffer.bytes_drop, List.append_assoc, List.take_append_drop]

end AdaptiveAdler
