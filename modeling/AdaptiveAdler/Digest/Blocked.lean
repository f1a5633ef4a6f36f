import AdaptiveAdler.Buffer
import AdaptiveAdler.Sums

/-! The checksum by blocks.

The bytes are taken in blocks of at most `deferralLimit`, each absorbed in groups
of sixteen without reduction; the sums are reduced once at the end of a block.
No vector instructions are needed, so this kernel runs everywhere. -/
namespace AdaptiveAdler.Blocked

/-- How many bytes the inner loop absorbs at a time. -/
def groupSize : Nat := 16

theorem groupSize_pos : 0 < groupSize := by decide

/-- A block: groups of sixteen, and a last shorter group. -/
def absorbBlock (s : Sums) (block : Buffer) : Sums :=
  (block.pieces groupSize groupSize_pos).foldl (fun s group => s.absorbAll group.bytes) s

def step (s : Sums) (block : Buffer) : Sums := (absorbBlock s block).reduce

def blocks (b : Buffer) : List Buffer := b.pieces deferralLimit deferralLimit_pos

def update (digest : UInt32) (b : Buffer) : UInt32 :=
  ((blocks b).foldl step (Sums.unpack digest)).pack

theorem foldl_absorbAll (s : Sums) (groups : List Buffer) :
    groups.foldl (fun s group => s.absorbAll group.bytes) s =
      s.absorbAll (groups.flatMap Buffer.bytes) :=
  List.foldl_flatMap.symm

/-- Grouping changes the order of nothing. -/
theorem absorbBlock_eq (s : Sums) (block : Buffer) : absorbBlock s block = s.absorbAll block.bytes := by
  rw [absorbBlock, foldl_absorbAll, Buffer.flatMap_pieces]

end AdaptiveAdler.Blocked
