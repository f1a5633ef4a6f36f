import AdaptiveAdler.Kernel.Chunked
import AdaptiveAdler.Lanes.Fold
import AdaptiveAdler.Lanes.Segments

/-! The 256-bit and the 512-bit kernel.

Both work alike, on eight lanes or on sixteen. A segment is four rows of lanes
long, and each of its rows has a column of its own: plain lanes that gather the
bytes of the row, and weighted lanes that gather the plain lanes as they were
before the segment. A weighted lane stands for a whole segment of positions, and
each plain lane is finally weighted by its distance to the end of the segment. -/
namespace AdaptiveAdler.Columns

/-- The accumulators for one row of a segment. -/
structure Column (n : Nat) where
  plain : Lanes n
  weighted : Lanes n

namespace Column
variable {n : Nat}

def start : Column n := ⟨Lanes.zero n, Lanes.zero n⟩

/-- One row; the weighted lanes gather the plain lanes before the row is added. -/
def step (c : Column n) (row : Lanes n) : Column n := ⟨c.plain.add row, c.weighted.add c.plain⟩

end Column

/-- Four columns, one for each row of a segment. -/
structure State (n : Nat) where
  first : Column n
  second : Column n
  third : Column n
  fourth : Column n

variable {n : Nat}

def start : State n := ⟨.start, .start, .start, .start⟩

def step (s : State n) (segment : Vector UInt8 (4 * n)) : State n where
  first := s.first.step (Lanes.widen n 0 (by omega) segment)
  second := s.second.step (Lanes.widen n n (by omega) segment)
  third := s.third.step (Lanes.widen n (2 * n) (by omega) segment)
  fourth := s.fourth.step (Lanes.widen n (3 * n) (by omega) segment)

def run (s : State n) (rows : List (Vector UInt8 (4 * n))) : State n := rows.foldl step s

def weights (n top : Nat) : Lanes n := Vector.ofFn fun i => UInt32.ofNat (top - i.val)

def plainLanes (s : State n) : Lanes n :=
  (s.first.plain.add s.second.plain).add (s.third.plain.add s.fourth.plain)

/-- The weighted lanes of all columns, `2 ^ shift` positions each, with the
weighted plain lanes brought in. -/
def weightedLanes (shift : UInt32) (s : State n) : Lanes n :=
  let whole := (s.first.weighted.add s.second.weighted).add (s.third.weighted.add s.fourth.weighted)
  ((((whole.shiftLeft shift).add (s.first.plain.mul (weights n (4 * n)))).add
    (s.second.plain.mul (weights n (3 * n)))).add
    (s.third.plain.mul (weights n (2 * n)))).add
    (s.fourth.plain.mul (weights n n))

/-- A chunk summed in columns and folded by `finish`. -/
def accumulate (shift : UInt32) (finish : Sums → Lanes n → Lanes n → Sums) (s : Sums)
    (chunk : List UInt8) : Sums :=
  let final := run start (segments (4 * n) chunk)
  finish s (plainLanes final) (weightedLanes shift final)

/-- Eight lanes, segments of 32 bytes. -/
def accumulateEight : Sums → List UInt8 → Sums := accumulate 5 Lanes.finishEight

/-- Sixteen lanes, segments of 64 bytes. -/
def accumulateSixteen : Sums → List UInt8 → Sums := accumulate 6 Lanes.finishSixteen

end AdaptiveAdler.Columns
