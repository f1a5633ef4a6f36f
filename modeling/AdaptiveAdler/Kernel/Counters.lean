import AdaptiveAdler.Kernel.Chunked
import AdaptiveAdler.Lanes.Fold
import AdaptiveAdler.Lanes.Segments

/-! The 128-bit kernel.

Three kinds of accumulator run over the segments of 32 bytes. The byte sums of a
segment go onto the plain lanes; the plain lanes before it go onto the weighted
lanes, where they stand for 32 positions each; and a 16-bit counter for each of
the 32 offsets gathers the bytes at that offset. At the end each counter is
weighted by its distance to the end of the segment.

A counter stays below 2^15, so that it is not read as a negative number, for as
long as a chunk has at most 128 segments; that is where the largest chunk comes
from. -/
namespace AdaptiveAdler.Counters

structure State where
  plain : Lanes 4
  weighted : Lanes 4
  /-- Counters for the offsets 0 to 7, 8 to 15, 16 to 23 and 24 to 31. -/
  first : Lanes.Halves
  second : Lanes.Halves
  third : Lanes.Halves
  fourth : Lanes.Halves

def start : State where
  plain := Lanes.zero 4
  weighted := Lanes.zero 4
  first := Vector.replicate 8 0
  second := Vector.replicate 8 0
  third := Vector.replicate 8 0
  fourth := Vector.replicate 8 0

def step (s : State) (segment : Vector UInt8 32) : State where
  weighted := s.weighted.add s.plain
  plain := (s.plain.add (Lanes.byteSums 0 (by decide) segment)).add
    (Lanes.byteSums 16 (by decide) segment)
  first := Lanes.addHalves s.first (Lanes.widenHalves 0 (by decide) segment)
  second := Lanes.addHalves s.second (Lanes.widenHalves 8 (by decide) segment)
  third := Lanes.addHalves s.third (Lanes.widenHalves 16 (by decide) segment)
  fourth := Lanes.addHalves s.fourth (Lanes.widenHalves 24 (by decide) segment)

def run (s : State) (rows : List (Vector UInt8 32)) : State := rows.foldl step s

def weights (top : Nat) : Lanes.Halves := Vector.ofFn fun i => UInt16.ofNat (top - i.val)

/-- The weighted lanes with the counters brought in. -/
def weightedLanes (s : State) : Lanes 4 :=
  ((((s.weighted.shiftLeft 5).add (Lanes.multiplyAdd s.first (weights 32))).add
    (Lanes.multiplyAdd s.second (weights 24))).add
    (Lanes.multiplyAdd s.third (weights 16))).add
    (Lanes.multiplyAdd s.fourth (weights 8))

def accumulate (s : Sums) (chunk : List UInt8) : Sums :=
  let final := run start (segments 32 chunk)
  Lanes.finishEven s final.plain (weightedLanes final)

end AdaptiveAdler.Counters
