import AdaptiveAdler.Lanes.Basic
import AdaptiveAdler.Sums

/-! Folding lanes into the running sums.

A row is folded by halves: the upper half is added onto the lower one until four
lanes are left, and two shuffles bring those onto lane 0. The shuffle `0x31`
lays lanes 1 and 3 over lanes 0 and 2, and `0x02` lays lane 2 over lane 0; what
they leave in the other lanes is never read. -/
namespace AdaptiveAdler.Lanes

/-- The sum of four lanes, as lane 0 after two shuffled additions. -/
def sumFour (v : Lanes 4) : UInt32 :=
  let pairs := v.add (shuffle 0x31 v)
  (pairs.add (shuffle 0x02 pairs))[0]

/-- The sum of lanes 0 and 2, as lane 0 after one shuffled addition. -/
def sumEven (v : Lanes 4) : UInt32 := (v.add (shuffle 0x02 v))[0]

def halve {n : Nat} (v : Lanes (n + n)) : Lanes n := (lower v).add (upper v)

/-- Four plain lanes and four weighted lanes onto the sums. -/
def finishFour (s : Sums) (plain weighted : Lanes 4) : Sums :=
  ⟨s.plain + sumFour plain, s.weighted + sumFour weighted⟩

/-- Like `finishFour`, for plain lanes whose odd lanes are zero. -/
def finishEven (s : Sums) (plain weighted : Lanes 4) : Sums :=
  ⟨s.plain + sumEven plain, s.weighted + sumFour weighted⟩

def finishEight (s : Sums) (plain weighted : Lanes 8) : Sums :=
  finishFour s (halve (n := 4) plain) (halve (n := 4) weighted)

def finishSixteen (s : Sums) (plain weighted : Lanes 16) : Sums :=
  finishEight s (halve (n := 8) plain) (halve (n := 8) weighted)

end AdaptiveAdler.Lanes
