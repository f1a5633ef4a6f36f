import AdaptiveAdler.Kernel.Extension
import AdaptiveAdler.Proofs.Chunked
import AdaptiveAdler.Proofs.Counters

/-! No counter of the 128-bit kernel turns negative.

A counter gathers the bytes at one offset of the segments, so after some segments it holds the
sum of a column (`Halves.Counts`). A chunk has at most 128 segments, and 128 times 255 is still
below 2^15: no counter gets a sign bit at any segment, and the products at the end are those of
the numbers themselves, far from the sign bit of a lane even when two are added
(`Halves.ReadsExactly`). The odd plain lanes, which the last fold leaves out, hold nothing. So
the kernel adds the two sums of a chunk, and takes chunks of no other length
(`accumulate_adds_weighted_sums`). -/
namespace AdaptiveAdler

/-- The bytes at one offset of the segments, added up. -/
def columnSum (rows : List (Vector UInt8 32)) (p : Fin 32) : Nat :=
  (rows.map fun row => (row.get p).toNat).sum

theorem columnSum_append (rows : List (Vector UInt8 32)) (row : Vector UInt8 32) (p : Fin 32) :
    columnSum (rows ++ [row]) p = columnSum rows p + (row.get p).toNat := by
  rw [columnSum, List.map_append, List.sum_append, List.map_singleton, List.sum_singleton]
  rfl

namespace Lanes

/-! ### Columns -/

/-- The counters hold the sums of the columns from an offset on, and none has a sign bit. -/
structure Halves.Counts (v : Halves) (rows : List (Vector UInt8 32)) (offset : Nat)
    (fits : offset + 8 ≤ 32) : Prop where
  exact : ∀ j : Fin 8, (v.get j).toNat = columnSum rows ⟨offset + j, by omega⟩
  atMost : v.AtMost 0x7FFF

section Columns
variable {rows : List (Vector UInt8 32)} {offset : Nat} {fits : offset + 8 ≤ 32}

theorem counts_zero : Halves.Counts (Vector.replicate 8 0) [] offset fits := by
  constructor
  · intro j
    rw [Vector.get_replicate]
    rfl
  · intro j hj
    rw [Vector.getElem_replicate]
    exact Nat.zero_le _

/-- One segment more, after which the counters still have no sign bit. -/
theorem counts_addHalves {v : Halves} (h : v.Counts rows offset fits) {row : Vector UInt8 32}
    (hnext : (addHalves v (widenHalves offset fits row)).AtMost 0x7FFF) :
    (addHalves v (widenHalves offset fits row)).Counts (rows ++ [row]) offset fits := by
  refine ⟨fun j => ?_, hnext⟩
  have hbyte := (row.get ⟨offset + j, by omega⟩).toNat_lt
  have hbefore : (v.get j).toNat ≤ 0x7FFF := h.atMost j j.isLt
  have hadd : (addHalves v (widenHalves offset fits row)).get j =
      v.get j + (row.get ⟨offset + j, by omega⟩).toUInt16 := by
    simp only [Vector.get_eq_getElem, getElem_addHalves, getElem_widenHalves]
  rw [hadd, columnSum_append, ← h.exact j, UInt16.toNat_add, UInt8.toNat_toUInt16]
  exact Nat.mod_eq_of_lt (by omega)

end Columns

/-! ### Products -/

/-- A counter by its weight, as numbers; the weights fall by one from `top`. -/
def Halves.product (v : Halves) (top : Nat) (j : Fin 8) : Nat := (v.get j).toNat * (top - j)

/-- The signed products read the counters as the numbers they are: none as a negative one, and
no two products together as one. -/
structure Halves.ReadsExactly (v : Halves) (top : Nat) : Prop where
  sign : ∀ j : Fin 8, (signExtend (v.get j)).toInt = (v.get j).toNat
  pair : ∀ (i : Fin 4) (even odd : Fin 8), even.val = 2 * i → odd.val = 2 * i + 1 →
    v.product top even + v.product top odd < 2 ^ 31 ∧
      ((multiplyAdd v (Counters.weights top)).get i).toNat = v.product top even + v.product top odd

theorem toInt_signExtend {x : UInt16} (h : x.toNat ≤ 0x7FFF) : (signExtend x).toInt = x.toNat := by
  have hlt : 2 * x.toNat < 2 ^ 16 := by omega
  rw [signExtend, Int16.toInt_toInt32]
  exact BitVec.toInt_eq_toNat_of_lt hlt

section Products
variable {v : Halves} (hv : v.AtMost 0x7FFF) {top : Nat} (htop : top ≤ 32)
include hv htop

theorem product_le (j : Fin 8) : v.product top j ≤ 0x7FFF * 32 :=
  Nat.mul_le_mul (hv j j.isLt) ((Nat.sub_le ..).trans htop)

theorem readsExactly : v.ReadsExactly top := by
  refine ⟨fun j => toInt_signExtend (hv j j.isLt), fun i even odd heven hodd => ?_⟩
  have hsum : v.product top even + v.product top odd < 2 ^ 31 := by
    have hle := product_le hv htop even
    have hle' := product_le hv htop odd
    omega
  have hlane : (multiplyAdd v (Counters.weights top)).get i =
      UInt32.ofNat (v.product top even + v.product top odd) := by
    rw [get_multiplyAdd hv (htop.trans_lt (by decide))]
    simp only [Halves.product, Vector.get_eq_getElem, heven, hodd, UInt32.ofNat_add,
      UInt32.ofNat_mul, UInt32.ofNat_uInt16ToNat]
  rw [hlane]
  exact ⟨hsum, UInt32.toNat_ofNat_of_lt' (hsum.trans (by decide))⟩

end Products

end Lanes

namespace Counters
open Lanes

/-! ### Segments of a chunk -/

/-- What some segments leave behind: the sum of each column in its counter, and nothing in the
odd plain lanes. -/
structure CountsExactly (rows : List (Vector UInt8 32)) (s : State) : Prop where
  first : s.first.Counts rows 0 (by decide)
  second : s.second.Counts rows 8 (by decide)
  third : s.third.Counts rows 16 (by decide)
  fourth : s.fourth.Counts rows 24 (by decide)
  odd : s.plain.get 1 = 0 ∧ s.plain.get 3 = 0

theorem countsExactly_run (rows : List (Vector UInt8 32)) (hlen : rows.length ≤ 128) :
    CountsExactly rows (run start rows) := by
  induction rows using List.reverseRecOn with
  | nil => exact ⟨counts_zero, counts_zero, counts_zero, counts_zero, counted_start.odd⟩
  | append_singleton rows row ih =>
    -- Before the last segment no counter has a sign bit, so none wraps; that none gets one now
    -- is a matter of how many segments there are.
    have hcounted := counted_run counted_start (rows ++ [row])
    have hbound : 255 * (0 + (rows ++ [row]).length) ≤ 0x7FFF := by omega
    rw [List.length_append] at hlen
    have hbefore := ih (by omega)
    have hstep : run start (rows ++ [row]) = step (run start rows) row := List.foldl_concat ..
    rw [hstep] at hcounted ⊢
    exact ⟨counts_addHalves hbefore.first (hcounted.first.mono hbound),
      counts_addHalves hbefore.second (hcounted.second.mono hbound),
      counts_addHalves hbefore.third (hcounted.third.mono hbound),
      counts_addHalves hbefore.fourth (hcounted.fourth.mono hbound), hcounted.odd⟩

/-! ### A whole chunk -/

variable {chunk : List UInt8}

theorem length_le_of_segments_eq (hlen : chunk.length ≤ 4096) {before after : List (Vector UInt8 32)}
    (h : segments 32 chunk = before ++ after) : before.length ≤ 128 := by
  have hcount := length_segments_mul_le 32 chunk
  rw [h, List.length_append] at hcount
  omega

/-- What the odd plain lanes would add is nothing. -/
theorem finishEven_eq_finishFour {m : Nat} {s : State} (h : Counted m s) (sums : Sums)
    (weighted : Lanes 4) : finishEven sums s.plain weighted = finishFour sums s.plain weighted := by
  rw [finishFour_eq, total_plain h, finishEven, sumFour_eq_total]

theorem accumulate_eq_sum (s : Sums) (hdvd : 32 ∣ chunk.length) (hlen : chunk.length ≤ 4096) :
    accumulate s chunk =
      ⟨s.plain + UInt32.ofNat (∑ i : Fin chunk.length, (chunk.get i).toNat),
        s.weighted +
          UInt32.ofNat (∑ i : Fin chunk.length, (chunk.length - i) * (chunk.get i).toNat)⟩ := by
  rw [accumulate_eq s hdvd hlen, ChunkKernel.contribution, byteSum_eq_sum, weightedSum_eq_sum]
  rfl

/-- The narrowest kernel checks the length of a chunk and nothing else. -/
theorem accumulateOn_sse2 (caps : Caps) (s : Sums) (chunk : List UInt8) :
    Extension.sse2.accumulateOn caps s chunk =
      if 0 < chunk.length ∧ 32 ∣ chunk.length ∧ chunk.length ≤ 4096 then .ok (accumulate s chunk)
      else .error .illegalLength := rfl

/-- **The 128-bit kernel adds the weighted sums of a chunk**, of any whole number of segments
from one to 128 and onto any sums. After every segment each counter holds the sum of its column,
at most `0x7FFF`, and the odd plain lanes are zero; so the signed products are those of the
numbers, and a fold of all plain lanes would add no more. Onto the sums that a chunk is entered
with, this is what absorbing its bytes one by one does. A chunk of any other length is refused. -/
theorem accumulate_adds_weighted_sums (caps : Caps) (s : Sums) (chunk : List UInt8) :
    (0 < chunk.length ∧ 32 ∣ chunk.length ∧ chunk.length ≤ 4096 →
      let final := run start (segments 32 chunk)
      accumulate s chunk =
          ⟨s.plain + UInt32.ofNat (∑ i : Fin chunk.length, (chunk.get i).toNat),
            s.weighted +
              UInt32.ofNat (∑ i : Fin chunk.length, (chunk.length - i) * (chunk.get i).toNat)⟩ ∧
        (∀ before after, segments 32 chunk = before ++ after →
          CountsExactly before (run start before)) ∧
        (final.first.ReadsExactly 32 ∧ final.second.ReadsExactly 24 ∧
          final.third.ReadsExactly 16 ∧ final.fourth.ReadsExactly 8) ∧
        finishEven s final.plain (weightedLanes final) =
          finishFour s final.plain (weightedLanes final) ∧
        accumulate (ChunkKernel.entry s chunk.length) chunk = s.absorbAll chunk ∧
        Extension.sse2.accumulateOn caps s chunk = .ok (accumulate s chunk)) ∧
      (¬ (0 < chunk.length ∧ 32 ∣ chunk.length ∧ chunk.length ≤ 4096) →
        Extension.sse2.accumulateOn caps s chunk = .error .illegalLength) := by
  refine ⟨fun hlegal => ?_, fun hillegal => ?_⟩
  · have ⟨_, hdvd, hlen⟩ := hlegal
    intro final
    have hcounted := counted_run counted_start (segments 32 chunk)
    have hfinal : CountsExactly (segments 32 chunk) final :=
      countsExactly_run _ (length_le_of_segments_eq hlen (List.append_nil _).symm)
    refine ⟨accumulate_eq_sum s hdvd hlen, fun before after h => ?_, ⟨?_, ?_, ?_, ?_⟩,
      finishEven_eq_finishFour hcounted s _, ?_, ?_⟩
    · exact countsExactly_run before (length_le_of_segments_eq hlen h)
    · exact readsExactly hfinal.first.atMost (by decide)
    · exact readsExactly hfinal.second.atMost (by decide)
    · exact readsExactly hfinal.third.atMost (by decide)
    · exact readsExactly hfinal.fourth.atMost (by decide)
    · rw [accumulate_eq _ hdvd hlen, ChunkKernel.contribution_entry]
    · rw [accumulateOn_sse2, if_pos hlegal]
  · rw [accumulateOn_sse2, if_neg hillegal]

/-- The longest chunk, all of `0xFF` and onto the largest sums; with one byte more it is refused. -/
theorem accumulate_longest_chunk :
    let chunk : List UInt8 := List.replicate 4096 0xFF
    let sums : Sums := ⟨0xFFFFFFFF, 0xFFFFFFFF⟩
    (0 < chunk.length ∧ 32 ∣ chunk.length ∧ chunk.length ≤ 4096) ∧
      Extension.sse2.accumulateOn .empty sums chunk = .ok ⟨1044479, 2139617279⟩ ∧
      CountsExactly (segments 32 chunk) (run start (segments 32 chunk)) ∧
      Extension.sse2.accumulateOn .empty sums (0xFF :: chunk) = .error .illegalLength := by
  intro chunk sums
  have hlength : chunk.length = 4096 := List.length_replicate
  have hlegal : 0 < chunk.length ∧ 32 ∣ chunk.length ∧ chunk.length ≤ 4096 := by
    rw [hlength]
    decide
  have hillegal : ¬ (0 < (0xFF :: chunk).length ∧ 32 ∣ (0xFF :: chunk).length ∧
      (0xFF :: chunk).length ≤ 4096) := by
    rw [List.length_cons, hlength]
    decide
  have hplain : ∑ i : Fin chunk.length, (chunk.get i).toNat = 1044480 :=
    (byteSum_eq_sum chunk).symm.trans (by decide +kernel)
  have hweighted : ∑ i : Fin chunk.length, (chunk.length - i) * (chunk.get i).toNat = 2139617280 :=
    (weightedSum_eq_sum chunk).symm.trans (by decide +kernel)
  obtain ⟨hsum, hcounts, -, -, -, hok⟩ := (accumulate_adds_weighted_sums .empty sums chunk).1 hlegal
  refine ⟨hlegal, ?_, hcounts _ [] (List.append_nil _).symm,
    (accumulate_adds_weighted_sums .empty sums (0xFF :: chunk)).2 hillegal⟩
  rw [hok, hsum, hplain, hweighted]
  exact congrArg Except.ok (by decide +kernel)

/-- A segment more of `0xFF`, and a counter is read as a negative number. -/
example : (signExtend ((run start (List.replicate 129 (Vector.replicate 32 0xFF))).first.get 0)).toInt
    < 0 := by
  decide +kernel

end Counters
end AdaptiveAdler
