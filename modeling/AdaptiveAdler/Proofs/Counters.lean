import AdaptiveAdler.Kernel.Counters
import AdaptiveAdler.Proofs.Lanes

/-! The 128-bit kernel meets its contract.

Its counters have 16 bits and are read as signed numbers at the end. `Counted` says
what a number of segments leaves in them: no counter holds more than that many bytes
can add up to, which for 128 segments is still below 2^15. It also says that the odd
plain lanes stay zero, which is why the last fold may leave them out. While that
holds, the totals move as the two sums do, segment by segment (`totals_step`). -/
namespace AdaptiveAdler

namespace Lanes

def Halves.AtMost (bound : Nat) (v : Halves) : Prop := ∀ j (h : j < 8), v[j].toNat ≤ bound

theorem Halves.AtMost.mono {bound other : Nat} {v : Halves} (h : v.AtMost bound)
    (hle : bound ≤ other) : v.AtMost other :=
  fun j hj => (h j hj).trans hle

/-- The elements weighted by numbers that fall by one from `top`. -/
def Halves.weigh (top : Nat) (v : Halves) : UInt32 :=
  ∑ j : Fin 8, (v.get j).toUInt32 * UInt32.ofNat (top - j)

theorem foldl_eq_total {n : Nat} (v : Lanes n) : v.foldl (· + ·) 0 = v.total := by
  obtain ⟨v, rfl⟩ := v
  rw [← Vector.foldl_toList, ← List.sum_eq_foldl, ← Fin.sum_univ_getElem]
  rfl

theorem sumOfEight_eq_total {m offset : Nat} (fits : offset + 8 ≤ m) (bytes : Vector UInt8 m) :
    sumOfEight offset fits bytes = (widen 8 offset fits bytes).total :=
  foldl_eq_total _

/-! ### Counters of 16 bits -/

theorem toUInt32_signExtend {x : UInt16} (h : x.toNat < 2 ^ 15) :
    (signExtend x).toUInt32 = x.toUInt32 := by
  have hmsb : x.toBitVec.msb = false := by
    rw [BitVec.msb_eq_false_iff_two_mul_lt]
    show 2 * x.toNat < 2 ^ 16
    omega
  apply UInt32.toBitVec_inj.mp
  exact BitVec.signExtend_eq_setWidth_of_msb_false hmsb

theorem atMost_addHalves {bound : Nat} {v : Halves} (hv : v.AtMost bound) {m offset : Nat}
    (fits : offset + 8 ≤ m) (bytes : Vector UInt8 m) :
    (addHalves v (widenHalves offset fits bytes)).AtMost (bound + 255) := by
  intro j hj
  have hb := bytes[offset + j].toNat_lt
  have hle := Nat.mod_le (v[j].toNat + bytes[offset + j].toNat) (2 ^ 16)
  have := hv j hj
  rw [getElem_addHalves, getElem_widenHalves, UInt16.toNat_add, UInt8.toNat_toUInt16]
  omega

/-- Counters that cannot wrap gain the bytes of a row by their weights. -/
theorem weigh_addHalves {bound : Nat} {v : Halves} (hv : v.AtMost bound)
    (hbound : bound + 255 < 2 ^ 16) (top : Nat) {m offset : Nat} (fits : offset + 8 ≤ m)
    (bytes : Vector UInt8 m) :
    (addHalves v (widenHalves offset fits bytes)).weigh top =
      v.weigh top + ∑ j : Fin 8, bytes[offset + j.val].toUInt32 * UInt32.ofNat (top - j) := by
  have hlane : ∀ j : Fin 8, ((addHalves v (widenHalves offset fits bytes)).get j).toUInt32 =
      (v.get j).toUInt32 + bytes[offset + j.val].toUInt32 := by
    intro j
    have hb := bytes[offset + j.val].toNat_lt
    have := hv j j.isLt
    apply UInt32.toNat_inj.mp
    simp only [Vector.get_eq_getElem, getElem_addHalves, getElem_widenHalves, UInt16.toNat_toUInt32,
      UInt32.toNat_add, UInt16.toNat_add, UInt8.toNat_toUInt16, UInt8.toNat_toUInt32]
    omega
  simp only [Halves.weigh, hlane, add_mul, Finset.sum_add_distrib]

theorem toUInt32_signExtend_weight {top j : Nat} (htop : top < 2 ^ 15) (h : j < 8) :
    (signExtend (Counters.weights top)[j]).toUInt32 = UInt32.ofNat (top - j) := by
  have hweight : (Counters.weights top)[j].toNat = top - j := by
    rw [show (Counters.weights top)[j] = UInt16.ofNat (top - j) from Vector.getElem_ofFn h]
    exact UInt16.toNat_ofNat_of_lt' (Nat.lt_of_le_of_lt (Nat.sub_le ..) (htop.trans (by decide)))
  rw [toUInt32_signExtend (by omega)]
  apply UInt32.toNat_inj.mp
  rw [UInt16.toNat_toUInt32, hweight, UInt32.toNat_ofNat_of_lt']
  exact Nat.lt_of_le_of_lt (Nat.sub_le ..) (htop.trans (by decide))

/-- Counters below 2^15 are multiplied as the numbers they are. -/
theorem get_multiplyAdd {v : Halves} (hv : v.AtMost (2 ^ 15 - 1)) {top : Nat} (htop : top < 2 ^ 15)
    (i : Fin 4) : (multiplyAdd v (Counters.weights top)).get i =
      v[2 * i.val].toUInt32 * UInt32.ofNat (top - 2 * i) +
        v[2 * i.val + 1].toUInt32 * UInt32.ofNat (top - (2 * i + 1)) := by
  have hproduct : ∀ j (h : j < 8),
      (signExtend v[j] * signExtend (Counters.weights top)[j]).toUInt32 =
        v[j].toUInt32 * UInt32.ofNat (top - j) := by
    intro j h
    have := hv j h
    rw [Int32.toUInt32_mul, toUInt32_signExtend (by omega), toUInt32_signExtend_weight htop h]
  rw [← hproduct, ← hproduct, ← Int32.toUInt32_add]
  exact Vector.getElem_ofFn i.isLt

theorem total_multiplyAdd {v : Halves} (hv : v.AtMost (2 ^ 15 - 1)) {top : Nat}
    (htop : top < 2 ^ 15) : (multiplyAdd v (Counters.weights top)).total = v.weigh top := by
  rw [total, Halves.weigh, Fin.sum_univ_four, Fin.sum_univ_eight, get_multiplyAdd hv htop,
    get_multiplyAdd hv htop, get_multiplyAdd hv htop, get_multiplyAdd hv htop]
  simp only [← add_assoc]
  rfl

end Lanes

namespace Counters
open Lanes

/-- What `m` segments leave behind. -/
structure Counted (m : Nat) (s : State) : Prop where
  first : s.first.AtMost (255 * m)
  second : s.second.AtMost (255 * m)
  third : s.third.AtMost (255 * m)
  fourth : s.fourth.AtMost (255 * m)
  odd : s.plain[1] = 0 ∧ s.plain[3] = 0

theorem counted_start : Counted 0 start := by
  have hzero : Halves.AtMost (255 * 0) (Vector.replicate 8 0) := by
    intro j h
    rw [Vector.getElem_replicate]
    exact Nat.le_refl 0
  exact ⟨hzero, hzero, hzero, hzero, by decide⟩

theorem counted_step {m : Nat} {s : State} (h : Counted m s) (segment : Vector UInt8 32) :
    Counted (m + 1) (step s segment) := by
  refine ⟨atMost_addHalves h.first _ _, atMost_addHalves h.second _ _,
    atMost_addHalves h.third _ _, atMost_addHalves h.fourth _ _, ?_, ?_⟩
  · show (s.plain.add _ |>.add _)[1] = 0
    rw [getElem_add, getElem_add, h.odd.1]
    rfl
  · show (s.plain.add _ |>.add _)[3] = 0
    rw [getElem_add, getElem_add, h.odd.2]
    rfl

/-- The sums that the accumulators stand for. -/
def totals (s : State) : Sums :=
  ⟨sumEven s.plain, s.weighted.total * UInt32.ofNat 32 + (s.first.weigh 32 + s.second.weigh 24 +
    s.third.weigh 16 + s.fourth.weigh 8)⟩

theorem totals_start : totals start = ⟨0, 0⟩ := by
  rw [totals, sumEven_eq]
  decide

/-! ### One segment -/

section Segment
variable (segment : Vector UInt8 32)

theorem ofNat_byteSum_segment :
    UInt32.ofNat (byteSum segment.toList) =
      sumOfEight 0 (by decide) segment + sumOfEight 8 (by decide) segment +
        sumOfEight 16 (by decide) segment + sumOfEight 24 (by decide) segment := by
  rw [ofNat_byteSum_row, sum_rows (n := 8), Finset.sum_add_distrib, Finset.sum_add_distrib,
    Finset.sum_add_distrib]
  simp only [sumOfEight_eq_total, total, Vector.get_eq_getElem, getElem_widen]

/-- The bytes of a segment by their distances to its end, eight at a time. -/
theorem ofNat_weightedSum_segment :
    UInt32.ofNat (weightedSum segment.toList) =
      ∑ j : Fin 8, segment[0 + j.val].toUInt32 * UInt32.ofNat (32 - j) +
        ∑ j : Fin 8, segment[8 + j.val].toUInt32 * UInt32.ofNat (24 - j) +
        ∑ j : Fin 8, segment[16 + j.val].toUInt32 * UInt32.ofNat (16 - j) +
        ∑ j : Fin 8, segment[24 + j.val].toUInt32 * UInt32.ofNat (8 - j) := by
  rw [ofNat_weightedSum_row, sum_rows (n := 8), Finset.sum_add_distrib, Finset.sum_add_distrib,
    Finset.sum_add_distrib]
  simp only [Nat.sub_add_eq]
  rfl

end Segment

section Step
open scoped UInt32.CommRing

theorem sumEven_plain_step (s : State) (segment : Vector UInt8 32) :
    sumEven (step s segment).plain = sumEven s.plain + UInt32.ofNat (byteSum segment.toList) := by
  have heven : ∀ v : Lanes 4, ∀ a b c d : UInt32,
      sumEven ((v.add #v[a, 0, b, 0]).add #v[c, 0, d, 0]) = sumEven v + (a + b + c + d) := by
    intro v a b c d
    simp only [sumEven_eq, Vector.get_eq_getElem, getElem_add]
    show v[0] + a + c + (v[2] + b + d) = v[0] + v[2] + _
    ring
  rw [ofNat_byteSum_segment]
  exact heven ..

variable {m : Nat} {s : State}

theorem total_plain (h : Counted m s) : s.plain.total = sumEven s.plain := by
  rw [total_eq_sumEven_add]
  show sumEven s.plain + (s.plain[1] + s.plain[3]) = _
  rw [h.odd.1, h.odd.2, UInt32.add_zero, UInt32.add_zero]

/-- One segment in the accumulators is its bytes one by one, as long as no counter wraps. -/
theorem totals_step (h : Counted m s) (hm : m < 256) (segment : Vector UInt8 32) :
    totals (step s segment) = (totals s).absorbAll segment.toList := by
  rw [Sums.absorbAll_eq, totals, totals, Sums.mk.injEq, Vector.length_toList]
  refine ⟨sumEven_plain_step s segment, ?_⟩
  rw [ofNat_weightedSum_segment]
  simp only [step]
  rw [weigh_addHalves h.first (by omega), weigh_addHalves h.second (by omega),
    weigh_addHalves h.third (by omega), weigh_addHalves h.fourth (by omega), total_add,
    total_plain h]
  ring

end Step

/-! ### A whole chunk -/

theorem counted_run {m : Nat} {s : State} (h : Counted m s) (rows : List (Vector UInt8 32)) :
    Counted (m + rows.length) (run s rows) := by
  induction rows generalizing m s with
  | nil => exact h
  | cons row rest ih =>
    rw [List.length_cons, ← Nat.add_assoc, Nat.add_right_comm]
    exact ih (counted_step h row)

theorem totals_run {m : Nat} {s : State} (h : Counted m s) (rows : List (Vector UInt8 32))
    (hm : m + rows.length ≤ 256) :
    totals (run s rows) = (totals s).absorbAll (rows.flatMap Vector.toList) := by
  induction rows generalizing m s with
  | nil => rfl
  | cons row rest ih =>
    rw [List.length_cons] at hm
    rw [run, List.foldl_cons, List.flatMap_cons, Sums.absorbAll_append,
      ← totals_step h (by omega) row]
    exact ih (counted_step h row) (by omega)

/-- Up to 128 segments the counters are brought in as the numbers they are. -/
theorem total_weightedLanes {m : Nat} {s : State} (h : Counted m s) (hm : m ≤ 128) :
    (weightedLanes s).total = (totals s).weighted := by
  -- 255 * 128 is below 2^15, so no counter has the sign bit.
  have hbound : 255 * m ≤ 2 ^ 15 - 1 := by omega
  rw [weightedLanes, total_add, total_add, total_add, total_add, total_shiftLeft shifts_five,
    total_multiplyAdd (h.first.mono hbound) (by decide),
    total_multiplyAdd (h.second.mono hbound) (by decide),
    total_multiplyAdd (h.third.mono hbound) (by decide),
    total_multiplyAdd (h.fourth.mono hbound) (by decide)]
  simp only [totals, add_assoc]

/-- What the accumulators add to the sums, on at most 128 whole segments. -/
theorem accumulate_eq (s : Sums) {chunk : List UInt8} (hdvd : 32 ∣ chunk.length)
    (hlen : chunk.length ≤ 4096) : accumulate s chunk = ChunkKernel.contribution s chunk := by
  have hcount := length_segments_mul_le 32 chunk
  have hcounted := counted_run counted_start (segments 32 chunk)
  have hrun := totals_run counted_start (segments 32 chunk) (by omega)
  rw [flatMap_segments (by decide) chunk hdvd, totals_start, Sums.absorbAll_eq] at hrun
  rw [accumulate, finishEven, sumFour_eq_total, total_weightedLanes hcounted (by omega)]
  show (⟨s.plain + (totals _).plain, s.weighted + (totals _).weighted⟩ : Sums) = _
  rw [hrun, ChunkKernel.contribution]
  simp only [UInt32.zero_add, UInt32.zero_mul]

end Counters
end AdaptiveAdler
