import AdaptiveAdler.Kernel.Columns
import AdaptiveAdler.Proofs.Lanes

/-! The 256-bit and the 512-bit kernel meet their contract.

The totals of the lanes move as the two sums do: a segment read into the columns
has the effect of absorbing its bytes one by one (`totals_step`). Weighted lanes
gather the plain lanes as they were before the segment, which is what the bytes
before it owe for its whole length, and the weights at the end are the distances
to the end of the segment. -/
namespace AdaptiveAdler.Columns
variable {n : Nat}

def totals (shift : UInt32) (s : State n) : Sums :=
  ⟨(plainLanes s).total, (weightedLanes shift s).total⟩

theorem getElem_weights {top i : Nat} (h : i < n) :
    (weights n top)[i] = UInt32.ofNat (top - i) :=
  Vector.getElem_ofFn h

theorem totals_start (shift : UInt32) : totals shift (start : State n) = ⟨0, 0⟩ := by
  simp [totals, plainLanes, weightedLanes, start, Column.start, Lanes.total, Vector.get_eq_getElem]

/-! ### One segment -/

section Step
open scoped UInt32.CommRing

section Rows
variable (s : State n) (first second third fourth : Lanes n)

/-- A segment whose four rows are given as lanes. -/
def stepRows : State n :=
  ⟨s.first.step first, s.second.step second, s.third.step third, s.fourth.step fourth⟩

variable {i : Nat} (h : i < n)

/-- A plain lane gains one byte from each row. -/
theorem getElem_plainLanes_stepRows :
    (plainLanes (stepRows s first second third fourth))[i] =
      (plainLanes s)[i] + (first[i] + second[i] + third[i] + fourth[i]) := by
  simp only [plainLanes, stepRows, Column.step, Lanes.getElem_add]
  ring

/-- A weighted lane gains the plain lane as it was, once for each byte of the segment,
and the new bytes by their distances to the end of the segment. -/
theorem getElem_weightedLanes_stepRows {shift : UInt32} (hshift : Lanes.Shifts shift (4 * n)) :
    (weightedLanes shift (stepRows s first second third fourth))[i] =
      (weightedLanes shift s)[i] + (plainLanes s)[i] * UInt32.ofNat (4 * n) +
        (first[i] * UInt32.ofNat (4 * n - (0 + i)) + second[i] * UInt32.ofNat (4 * n - (n + i)) +
          third[i] * UInt32.ofNat (4 * n - (2 * n + i)) +
          fourth[i] * UInt32.ofNat (4 * n - (3 * n + i))) := by
  have h0 : 4 * n - (0 + i) = 4 * n - i := by omega
  have h1 : 4 * n - (n + i) = 3 * n - i := by omega
  have h2 : 4 * n - (2 * n + i) = 2 * n - i := by omega
  have h3 : 4 * n - (3 * n + i) = n - i := by omega
  simp only [weightedLanes, plainLanes, stepRows, Column.step, Lanes.getElem_add,
    Lanes.getElem_mul, Lanes.getElem_shiftLeft, getElem_weights, hshift _, h0, h1, h2, h3]
  ring

end Rows

/-- One segment in the columns is its bytes one by one. -/
theorem totals_step {shift : UInt32} (hshift : Lanes.Shifts shift (4 * n)) (s : State n)
    (segment : Vector UInt8 (4 * n)) :
    totals shift (step s segment) = (totals shift s).absorbAll segment.toList := by
  have hstep : step s segment = stepRows s _ _ _ _ := rfl
  rw [Sums.absorbAll_eq, ofNat_byteSum_row, ofNat_weightedSum_row, sum_rows, sum_rows,
    Vector.length_toList, totals, totals, Sums.mk.injEq]
  simp only [Lanes.total, Vector.get_eq_getElem, Finset.sum_mul, ← Finset.sum_add_distrib]
  constructor
  · refine Finset.sum_congr rfl fun i _ => ?_
    rw [hstep, getElem_plainLanes_stepRows]
    simp only [Lanes.getElem_widen]
  · refine Finset.sum_congr rfl fun i _ => ?_
    rw [hstep, getElem_weightedLanes_stepRows _ _ _ _ _ _ hshift]
    simp only [Lanes.getElem_widen]

end Step

/-! ### A whole chunk -/

theorem totals_run {shift : UInt32} (hshift : Lanes.Shifts shift (4 * n)) (s : State n)
    (rows : List (Vector UInt8 (4 * n))) :
    totals shift (run s rows) = (totals shift s).absorbAll (rows.flatMap Vector.toList) := by
  induction rows generalizing s with
  | nil => rfl
  | cons row rest ih =>
    rw [run, List.foldl_cons, List.flatMap_cons, Sums.absorbAll_append, ← totals_step hshift s row]
    exact ih (step s row)

/-- What the columns add to the sums, when the last fold adds the totals. -/
theorem accumulate_eq {shift : UInt32} {finish : Sums → Lanes n → Lanes n → Sums}
    (hshift : Lanes.Shifts shift (4 * n)) (positive : 0 < 4 * n)
    (hfinish : ∀ s p w, finish s p w = ⟨s.plain + p.total, s.weighted + w.total⟩)
    (s : Sums) {chunk : List UInt8} (hchunk : 4 * n ∣ chunk.length) :
    accumulate shift finish s chunk = ChunkKernel.contribution s chunk := by
  have hrun := totals_run hshift start (segments (4 * n) chunk)
  rw [flatMap_segments positive chunk hchunk, totals_start, Sums.absorbAll_eq, totals,
    Sums.mk.injEq] at hrun
  rw [accumulate, hfinish, hrun.1, hrun.2, ChunkKernel.contribution]
  simp only [UInt32.zero_add, UInt32.zero_mul]

theorem accumulateEight_eq (s : Sums) {chunk : List UInt8} (h : 32 ∣ chunk.length) :
    accumulateEight s chunk = ChunkKernel.contribution s chunk :=
  accumulate_eq Lanes.shifts_five (by decide) Lanes.finishEight_eq s h

theorem accumulateSixteen_eq (s : Sums) {chunk : List UInt8} (h : 64 ∣ chunk.length) :
    accumulateSixteen s chunk = ChunkKernel.contribution s chunk :=
  accumulate_eq Lanes.shifts_six (by decide) Lanes.finishSixteen_eq s h

end AdaptiveAdler.Columns
