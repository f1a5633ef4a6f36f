import AdaptiveAdler.Lanes.Fold
import AdaptiveAdler.Lanes.Segments
import AdaptiveAdler.Proofs.Reaches
import Mathlib

/-! Lanes seen through their total.

The total of a row is the sum of its lanes as words. Folding a row by halves and
shuffles finds its total, and every lane-wise operation has an effect on it that
does not depend on which lane holds what. On the other side, the bytes of a segment
are laid out over lanes four rows at a time, and a sum over the segment is a sum
over the lanes of the rows (`sum_rows`). -/
namespace AdaptiveAdler

/-! ### Sums over positions -/

theorem byteSum_eq_sum (bytes : List UInt8) :
    byteSum bytes = ∑ p : Fin bytes.length, bytes[p].toNat := by
  induction bytes with
  | nil => rfl
  | cons b rest ih =>
    show _ = ∑ p : Fin (rest.length + 1), (b :: rest)[p].toNat
    rw [byteSum_cons, ih, Fin.sum_univ_succ]
    rfl

theorem weightedSum_eq_sum (bytes : List UInt8) :
    weightedSum bytes = ∑ p : Fin bytes.length, (bytes.length - p) * bytes[p].toNat := by
  induction bytes with
  | nil => rfl
  | cons b rest ih =>
    show _ = ∑ p : Fin (rest.length + 1), (rest.length + 1 - p) * (b :: rest)[p].toNat
    rw [weightedSum_cons, ih, Fin.sum_univ_succ]
    simp only [Fin.val_succ, Nat.add_sub_add_right]
    rfl

section Row
open scoped UInt32.CommRing
variable {n : Nat} (row : Vector UInt8 n)

theorem ofNat_byteSum_row :
    UInt32.ofNat (byteSum row.toList) = ∑ p : Fin n, (row.get p).toUInt32 := by
  obtain ⟨row, rfl⟩ := row
  show ((byteSum row.toList : Nat) : UInt32) = _
  rw [byteSum_eq_sum, Nat.cast_sum]
  exact Finset.sum_congr rfl fun p _ => UInt32.ofNat_uInt8ToNat _

/-- The weighted sum of a row of bytes, as a word: each byte counts by its distance to
the end of the row. -/
theorem ofNat_weightedSum_row :
    UInt32.ofNat (weightedSum row.toList) =
      ∑ p : Fin n, (row.get p).toUInt32 * UInt32.ofNat (n - p) := by
  obtain ⟨row, rfl⟩ := row
  show ((weightedSum row.toList : Nat) : UInt32) = _
  rw [weightedSum_eq_sum, Nat.cast_sum]
  refine Finset.sum_congr rfl fun p _ => ?_
  rw [Nat.cast_mul, mul_comm]
  exact congrArg₂ _ (UInt32.ofNat_uInt8ToNat _) rfl

end Row

/-- A sum over a segment of four rows is a sum over the lanes of the rows. -/
theorem sum_rows {M : Type} [AddCommMonoid M] {n : Nat} (f : Fin (4 * n) → M) :
    ∑ p, f p = ∑ i : Fin n, (f ⟨0 + i, by omega⟩ + f ⟨n + i, by omega⟩ +
      f ⟨2 * n + i, by omega⟩ + f ⟨3 * n + i, by omega⟩) := by
  rw [← finProdFinEquiv.sum_comp, Fintype.sum_prod_type, Fin.sum_univ_four]
  simp only [← Finset.sum_add_distrib]
  refine Finset.sum_congr rfl fun i _ => ?_
  -- Lane `i` of row `a` is position `a * n + i` of the segment.
  have hlane : ∀ (a : Fin 4) (p : Fin (4 * n)), p.val = i + n * a →
      f (finProdFinEquiv (a, i)) = f p := by
    intro a p h
    exact congrArg f (Fin.ext h.symm)
  have h0 : 0 + i.val = i + n * 0 := by omega
  have h1 : n + i.val = i + n * 1 := by omega
  have h2 : 2 * n + i.val = i + n * 2 := by omega
  have h3 : 3 * n + i.val = i + n * 3 := by omega
  rw [hlane 0 ⟨0 + i, by omega⟩ h0, hlane 1 ⟨n + i, by omega⟩ h1, hlane 2 ⟨2 * n + i, by omega⟩ h2,
    hlane 3 ⟨3 * n + i, by omega⟩ h3]

/-! ### Whole segments -/

/-- Segments that fill a byte string hold all of it. -/
theorem flatMap_segments {n : Nat} (positive : 0 < n) (bytes : List UInt8)
    (h : n ∣ bytes.length) : (segments n bytes).flatMap Vector.toList = bytes := by
  fun_induction segments n bytes with
  | case1 bytes row hrow ih =>
    have hdrop : n ∣ (bytes.drop n).length := by
      rw [List.length_drop]
      exact Nat.dvd_sub h (Nat.dvd_refl n)
    rw [List.flatMap_cons, ih hdrop]
    exact List.take_append_drop n bytes
  | case2 bytes row hrow =>
    have hshort : bytes.length < n := by
      simp only [row, List.length_take] at hrow
      omega
    rw [List.eq_nil_of_length_eq_zero (Nat.eq_zero_of_dvd_of_lt h hshort)]
    rfl

theorem length_segments_mul_le (n : Nat) (bytes : List UInt8) :
    (segments n bytes).length * n ≤ bytes.length := by
  fun_induction segments n bytes with
  | case1 bytes row hrow ih =>
    simp only [row, List.length_take] at hrow
    rw [List.length_cons, Nat.succ_mul]
    rw [List.length_drop] at ih
    omega
  | case2 bytes row hrow => simp

namespace Lanes

/-! ### Totals -/

def total {n : Nat} (v : Lanes n) : UInt32 := ∑ i : Fin n, v.get i

section Total
variable {n : Nat}

theorem total_add (v w : Lanes n) : (v.add w).total = v.total + w.total := by
  simp only [total, Vector.get_eq_getElem, getElem_add, Finset.sum_add_distrib]

theorem total_halve (v : Lanes (n + n)) : (halve v).total = v.total := by
  simp only [total, halve, Vector.get_eq_getElem, getElem_add, getElem_lower, getElem_upper,
    Fin.sum_univ_add, Fin.val_castAdd, Fin.val_natAdd, Finset.sum_add_distrib]

end Total

/-- A shift by `amount` multiplies by `factor`. -/
def Shifts (amount : UInt32) (factor : Nat) : Prop :=
  ∀ x : UInt32, x <<< amount = x * UInt32.ofNat factor

theorem shifts_five : Shifts 5 32 := by
  intro x
  apply UInt32.toNat_inj.mp
  simp [UInt32.toNat_shiftLeft, UInt32.toNat_mul, Nat.shiftLeft_eq]

theorem shifts_six : Shifts 6 64 := by
  intro x
  apply UInt32.toNat_inj.mp
  simp [UInt32.toNat_shiftLeft, UInt32.toNat_mul, Nat.shiftLeft_eq]

theorem total_shiftLeft {n factor : Nat} {amount : UInt32} (h : Shifts amount factor)
    (v : Lanes n) : (v.shiftLeft amount).total = v.total * UInt32.ofNat factor := by
  simp only [total, Vector.get_eq_getElem, getElem_shiftLeft, h _, Finset.sum_mul]

/-! ### Folds -/

theorem getElem_shuffle {control i j : Nat} (v : Lanes 4) (hi : i < 4) (hj : j < 4)
    (h : (control >>> (2 * i)) % 4 = j) : (shuffle control v)[i] = v[j] := by
  subst h
  exact Vector.getElem_ofFn hi

/-- Two shuffled additions bring all four lanes onto lane 0. -/
theorem sumFour_eq_total (v : Lanes 4) : sumFour v = v.total := by
  rw [sumFour, getElem_add, getElem_shuffle (j := 2) _ (by decide) (by decide) rfl, getElem_add,
    getElem_add, getElem_shuffle (j := 1) _ (by decide) (by decide) rfl,
    getElem_shuffle (j := 3) _ (by decide) (by decide) rfl, total, Fin.sum_univ_four]
  exact (add_assoc ..).symm

/-- One shuffled addition brings lane 2 onto lane 0. -/
theorem sumEven_eq (v : Lanes 4) : sumEven v = v.get 0 + v.get 2 := by
  rw [sumEven, getElem_add, getElem_shuffle (j := 2) _ (by decide) (by decide) rfl]
  rfl

/-- The total in two parts: what the shorter fold reads and what it leaves out. -/
theorem total_eq_sumEven_add (v : Lanes 4) : v.total = sumEven v + (v.get 1 + v.get 3) := by
  rw [sumEven_eq, total, Fin.sum_univ_four]
  ac_rfl

theorem finishFour_eq (s : Sums) (plain weighted : Lanes 4) :
    finishFour s plain weighted = ⟨s.plain + plain.total, s.weighted + weighted.total⟩ := by
  rw [finishFour, sumFour_eq_total, sumFour_eq_total]

theorem finishEight_eq (s : Sums) (plain weighted : Lanes 8) :
    finishEight s plain weighted = ⟨s.plain + plain.total, s.weighted + weighted.total⟩ := by
  rw [finishEight, finishFour_eq, total_halve (n := 4), total_halve (n := 4)]

theorem finishSixteen_eq (s : Sums) (plain weighted : Lanes 16) :
    finishSixteen s plain weighted = ⟨s.plain + plain.total, s.weighted + weighted.total⟩ := by
  rw [finishSixteen, finishEight_eq, total_halve (n := 8), total_halve (n := 8)]

end Lanes
end AdaptiveAdler
