import AdaptiveAdler.Proofs.Lanes

/-! A fold counts every lane once.

The halves and shuffles of a fold depend on where a lane stands, its outcome does not: it is the
sums with the total of each row added. So the lanes may stand in any order, and rows may be added
lane by lane before they are folded instead of being folded in turn (`CountsEveryLane`). The fold
that reads the even plain lanes alone leaves something out unless the odd ones cancel
(`finishEven_eq_iff`). `folds_count_every_lane` says this of all four folds, on any sums and any
lanes. -/
namespace AdaptiveAdler.Lanes
variable {n : Nat}

/-! ### Totals as numbers -/

/-- The sum of the lanes as numbers, which need not fit a lane. -/
def laneSum (v : Lanes n) : Nat := ∑ i : Fin n, (v.get i).toNat

section Words
open scoped UInt32.CommRing

theorem ofNat_laneSum (v : Lanes n) : UInt32.ofNat v.laneSum = v.total := by
  show ((v.laneSum : Nat) : UInt32) = _
  rw [laneSum, Nat.cast_sum]
  exact Finset.sum_congr rfl fun i _ => UInt32.ofNat_toNat

end Words

theorem toNat_total (v : Lanes n) : v.total.toNat = v.laneSum % 2 ^ 32 := by
  rw [← ofNat_laneSum, UInt32.toNat_ofNat']

theorem toNat_add_total (x : UInt32) (v : Lanes n) :
    (x + v.total).toNat = (x.toNat + v.laneSum) % 2 ^ 32 := by
  rw [UInt32.toNat_add, toNat_total, Nat.add_mod_mod]

/-! ### Lanes in another order -/

def permute (order : Equiv.Perm (Fin n)) (v : Lanes n) : Lanes n :=
  Vector.ofFn fun i => v.get (order i)

theorem get_permute (order : Equiv.Perm (Fin n)) (v : Lanes n) (i : Fin n) :
    (v.permute order).get i = v.get (order i) :=
  Vector.getElem_ofFn i.isLt

theorem total_permute (order : Equiv.Perm (Fin n)) (v : Lanes n) :
    (v.permute order).total = v.total := by
  simp only [total, get_permute]
  exact Equiv.sum_comp order v.get

/-! ### What a fold owes -/

/-- A fold that loses no lane and counts none twice. -/
structure CountsEveryLane (finish : Sums → Lanes n → Lanes n → Sums) : Prop where
  exact : ∀ s plain weighted, (finish s plain weighted).exact =
    ⟨(s.plain.toNat + plain.laneSum) % 2 ^ 32, (s.weighted.toNat + weighted.laneSum) % 2 ^ 32⟩
  /-- The two rows need not be rearranged alike. -/
  permute : ∀ s plain weighted (p q : Equiv.Perm (Fin n)),
    finish s (plain.permute p) (weighted.permute q) = finish s plain weighted
  add : ∀ s plain weighted plain' weighted',
    finish s (plain.add plain') (weighted.add weighted') =
      finish (finish s plain weighted) plain' weighted'

/-- Adding the totals is all that a fold owes. -/
theorem countsEveryLane_of_totals {finish : Sums → Lanes n → Lanes n → Sums}
    (h : ∀ s p w, finish s p w = ⟨s.plain + p.total, s.weighted + w.total⟩) :
    CountsEveryLane finish := by
  refine ⟨fun s plain weighted => ?_, fun s plain weighted p q => ?_,
    fun s plain weighted plain' weighted' => ?_⟩
  · rw [h, Sums.exact, toNat_add_total, toNat_add_total]
  · rw [h, h, total_permute, total_permute]
  · rw [h, h, h, total_add, total_add, add_assoc, add_assoc]

/-! ### The even lanes alone -/

section Even
variable (s : Sums) (plain weighted : Lanes 4)

theorem toNat_finishEven_plain : (finishEven s plain weighted).plain.toNat =
    (s.plain.toNat + ((plain.get 0).toNat + (plain.get 2).toNat)) % 2 ^ 32 := by
  show (s.plain + sumEven plain).toNat = _
  rw [sumEven_eq, UInt32.toNat_add, UInt32.toNat_add, Nat.add_mod_mod]

/-- The odd plain lanes may be left out just if they cancel. -/
theorem finishEven_eq_iff : finishEven s plain weighted = finishFour s plain weighted ↔
    ((plain.get 1).toNat + (plain.get 3).toNat) % 2 ^ 32 = 0 := by
  have hplain : finishEven s plain weighted = finishFour s plain weighted ↔
      s.plain + sumEven plain = s.plain + plain.total := by
    rw [finishEven, finishFour, Sums.mk.injEq, sumFour_eq_total]
    exact and_iff_left rfl
  rw [hplain, total_eq_sumEven_add, add_right_inj, left_eq_add, ← UInt32.toNat_inj,
    UInt32.toNat_add]
  rfl

end Even

/-- **Every fold counts every lane once**, whether there are four, eight or sixteen: onto any sums
it adds the plain and the weighted lanes as numbers modulo 2^32, in whatever order they stand, and
folding two rows in turn is folding their sum. The fold for plain lanes whose odd lanes are zero
adds the same weighted lanes but plain lanes 0 and 2 alone, so that it does what the fold of four
lanes does just if the other two cancel. -/
theorem folds_count_every_lane :
    CountsEveryLane finishFour ∧ CountsEveryLane finishEight ∧ CountsEveryLane finishSixteen ∧
      ∀ (s : Sums) (plain weighted : Lanes 4),
        (finishEven s plain weighted).weighted = (finishFour s plain weighted).weighted ∧
          (finishEven s plain weighted).plain.toNat =
            (s.plain.toNat + ((plain.get 0).toNat + (plain.get 2).toNat)) % 2 ^ 32 ∧
          (finishEven s plain weighted = finishFour s plain weighted ↔
            ((plain.get 1).toNat + (plain.get 3).toNat) % 2 ^ 32 = 0) := by
  refine ⟨countsEveryLane_of_totals finishFour_eq, countsEveryLane_of_totals finishEight_eq,
    countsEveryLane_of_totals finishSixteen_eq, fun s plain weighted => ⟨rfl, ?_, ?_⟩⟩
  · exact toNat_finishEven_plain s plain weighted
  · exact finishEven_eq_iff s plain weighted

/-- Odd lanes that are not zero, and yet cancel. -/
example : finishEven ⟨1, 0⟩ #v[7, 0x80000000, 9, 0x80000000] #v[1, 2, 3, 4] =
    finishFour ⟨1, 0⟩ #v[7, 0x80000000, 9, 0x80000000] #v[1, 2, 3, 4] := by
  decide +kernel

end AdaptiveAdler.Lanes
