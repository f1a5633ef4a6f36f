import AdaptiveAdler.Proofs.Lanes

/-! The deferral limit is the last safe length.

`Sums.absorbAll` adds words, and `Totals.absorbAll` makes the same steps with natural numbers.
The sums only grow, so no addition leaves a word if the last sums fit one
(`Sums.neverWraps_iff_fits`), and then the words stand for the numbers after every byte. For
each length there is a worst case, bytes of `0xFF` from the largest reduced sums, and
`worstWeighted` is what it comes to (`isGreatest_worstWeighted`). So up to the deferral limit
nothing wraps, beyond it something can, and what is left when words wrap are the sums modulo
2^32 (`deferralLimit_is_exact`). -/
namespace AdaptiveAdler

/-! ### Words that do not wrap -/

/-- The sums only grow. -/
theorem Totals.Fits.of_advance {t : Totals Nat} {bytes : List UInt8}
    (h : (t.advance bytes).Fits) : t.Fits := by
  obtain ⟨hplain, hweighted⟩ := h
  constructor
  · exact Nat.lt_of_le_of_lt (Nat.le_add_right ..) hplain
  · exact Nat.lt_of_le_of_lt ((Nat.le_add_right ..).trans (Nat.le_add_right ..)) hweighted

namespace Sums

/-- Neither addition leaves a word, at any byte. -/
def NeverWraps (s : Sums) : List UInt8 → Prop
  | [] => True
  | byte :: rest =>
    s.plain.toNat + byte.toNat < 2 ^ 32 ∧
      s.weighted.toNat + (s.plain.toNat + byte.toNat) < 2 ^ 32 ∧
      (s.absorb byte).NeverWraps rest

/-- One byte wraps nothing if the numbers behind it fit. -/
theorem exact_absorb {s : Sums} {byte : UInt8} (h : (s.exact.absorb byte).Fits) :
    (s.absorb byte).exact = s.exact.absorb byte := by
  rw [← Totals.advance_singleton] at h ⊢
  exact exact_absorbAll h

theorem neverWraps_iff_fits (s : Sums) (bytes : List UInt8) :
    s.NeverWraps bytes ↔ (s.exact.absorbAll bytes).Fits := by
  induction bytes generalizing s with
  | nil => exact iff_of_true trivial ⟨s.plain.toNat_lt, s.weighted.toNat_lt⟩
  | cons b rest ih =>
    rw [NeverWraps, ih, ← and_assoc]
    show (s.exact.absorb b).Fits ∧ _ ↔ ((s.exact.absorb b).absorbAll rest).Fits
    constructor
    · rintro ⟨hfits, hrest⟩
      rwa [exact_absorb hfits] at hrest
    · intro h
      have hfits : (s.exact.absorb b).Fits := by
        rw [Totals.absorbAll_eq_advance] at h
        exact h.of_advance
      exact ⟨hfits, by rwa [exact_absorb hfits]⟩

/-- As long as nothing wraps, the words are the numbers after every byte. -/
theorem NeverWraps.exact {s : Sums} {bytes before : List UInt8} (h : s.NeverWraps bytes)
    (hbefore : before <+: bytes) :
    (s.exact.absorbAll before).Fits ∧ (s.absorbAll before).exact = s.exact.absorbAll before := by
  obtain ⟨after, rfl⟩ := hbefore
  rw [neverWraps_iff_fits, Totals.absorbAll_eq_advance, Totals.advance_append] at h
  rw [Totals.absorbAll_eq_advance]
  exact ⟨h.of_advance, exact_absorbAll h.of_advance⟩

theorem neverWraps_of_narrow {s : Sums} {bytes : List UInt8} (h : s.Narrow)
    (hlen : bytes.length ≤ deferralLimit) : s.NeverWraps bytes := by
  rw [neverWraps_iff_fits, Totals.absorbAll_eq_advance]
  exact fits_of_narrow h hlen

end Sums

/-! ### The worst case -/

theorem two_mul_triangle (n : Nat) : 2 * (n * (n + 1) / 2) = n * (n + 1) :=
  Nat.two_mul_div_two_of_even (Nat.even_mul_succ_self n)

theorem worstWeighted_mono : Monotone worstWeighted := by
  intro m n h
  unfold worstWeighted
  gcongr

theorem weightedSum_replicate (n : Nat) :
    weightedSum (List.replicate n 0xFF) = 255 * (n * (n + 1) / 2) := by
  have htwice : 2 * weightedSum (List.replicate n 0xFF) = 255 * (n * (n + 1)) := by
    induction n with
    | zero => rfl
    | succ n ih =>
      rw [List.replicate_succ, weightedSum_cons, List.length_replicate]
      show 2 * ((n + 1) * 255 + _) = _
      linarith
  have htriangle := two_mul_triangle n
  omega

/-- The largest sums below the modulus. -/
def Sums.largest : Sums := ⟨modulus - 1, modulus - 1⟩

theorem Sums.reduced_largest : largest.Reduced := reduced_iff.mpr ⟨by decide, by decide⟩

theorem weighted_replicate_largest (n : Nat) :
    (Sums.largest.exact.absorbAll (List.replicate n 0xFF)).weighted = worstWeighted n := by
  rw [Totals.absorbAll_eq_advance]
  show 65520 + (List.replicate n (0xFF : UInt8)).length * 65520 + weightedSum _ = _
  rw [List.length_replicate, weightedSum_replicate, worstWeighted, toNat_modulus]
  omega

theorem weighted_le_worstWeighted {s : Sums} (h : s.Reduced) (bytes : List UInt8) :
    (s.exact.absorbAll bytes).weighted ≤ worstWeighted bytes.length := by
  obtain ⟨hp, hw⟩ := Sums.reduced_iff.mp h
  have hsum := weightedSum_le bytes
  have htriangle := two_mul_triangle bytes.length
  have hcarried : bytes.length * s.plain.toNat ≤ bytes.length * 65520 :=
    Nat.mul_le_mul_left _ (Nat.le_of_lt_succ hp)
  rw [Totals.absorbAll_eq_advance]
  show s.weighted.toNat + bytes.length * s.plain.toNat + weightedSum bytes ≤ _
  rw [worstWeighted, toNat_modulus]
  omega

/-- What the worst case comes to is a maximum: reached, and not exceeded. -/
theorem isGreatest_worstWeighted (n : Nat) :
    IsGreatest {w | ∃ (s : Sums) (bytes : List UInt8), s.Reduced ∧ bytes.length = n ∧
      (s.exact.absorbAll bytes).weighted = w} (worstWeighted n) := by
  constructor
  · exact ⟨Sums.largest, List.replicate n 0xFF, Sums.reduced_largest, List.length_replicate,
      weighted_replicate_largest n⟩
  · rintro w ⟨s, bytes, hs, rfl, rfl⟩
    exact weighted_le_worstWeighted hs bytes

/-- Beyond the deferral limit the worst case of every length leaves a word. -/
theorem le_worstWeighted_of_deferralLimit_lt {n : Nat} (h : deferralLimit < n) :
    2 ^ 32 ≤ worstWeighted n :=
  worstWeighted_deferralLimit.2.trans (worstWeighted_mono h)

/-! ### Words that may wrap -/

/-- The words are the sums modulo 2^32, of any bytes and from any words. -/
theorem Sums.toNat_absorbAll (s : Sums) (bytes : List UInt8) :
    (s.absorbAll bytes).plain.toNat =
        (s.plain.toNat + ∑ i : Fin bytes.length, (bytes.get i).toNat) % 2 ^ 32 ∧
      (s.absorbAll bytes).weighted.toNat =
        (s.weighted.toNat + bytes.length * s.plain.toNat
          + ∑ i : Fin bytes.length, (bytes.length - i) * (bytes.get i).toNat) % 2 ^ 32 := by
  have hplain : byteSum bytes = ∑ i : Fin bytes.length, (bytes.get i).toNat :=
    byteSum_eq_sum bytes
  have hweighted : weightedSum bytes =
      ∑ i : Fin bytes.length, (bytes.length - i) * (bytes.get i).toNat :=
    weightedSum_eq_sum bytes
  rw [absorbAll_eq_ofNat, ← hplain, ← hweighted]
  exact ⟨UInt32.toNat_ofNat, UInt32.toNat_ofNat⟩

/-- **The deferral limit is exact.** Up to it, from sums of 16 bits and so from all reduced
ones, no addition of the loop wraps: after every byte the sums over the natural numbers fit a
word, and the words are these sums. For every length, `worstWeighted` is the largest weighted
sum from reduced sums, and beyond the limit some bytes and some reduced sums take it out of a
word. Whether or not words wrap, bytes can be absorbed in parts, and the words are the closed
sums modulo 2^32. -/
theorem deferralLimit_is_exact :
    (∀ (s : Sums) (bytes : List UInt8), s.Narrow → bytes.length ≤ deferralLimit →
      s.NeverWraps bytes ∧ ∀ before, before <+: bytes →
        (s.exact.absorbAll before).plain ≤ 2 ^ 32 - 1 ∧
          (s.exact.absorbAll before).weighted ≤ 2 ^ 32 - 1 ∧
          (s.absorbAll before).exact = s.exact.absorbAll before) ∧
      (∀ s : Sums, s.Reduced → s.Narrow) ∧
      (∀ n, IsGreatest {w | ∃ (s : Sums) (bytes : List UInt8), s.Reduced ∧ bytes.length = n ∧
        (s.exact.absorbAll bytes).weighted = w} (worstWeighted n)) ∧
      (∀ n, deferralLimit < n → ∃ (s : Sums) (bytes : List UInt8), s.Reduced ∧ bytes.length = n ∧
        2 ^ 32 - 1 < (s.exact.absorbAll bytes).weighted ∧ ¬ s.NeverWraps bytes) ∧
      ∀ s : Sums,
        (∀ u v, s.absorbAll (u ++ v) = (s.absorbAll u).absorbAll v) ∧
          ∀ bytes,
            (s.absorbAll bytes).plain.toNat =
                (s.plain.toNat + ∑ i : Fin bytes.length, (bytes.get i).toNat) % 2 ^ 32 ∧
              (s.absorbAll bytes).weighted.toNat =
                (s.weighted.toNat + bytes.length * s.plain.toNat
                  + ∑ i : Fin bytes.length, (bytes.length - i) * (bytes.get i).toNat) % 2 ^ 32 := by
  refine ⟨fun s bytes hs hlen => ?_, fun s => Sums.Reduced.narrow, isGreatest_worstWeighted,
    fun n hn => ?_, fun s => ⟨s.absorbAll_append, s.toNat_absorbAll⟩⟩
  · have hnever := Sums.neverWraps_of_narrow hs hlen
    refine ⟨hnever, fun before hbefore => ?_⟩
    obtain ⟨⟨hplain, hweighted⟩, hexact⟩ := hnever.exact hbefore
    exact ⟨Nat.le_pred_of_lt hplain, Nat.le_pred_of_lt hweighted, hexact⟩
  · obtain ⟨⟨s, bytes, hs, hlen, hworst⟩, -⟩ := isGreatest_worstWeighted n
    have hleaves := le_worstWeighted_of_deferralLimit_lt hn
    refine ⟨s, bytes, hs, hlen, by omega, fun hnever => ?_⟩
    have hfits := ((Sums.neverWraps_iff_fits s bytes).mp hnever).2
    omega

/-- From halves of `0xFFFF`, which are not reduced, `0xFF` as often as the limit allows. -/
theorem deferralLimit_is_exact_of_full_halves :
    let s : Sums := ⟨0xFFFF, 0xFFFF⟩
    let bytes : List UInt8 := List.replicate 5552 0xFF
    (s.Narrow ∧ bytes.length ≤ deferralLimit ∧ deferralLimit < 5553) ∧
      s.NeverWraps bytes ∧
      (s.absorbAll bytes).exact = s.exact.absorbAll bytes ∧
      s.absorbAll bytes = ⟨1481295, 4294773495⟩ ∧
      ∃ (s : Sums) (bytes : List UInt8), s.Reduced ∧ bytes.length = 5553 ∧
        2 ^ 32 - 1 < (s.exact.absorbAll bytes).weighted := by
  intro s bytes
  have hnarrow : s.Narrow := ⟨by decide, by decide⟩
  have hlen : bytes.length ≤ deferralLimit := List.length_replicate.le
  have hbeyond : deferralLimit < 5553 := by decide
  obtain ⟨hsafe, -, -, hunsafe, -⟩ := deferralLimit_is_exact
  obtain ⟨hnever, hexact⟩ := hsafe s bytes hnarrow hlen
  obtain ⟨t, longer, ht, hlonger, hleaves, -⟩ := hunsafe 5553 hbeyond
  exact ⟨⟨hnarrow, hlen, hbeyond⟩, hnever, (hexact bytes List.prefix_rfl).2.2, by decide +kernel,
    t, longer, ht, hlonger, hleaves⟩

end AdaptiveAdler
