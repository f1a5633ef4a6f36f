import AdaptiveAdler.Proofs.Concat

/-! Parts may be combined in any grouping.

In residues a combination is `Totals.join`, which is associative over the sums of the
lengths and has the sums of no bytes as its identity. A combination is reduced, so these
laws hold of the words too, for any states, checksums of strings or not
(`combine_is_monoid`). -/
namespace AdaptiveAdler

/-! ### The laws of joining -/

namespace Totals
variable {R : Type} [CommRing R]

theorem join_assoc (a b c : Totals R) (m n : R) :
    (a.join b m).join c n = a.join (b.join c n) (m + n) := by
  ext
  · simp only [join]
    ring
  · simp only [join]
    ring

/-- The sums of no bytes, on the right. -/
theorem join_one (a : Totals R) : a.join ⟨1, 0⟩ 0 = a := by
  ext
  · simp only [join]
    ring
  · simp only [join]
    ring

/-- The sums of no bytes, on the left; then the length does not matter. -/
theorem one_join (a : Totals R) (n : R) : join ⟨1, 0⟩ a n = a := by
  ext
  · simp only [join]
    ring
  · simp only [join]
    ring

end Totals

/-! ### The words of a combination -/

/-- Two combinations with the same residues are the same. -/
theorem combine_eq_of_residues {a b digest : UInt32} {length : UInt64}
    (hdigest : (Sums.unpack digest).Reduced)
    (h : (Sums.unpack a).residues.join (Sums.unpack b).residues (length.toNat : ZMod 65521) =
      (Sums.unpack digest).residues) : combine a b length = digest := by
  apply Sums.unpack_injective
  apply (reduced_unpack_combine a b length).eq_of_residues hdigest
  rw [residues_unpack_combine, h]

theorem reduced_unpack_normalize (digest : UInt32) : (Sums.unpack (normalize digest)).Reduced := by
  rw [Bytewise.unpack_normalize]
  exact Sums.reduced_reduce _

theorem residues_unpack_normalize (digest : UInt32) :
    (Sums.unpack (normalize digest)).residues = (Sums.unpack digest).residues := by
  rw [Bytewise.unpack_normalize, Sums.residues_reduce]

theorem combine_assoc (a b c : UInt32) {m n : UInt64} (h : m.toNat + n.toNat < 2 ^ 64) :
    combine (combine a b m) c n = combine a (combine b c n) (m + n) := by
  have hlength : (m + n).toNat = m.toNat + n.toNat := by
    rw [UInt64.toNat_add]
    exact Nat.mod_eq_of_lt h
  apply combine_eq_of_residues (reduced_unpack_combine ..)
  rw [residues_unpack_combine, residues_unpack_combine, residues_unpack_combine,
    Totals.join_assoc, hlength, Nat.cast_add]

theorem combine_initial (a : UInt32) : combine a initial 0 = normalize a := by
  apply combine_eq_of_residues (reduced_unpack_normalize a)
  have hzero : ((0 : UInt64).toNat : ZMod 65521) = 0 := Nat.cast_zero
  rw [residues_initial, hzero, Totals.join_one, residues_unpack_normalize]

theorem initial_combine (a : UInt32) (n : UInt64) : combine initial a n = normalize a := by
  apply combine_eq_of_residues (reduced_unpack_normalize a)
  rw [residues_initial, Totals.one_join, residues_unpack_normalize]

/-- Halves and length matter by their residues only. -/
theorem combine_congr {a b a' b' : UInt32} {n n' : UInt64} (ha : SameResidues a' a)
    (hb : SameResidues b' b) (hn : n'.toNat % 65521 = n.toNat % 65521) :
    combine a' b' n' = combine a b n := by
  have hlength : (n'.toNat : ZMod 65521) = n.toNat := (ZMod.natCast_eq_natCast_iff' ..).mpr hn
  apply combine_eq_of_residues (reduced_unpack_combine ..)
  rw [residues_unpack_combine, Sums.residues_unpack_eq_iff.mpr ha,
    Sums.residues_unpack_eq_iff.mpr hb, hlength]

/-! ### No word wraps -/

/-- The halves of a combination are what is left of its last two words. -/
theorem exact_unpack_combine (a b : UInt32) (length : UInt64) :
    let words := (Sums.unpack a).reduce.jointWords (Sums.unpack b).reduce length
    (Sums.unpack (combine a b length)).exact =
      ⟨words.plain.toNat % 65521, words.weighted.toNat % 65521⟩ := by
  rw [combine, Sums.unpack_pack (Sums.reduced_join length).narrow, Sums.exact_join]

/-- **Combining is a monoid over lengths**, on any states, reduced or not: it is
associative as long as the lengths add up in a word, and the checksum of no bytes is its
identity up to reduction. States and lengths matter by their residues only, every result is
reduced, and none of the words it is computed in wraps or goes below zero: each is the number
it stands for, and the halves of the result are what is left of the last two. -/
theorem combine_is_monoid (a b c : UInt32) (m n : UInt64) :
    (m.toNat + n.toNat < 2 ^ 64 →
        combine (combine a b m) c n = combine a (combine b c n) (m + n)) ∧
      (combine a initial 0 = normalize a ∧ combine initial a n = normalize a) ∧
      (∀ (a' b' : UInt32) (m' : UInt64), SameResidues a' a → SameResidues b' b →
        m'.toNat % 65521 = m.toNat % 65521 → combine a' b' m' = combine a b m) ∧
      (Sums.unpack (combine a b m)).Reduced ∧
      let first := (Sums.unpack a).reduce
      let second := (Sums.unpack b).reduce
      let words := first.jointWords second m
      words.Exact first second m ∧
        (Sums.unpack (combine a b m)).exact =
          ⟨words.plain.toNat % 65521, words.weighted.toNat % 65521⟩ :=
  ⟨combine_assoc a b c, ⟨combine_initial a, initial_combine a n⟩,
    fun _ _ _ ha hb hm => combine_congr ha hb hm, reduced_unpack_combine a b m,
    Sums.exact_jointWords m (Sums.reduced_reduce _) (Sums.reduced_reduce _),
    exact_unpack_combine a b m⟩

/-- Three states that are no checksums, with lengths beyond the modulus, and one of them
with its halves and its length reduced. -/
theorem combine_three_states :
    let a : UInt32 := 0xFFFFFFFF
    let b : UInt32 := 0xFFF10000
    let c : UInt32 := 0x1234FFFE
    (100000 : UInt64).toNat + (70000 : UInt64).toNat < 2 ^ 64 ∧
      combine (combine a b 100000) c 70000 = combine a (combine b c 70000) 170000 ∧
      SameResidues 0x000E000E a ∧ SameResidues 0 b ∧
      (34479 : UInt64).toNat % 65521 = (100000 : UInt64).toNat % 65521 ∧
      combine 0x000E000E 0 34479 = combine a b 100000 := by
  intro a b c
  have hlengths : (100000 : UInt64).toNat + (70000 : UInt64).toNat < 2 ^ 64 := by decide
  have ha : SameResidues 0x000E000E a := ⟨by decide, by decide⟩
  have hb : SameResidues 0 b := ⟨by decide, by decide⟩
  have hm : (34479 : UInt64).toNat % 65521 = (100000 : UInt64).toNat % 65521 := by decide
  obtain ⟨hassoc, -, hcongr, -⟩ := combine_is_monoid a b c 100000 70000
  exact ⟨hlengths, hassoc hlengths, ha, hb, hm, hcongr _ _ _ ha hb hm⟩

end AdaptiveAdler
