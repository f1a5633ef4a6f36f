import AdaptiveAdler.Proofs.Grouping

/-! A combination hides no difference.

Joining can be undone from either side. The plain sum of the joint string gives back that of the
missing part, and only then is its share of the weighted sum known, once for every byte of the
second part; what is left is the weighted sum of the missing part. A combination is reduced, so
two of them with one part in common are the same if the residues of the other parts are, and in
no other case. Checksums of strings are reduced too, or that of no bytes, so a wrong checksum of
either part always makes a wrong checksum of the whole (`combine_hides_no_difference`). -/
namespace AdaptiveAdler

/-! ### Undoing a join -/

namespace Totals
variable {R : Type} [CommRing R]

/-- The plain sum of the first part comes back before the share that the weighted sum has of it. -/
theorem join_left_inj {a a' b : Totals R} {n : R} : a.join b n = a'.join b n ↔ a = a' := by
  refine ⟨fun h => ?_, fun h => by rw [h]⟩
  simp only [join, Totals.mk.injEq] at h
  obtain ⟨hplain, hweighted⟩ := h
  have hfirst : a.plain = a'.plain := by linear_combination hplain
  rw [hfirst] at hweighted
  ext
  · exact hfirst
  · linear_combination hweighted

theorem join_right_inj {a b b' : Totals R} {n : R} : a.join b n = a.join b' n ↔ b = b' := by
  refine ⟨fun h => ?_, fun h => by rw [h]⟩
  simp only [join, Totals.mk.injEq] at h
  obtain ⟨hplain, hweighted⟩ := h
  ext
  · linear_combination hplain
  · linear_combination hweighted

end Totals

/-! ### Combinations with a part in common -/

/-- Combinations are the same if their joint residues are. -/
theorem combine_eq_combine_iff {a a' b b' : UInt32} {n n' : UInt64} :
    combine a b n = combine a' b' n' ↔
      (Sums.unpack a).residues.join (Sums.unpack b).residues (n.toNat : ZMod 65521) =
        (Sums.unpack a').residues.join (Sums.unpack b').residues (n'.toNat : ZMod 65521) := by
  rw [← residues_unpack_combine a' b' n']
  refine ⟨fun h => ?_, combine_eq_of_residues (reduced_unpack_combine a' b' n')⟩
  rw [← residues_unpack_combine, h]

theorem combine_left_inj {a a' b : UInt32} {n : UInt64} :
    combine a b n = combine a' b n ↔ SameResidues a a' := by
  rw [combine_eq_combine_iff, Totals.join_left_inj, Sums.residues_unpack_eq_iff]

theorem combine_right_inj {a b b' : UInt32} {n : UInt64} :
    combine a b n = combine a b' n ↔ SameResidues b b' := by
  rw [combine_eq_combine_iff, Totals.join_right_inj, Sums.residues_unpack_eq_iff]

/-! ### Checksums of strings -/

section Engine
variable (engine : Engine)

theorem reduced_unpack_checksum (b : Buffer) : (Sums.unpack (engine.checksum b)).Reduced := by
  rw [engine.checksum_eq_bytewise, ← normalize_initial]
  exact (Bytewise.reaches_update_normalize initial b.bytes).reduced

theorem sameResidues_checksum {a b : Buffer} :
    SameResidues (engine.checksum a) (engine.checksum b) ↔
      engine.checksum a = engine.checksum b := by
  rw [← Sums.residues_unpack_eq_iff]
  refine ⟨fun h => ?_, fun h => by rw [h]⟩
  apply Sums.unpack_injective
  exact (reduced_unpack_checksum engine a).eq_of_residues (reduced_unpack_checksum engine b) h

/-- **A combination hides no difference**, whatever the states and the length: with the second
part in common two combinations are the same just if the halves of the first parts agree modulo
65521, and with the first part in common just if those of the second parts do. So where strings
are combined with the right checksum of one part, the checksum of the whole comes out right only
if that of the other part is right as well, whatever string it was taken from. -/
theorem combine_hides_no_difference :
    (∀ (a a' b : UInt32) (n : UInt64), combine a b n = combine a' b n ↔ SameResidues a a') ∧
      (∀ (a b b' : UInt32) (n : UInt64), combine a b n = combine a b' n ↔ SameResidues b b') ∧
      ∀ (a b : Buffer) (address : Nat), b.size < 2 ^ 64 →
        let whole := engine.checksum ⟨a.bytes ++ b.bytes, address⟩
        (∀ a' : Buffer,
          combine (engine.checksum a') (engine.checksum b) (UInt64.ofNat b.size) = whole ↔
            engine.checksum a' = engine.checksum a) ∧
        (∀ b' : Buffer,
          combine (engine.checksum a) (engine.checksum b') (UInt64.ofNat b.size) = whole ↔
            engine.checksum b' = engine.checksum b) := by
  refine ⟨fun _ _ _ _ => combine_left_inj, fun _ _ _ _ => combine_right_inj,
    fun a b address hsize => ?_⟩
  intro whole
  have hwhole : whole =
      combine (engine.checksum a) (engine.checksum b) (UInt64.ofNat b.size) := by
    rw [combine_checksums engine a b hsize]
    exact engine.checksum_eq_bytewise _
  rw [hwhole]
  refine ⟨fun a' => ?_, fun b' => ?_⟩
  · rw [combine_left_inj, sameResidues_checksum]
  · rw [combine_right_inj, sameResidues_checksum]

end Engine

/-- Halves that are not reduced, with a length beyond the modulus; and three bytes before
seventy, of which another order is noticed but other bytes with the same sums are not. -/
theorem combine_after_changed_bytes :
    let engine : Engine := ⟨64, .vector .avx2⟩
    let a : Buffer := ⟨[0, 2, 0], 0⟩
    let b : Buffer := ⟨List.replicate 70 0xFF, 3⟩
    let whole := engine.checksum ⟨a.bytes ++ b.bytes, 0⟩
    b.size < 2 ^ 64 ∧
      combine 0xFFFFFFFF 7 100000 = combine 0x000E000E 7 100000 ∧
      combine 7 0xFFFFFFFF 100000 ≠ combine 7 0x000E000F 100000 ∧
      combine (engine.checksum ⟨[1, 0, 1], 0⟩) (engine.checksum b) (UInt64.ofNat b.size) = whole ∧
      combine (engine.checksum ⟨[0, 0, 2], 0⟩) (engine.checksum b) (UInt64.ofNat b.size) ≠ whole ∧
      combine (engine.checksum a) (engine.checksum ⟨List.replicate 70 0, 3⟩)
        (UInt64.ofNat b.size) ≠ whole := by
  intro engine a b whole
  have hsize : b.size < 2 ^ 64 := by decide
  obtain ⟨hleft, hright, hparts⟩ := combine_hides_no_difference engine
  obtain ⟨hfirst, hsecond⟩ := hparts a b 0 hsize
  refine ⟨hsize, (hleft _ _ _ _).mpr ⟨by decide, by decide⟩,
    mt (hright _ _ _ _).mp fun h => absurd h.1 (by decide), (hfirst _).mpr ?_,
    mt (hfirst _).mp ?_, mt (hsecond _).mp ?_⟩
  · rw [engine.checksum_eq_bytewise, engine.checksum_eq_bytewise]
    decide
  · rw [engine.checksum_eq_bytewise, engine.checksum_eq_bytewise]
    decide
  · rw [engine.checksum_eq_bytewise, engine.checksum_eq_bytewise]
    decide +kernel

end AdaptiveAdler
