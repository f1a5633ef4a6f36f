import AdaptiveAdler.Proofs.Bytewise
import AdaptiveAdler.Proofs.Lanes

/-! The checksum in closed form.

Reduced after every byte or not at all, the two sums have the same remainders. So the
checksum by definition is a formula in the halves of its start and the bytes
(`update_closed_form`): the plain sum of the bytes onto the low half, and onto the high
half the low half once for each byte and every byte by its distance to the end. From the
halves of a packed checksum, which may exceed the modulus, no addition on the way leaves
a word (`additions_fit`). -/
namespace AdaptiveAdler.Bytewise

/-- Neither addition of a step wraps. -/
theorem additions_fit {s : Sums} (h : s.Narrow) (b : UInt8) :
    s.plain.toNat + b.toNat < 2 ^ 32 ∧ s.weighted.toNat + (step s b).plain.toNat < 2 ^ 32 := by
  obtain ⟨hp, hw⟩ := h
  have hb := b.toNat_lt
  have hplain := (reaches_step ⟨hp, hw⟩ b).reduced.narrow.1
  constructor <;> omega

/-- The exact sums after a byte string, from the halves of a packed checksum. -/
theorem exact_unpack_advance (digest : UInt32) (bytes : List UInt8) :
    (Sums.unpack digest).exact.advance bytes =
      ⟨digest.toNat % 2 ^ 16 + ∑ i : Fin bytes.length, (bytes.get i).toNat,
        digest.toNat / 2 ^ 16 + bytes.length * (digest.toNat % 2 ^ 16) +
          ∑ i : Fin bytes.length, (bytes.length - i) * (bytes.get i).toNat⟩ := by
  simp only [Totals.advance, Sums.exact, Sums.toNat_unpack_plain, Sums.toNat_unpack_weighted,
    byteSum_eq_sum, weightedSum_eq_sum, Nat.cast_id]
  rfl

/-- A run over one byte or more ends in the remainders of the exact sums. -/
theorem run_eq_ofNat {s : Sums} (h : s.Narrow) {bytes : List UInt8} (hne : bytes ≠ []) :
    run s bytes = ⟨UInt32.ofNat ((s.exact.advance bytes).plain % 65521),
      UInt32.ofNat ((s.exact.advance bytes).weighted % 65521)⟩ := by
  have hrun := (reaches_run hne h).exact
  rw [Sums.exact, Totals.mk.injEq] at hrun
  rw [← hrun.1, ← hrun.2, UInt32.ofNat_toNat, UInt32.ofNat_toNat]

/-- Some bytes make the halves of the start matter by their residues only. -/
theorem update_eq_of_sameResidues {digest other : UInt32} {bytes : List UInt8} (hne : bytes ≠ [])
    (h : SameResidues other digest) : update other bytes = update digest bytes := by
  have hother := reaches_run hne (Sums.narrow_unpack other)
  refine (update_eq_of_reaches hne ⟨hother.reduced, ?_⟩).symm
  rw [hother.residues, Sums.residues_unpack_eq_iff.mpr h]

theorem reduced_unpack_update (digest : UInt32) {bytes : List UInt8} (hne : bytes ≠ []) :
    (Sums.unpack (update digest bytes)).Reduced := by
  rw [unpack_update]
  exact (reaches_run hne (Sums.narrow_unpack digest)).reduced

/-- **The checksum in closed form.** No bytes leave a checksum as it is. Others lead to the
remainders of the closed sums, whatever the halves they start from: the result is reduced
and depends on the start by its residues only. At no byte does an addition of the words
wrap, and the position stays within the length. -/
theorem update_closed_form (digest : UInt32) (bytes : List UInt8) :
    let low := digest.toNat % 2 ^ 16
    let high := digest.toNat / 2 ^ 16
    update digest [] = digest ∧
      (bytes ≠ [] →
        update digest bytes = Sums.pack
            ⟨UInt32.ofNat ((low + ∑ i : Fin bytes.length, (bytes.get i).toNat) % 65521),
              UInt32.ofNat ((high + bytes.length * low +
                ∑ i : Fin bytes.length, (bytes.length - i) * (bytes.get i).toNat) % 65521)⟩ ∧
          (Sums.unpack (update digest bytes)).Reduced ∧
          ∀ other : UInt32, SameResidues other digest → update other bytes = update digest bytes) ∧
      ∀ before b after, bytes = before ++ b :: after →
        let s := run (Sums.unpack digest) before
        s.plain.toNat + b.toNat < 2 ^ 32 ∧
          s.weighted.toNat + (step s b).plain.toNat < 2 ^ 32 ∧
          before.length + 1 ≤ bytes.length := by
  intro low high
  refine ⟨update_nil digest, fun hne => ⟨?_, reduced_unpack_update digest hne,
    fun other => update_eq_of_sameResidues hne⟩, fun before b after h => ?_⟩
  · rw [update, run_eq_ofNat (Sums.narrow_unpack digest) hne, exact_unpack_advance]
  · obtain ⟨hplain, hweighted⟩ := additions_fit (narrow_run (Sums.narrow_unpack digest) before) b
    refine ⟨hplain, hweighted, ?_⟩
    rw [h, List.length_append, List.length_cons]
    omega

/-- Three bytes onto halves of `0xFFFF`, which reduce to 14. -/
theorem update_three_bytes :
    let bytes : List UInt8 := [0xFF, 0xFE, 0x01]
    let s : Sums := run (Sums.unpack 0xFFFFFFFF) [0xFF]
    bytes ≠ [] ∧ bytes = [0xFF] ++ 0xFE :: [0x01] ∧ SameResidues 0x000E000E 0xFFFFFFFF ∧
      update 0xFFFFFFFF bytes = 87163404 ∧
      update 0x000E000E bytes = update 0xFFFFFFFF bytes ∧
      s.plain.toNat + 0xFE < 2 ^ 32 ∧ s.weighted.toNat + (step s 0xFE).plain.toNat < 2 ^ 32 := by
  intro bytes s
  have hbytes : bytes ≠ [] := by decide
  have hresidues : SameResidues 0x000E000E 0xFFFFFFFF := ⟨by decide, by decide⟩
  obtain ⟨-, hclosed, hadds⟩ := update_closed_form 0xFFFFFFFF bytes
  obtain ⟨hupdate, -, hother⟩ := hclosed hbytes
  obtain ⟨hplain, hweighted, -⟩ := hadds [0xFF] 0xFE [0x01] rfl
  refine ⟨hbytes, rfl, hresidues, ?_, hother _ hresidues, hplain, hweighted⟩
  rw [hupdate]
  decide +kernel

end AdaptiveAdler.Bytewise
