import AdaptiveAdler.Digest.Bytewise
import AdaptiveAdler.Proofs.Reaches

/-! The checksum by definition reaches its result.

One step leads along one byte, from any sums of 16 bits, so a run leads along all
of its bytes. Whatever else reaches the same result computes the same checksum:
that is how every other kernel is compared with the definition
(`update_eq_of_reaches`). -/
namespace AdaptiveAdler.Bytewise

/-- One step leads along one byte; neither addition wraps. -/
theorem reaches_step {s : Sums} (h : s.Narrow) (b : UInt8) : s.Reaches [b] (step s b) := by
  obtain ⟨hp, hw⟩ := h
  have hb := b.toNat_lt
  have hplain : (s.plain + b.toUInt32).toNat = s.plain.toNat + b.toNat := by
    rw [UInt32.toNat_add, UInt8.toNat_toUInt32]
    exact Nat.mod_eq_of_lt (by omega)
  have hreduced : (s.plain + b.toUInt32).toNat % 65521 < 65521 := Nat.mod_lt _ (by decide)
  have hweighted : (s.weighted + (s.plain + b.toUInt32) % modulus).toNat =
      s.weighted.toNat + (s.plain + b.toUInt32).toNat % 65521 := by
    rw [UInt32.toNat_add, UInt32.toNat_mod, toNat_modulus]
    exact Nat.mod_eq_of_lt (by omega)
  constructor
  · rw [Sums.reduced_iff, step, UInt32.toNat_mod, UInt32.toNat_mod]
    exact ⟨Nat.mod_lt _ (by decide), Nat.mod_lt _ (by decide)⟩
  · rw [Totals.advance_singleton]
    simp only [Sums.residues, Sums.exact, step, Totals.map, Totals.absorb, UInt32.toNat_mod,
      toNat_modulus, hweighted, hplain, eq_natCast, ZMod.natCast_mod, Nat.cast_add]

/-- A run over one byte or more leads along its bytes. -/
theorem reaches_run {s : Sums} {bytes : List UInt8} (hne : bytes ≠ []) (h : s.Narrow) :
    s.Reaches bytes (run s bytes) := by
  have hrun := Sums.reaches_foldl (fun b => [b]) hne (fun _ b hs _ => reaches_step hs b) h
  rwa [List.flatMap_singleton'] at hrun

/-- From reduced sums a run leads along its bytes even if there are none. -/
theorem reaches_run_of_reduced {s : Sums} (h : s.Reduced) (bytes : List UInt8) :
    s.Reaches bytes (run s bytes) := by
  by_cases hne : bytes = []
  · rw [hne]
    exact h.reaches_self
  · exact reaches_run hne h.narrow

theorem update_nil (digest : UInt32) : update digest [] = digest := Sums.pack_unpack digest

/-- Any way of summing that reaches its result agrees with the definition. -/
theorem update_eq_of_reaches {digest : UInt32} {bytes : List UInt8} {t : Sums} (hne : bytes ≠ [])
    (h : (Sums.unpack digest).Reaches bytes t) : update digest bytes = t.pack := by
  rw [update, (reaches_run hne (Sums.narrow_unpack digest)).unique h]

theorem narrow_run {s : Sums} (h : s.Narrow) (bytes : List UInt8) : (run s bytes).Narrow := by
  by_cases hne : bytes = []
  · rw [hne]
    exact h
  · exact (reaches_run hne h).reduced.narrow

theorem unpack_update (digest : UInt32) (bytes : List UInt8) :
    Sums.unpack (update digest bytes) = run (Sums.unpack digest) bytes :=
  Sums.unpack_pack (narrow_run (Sums.narrow_unpack digest) bytes)

/-- An update goes on where the last one stopped. -/
theorem update_append (digest : UInt32) (a b : List UInt8) :
    update (update digest a) b = update digest (a ++ b) := by
  rw [update, unpack_update, update, run_append]

/-- In residues an update follows the rule of the sums, even on no bytes. -/
theorem residues_update (digest : UInt32) (bytes : List UInt8) :
    (Sums.unpack (update digest bytes)).residues = (Sums.unpack digest).residues.advance bytes := by
  by_cases hne : bytes = []
  · rw [hne, update_nil, Totals.advance_nil]
  · rw [unpack_update]
    exact (reaches_run hne (Sums.narrow_unpack digest)).residues

/-! ### Starting from reduced sums -/

theorem unpack_normalize (digest : UInt32) :
    Sums.unpack (normalize digest) = (Sums.unpack digest).reduce :=
  Sums.unpack_pack (Sums.reduced_reduce _).narrow

/-- From reduced sums an update reaches its result, on no bytes too. -/
theorem reaches_update_normalize (digest : UInt32) (bytes : List UInt8) :
    (Sums.unpack digest).Reaches bytes (Sums.unpack (update (normalize digest) bytes)) := by
  have hstart := Sums.reaches_reduce (Sums.unpack digest)
  rw [unpack_update, unpack_normalize]
  exact hstart.trans (reaches_run_of_reduced hstart.reduced bytes)

/-- One byte is enough to make a start that is not reduced the same as its reduction. -/
theorem update_normalize (digest : UInt32) {bytes : List UInt8} (hne : bytes ≠ []) :
    update (normalize digest) bytes = update digest bytes := by
  rw [update_eq_of_reaches hne (reaches_update_normalize digest bytes), Sums.pack_unpack]

/-- A reduction between two updates, or before both, is the same. -/
theorem update_normalize_append (digest : UInt32) (a b : List UInt8) :
    update (normalize (update digest a)) b = update (normalize digest) (a ++ b) := by
  have hbetween := (reaches_update_normalize (update digest a) b).after (residues_update digest a)
  exact Sums.unpack_injective (hbetween.unique (reaches_update_normalize digest (a ++ b)))

end AdaptiveAdler.Bytewise
