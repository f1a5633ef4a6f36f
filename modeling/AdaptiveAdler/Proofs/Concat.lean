import AdaptiveAdler.Digest.Concat
import AdaptiveAdler.Proofs.Agreement
import Mathlib.Tactic.LinearCombination

/-! Combining is concatenation.

In residues the combination of two checksums is `Totals.join`, a formula without
words: none of the 64-bit words on the way wraps or goes below zero (`exact_jointWords`). From
it, combining any state with the checksum of a byte string leads where the byte
string itself leads, so a checksum may be put together from the checksums of the
parts in order, of whatever lengths, empty ones included. -/
namespace AdaptiveAdler

/-- The sums of two adjacent strings: what the first leaves, and what the second, `n`
long, leaves from the start of a checksum. -/
def Totals.join {R : Type} [CommRing R] (a b : Totals R) (n : R) : Totals R where
  plain := a.plain + b.plain - 1
  weighted := a.weighted + b.weighted + n * a.plain - n

/-! ### The words of a combination -/

@[simp] theorem toNat_wideModulus : wideModulus.toNat = 65521 := rfl

/-- Each word is the number it stands for: no sum and no product wraps, and what is subtracted
is there to be subtracted. -/
structure JointWords.Exact (a b : Sums) (length : UInt64) (words : JointWords) : Prop where
  steps : words.steps.toNat = length.toNat % 65521
  plainSum : words.plainSum.toNat = a.plain.toNat + b.plain.toNat
  plainRaised : words.plainRaised.toNat = words.plainSum.toNat + 65521
  plain : words.plain.toNat + 1 = words.plainRaised.toNat
  weightedSum : words.weightedSum.toNat = a.weighted.toNat + b.weighted.toNat
  share : words.share.toNat = words.steps.toNat * a.plain.toNat
  weightedShared : words.weightedShared.toNat = words.weightedSum.toNat + words.share.toNat
  weightedRaised : words.weightedRaised.toNat = words.weightedShared.toNat + 65521
  weighted : words.weighted.toNat + words.steps.toNat = words.weightedRaised.toNat

namespace Sums
variable {a b : Sums} (length : UInt64)

/-- The joint sums are what is left of the last two words. -/
theorem exact_join : (a.join b length).exact =
    ⟨(a.jointWords b length).plain.toNat % 65521,
      (a.jointWords b length).weighted.toNat % 65521⟩ := by
  have hfits (word : UInt64) : (word % wideModulus).toUInt32.toNat = word.toNat % 65521 := by
    rw [UInt64.toNat_toUInt32, UInt64.toNat_mod, toNat_wideModulus]
    omega
  rw [exact, join, hfits, hfits]

theorem reduced_join : (a.join b length).Reduced := by
  have h := exact_join length (a := a) (b := b)
  rw [exact, Totals.mk.injEq] at h
  rw [reduced_iff, h.1, h.2]
  exact ⟨Nat.mod_lt _ (by decide), Nat.mod_lt _ (by decide)⟩

variable (ha : a.Reduced) (hb : b.Reduced)
include ha hb

theorem exact_jointWords : (a.jointWords b length).Exact a b length := by
  rw [reduced_iff] at ha hb
  have hone : (1 : UInt64).toNat = 1 := rfl
  have hsteps : length.toNat % 65521 < 65521 := Nat.mod_lt _ (by decide)
  have hproduct : length.toNat % 65521 * a.plain.toNat ≤ 65520 * 65520 :=
    Nat.mul_le_mul (by omega) (by omega)
  -- Each subtrahend is at most the modulus that was added just before.
  constructor <;>
    simp only [jointWords, UInt64.toNat_mod, UInt64.toNat_sub, UInt64.toNat_add, UInt64.toNat_mul,
      UInt32.toNat_toUInt64, toNat_wideModulus, hone] <;>
    omega

theorem residues_join :
    (a.join b length).residues = a.residues.join b.residues (length.toNat : ZMod 65521) := by
  have h := exact_jointWords length ha hb
  have hmodulus : ((65521 : Nat) : ZMod 65521) = 0 := ZMod.natCast_self 65521
  have hplain : (a.jointWords b length).plain.toNat + 1 =
      a.plain.toNat + b.plain.toNat + 65521 := by
    rw [h.plain, h.plainRaised, h.plainSum]
  have hweighted : (a.jointWords b length).weighted.toNat + length.toNat % 65521 =
      a.weighted.toNat + b.weighted.toNat + length.toNat % 65521 * a.plain.toNat + 65521 := by
    rw [← h.steps, h.weighted, h.weightedRaised, h.weightedShared, h.weightedSum, h.share]
  apply_fun (Nat.cast : Nat → ZMod 65521) at hplain hweighted
  simp only [Nat.cast_add, Nat.cast_mul, Nat.cast_one, ZMod.natCast_mod, hmodulus, add_zero]
    at hplain hweighted
  rw [residues, exact_join]
  simp only [residues, exact, Totals.map, Totals.join, eq_natCast, ZMod.natCast_mod,
    Totals.mk.injEq]
  exact ⟨eq_sub_of_add_eq hplain, eq_sub_of_add_eq hweighted⟩

end Sums

/-! ### Combining with the checksum of a string -/

theorem reduced_unpack_combine (a b : UInt32) (length : UInt64) :
    (Sums.unpack (combine a b length)).Reduced := by
  have h : ((Sums.unpack a).reduce.join (Sums.unpack b).reduce length).Reduced :=
    Sums.reduced_join length
  rwa [combine, Sums.unpack_pack h.narrow]

theorem residues_unpack_combine (a b : UInt32) (length : UInt64) :
    (Sums.unpack (combine a b length)).residues =
      (Sums.unpack a).residues.join (Sums.unpack b).residues (length.toNat : ZMod 65521) := by
  have ha := Sums.reduced_reduce (Sums.unpack a)
  have hb := Sums.reduced_reduce (Sums.unpack b)
  rw [combine, Sums.unpack_pack (Sums.reduced_join length).narrow,
    Sums.residues_join length ha hb, Sums.residues_reduce, Sums.residues_reduce]

/-- Joining any sums with what a string leaves from the start of a checksum is going on
with the string. -/
theorem Totals.join_advance {R : Type} [CommRing R] (t : Totals R) (bytes : List UInt8) :
    t.join (advance ⟨1, 0⟩ bytes) (bytes.length : R) = t.advance bytes := by
  ext
  · simp only [join, advance]
    ring
  · simp only [join, advance]
    ring

theorem residues_initial : (Sums.unpack initial).residues = ⟨1, 0⟩ := by
  have hexact : (Sums.unpack initial).exact = ⟨1, 0⟩ := rfl
  rw [Sums.residues, hexact, Totals.map, map_one, map_zero]

/-- A state combined with the checksum of a string of that length is the state, reduced,
brought up to date with the string. -/
theorem combine_update (digest : UInt32) {bytes : List UInt8} {length : UInt64}
    (h : length.toNat = bytes.length) :
    combine digest (Bytewise.update initial bytes) length =
      Bytewise.update (normalize digest) bytes := by
  have hcombine : (Sums.unpack digest).Reaches bytes
      (Sums.unpack (combine digest (Bytewise.update initial bytes) length)) := by
    refine ⟨reduced_unpack_combine .., ?_⟩
    rw [residues_unpack_combine, Bytewise.residues_update, residues_initial, h,
      Totals.join_advance]
  exact Sums.unpack_injective (hcombine.unique (Bytewise.reaches_update_normalize digest bytes))

/-! ### Checksums put together from parts -/

section Engine
variable (engine : Engine)

theorem combine_checksum (digest : UInt32) (b : Buffer) (h : b.size < 2 ^ 64) :
    combine digest (engine.checksum b) (UInt64.ofNat b.size) =
      Bytewise.update (normalize digest) b.bytes := by
  rw [engine.checksum_eq_bytewise]
  exact combine_update digest (UInt64.toNat_ofNat_of_lt' h)

theorem normalize_initial : normalize initial = initial := by
  decide

/-- The checksums of two strings combine to that of the two in a row. -/
theorem combine_checksums (a b : Buffer) (h : b.size < 2 ^ 64) :
    combine (engine.checksum a) (engine.checksum b) (UInt64.ofNat b.size) =
      Bytewise.update initial (a.bytes ++ b.bytes) := by
  rw [combine_checksum engine _ b h, engine.checksum_eq_bytewise,
    Bytewise.update_normalize_append, normalize_initial]

def part (b : Buffer) : UInt32 × UInt64 := (engine.checksum b, UInt64.ofNat b.size)

/-- The checksum of a prefix, combined with that of the part up to `offset`, is the
checksum of the prefix up to `offset`. -/
theorem combine_take (b : Buffer) (h : b.size < 2 ^ 64) {start offset : Nat}
    (hle : start ≤ offset) :
    let piece := (b.drop start).take (offset - start)
    combine (engine.checksum (b.take start)) (engine.checksum piece) (UInt64.ofNat piece.size) =
      engine.checksum (b.take offset) := by
  intro piece
  have hsize : piece.size < 2 ^ 64 := by
    rw [Buffer.size_take, Buffer.size_drop]
    omega
  have hbytes : (b.take start).bytes ++ piece.bytes = (b.take offset).bytes := by
    rw [Buffer.bytes_take, Buffer.bytes_take, Buffer.bytes_drop, Buffer.bytes_take,
      ← List.take_add, Nat.add_sub_cancel' hle]
  rw [combine_checksums engine _ _ hsize, hbytes, engine.checksum_eq_bytewise]

/-- The checksum of a prefix, combined with that of the rest, is the checksum of the whole. -/
theorem combine_take_drop (b : Buffer) (h : b.size < 2 ^ 64) (start : Nat) :
    combine (engine.checksum (b.take start)) (engine.checksum (b.drop start))
      (UInt64.ofNat (b.drop start).size) = engine.checksum (b.take b.size) := by
  have hsize : (b.drop start).size < 2 ^ 64 := by
    rw [Buffer.size_drop]
    omega
  have hbytes : (b.take start).bytes ++ (b.drop start).bytes = (b.take b.size).bytes := by
    rw [Buffer.bytes_take, Buffer.bytes_drop, Buffer.bytes_take, List.take_append_drop]
    exact (List.take_length ..).symm
  rw [combine_checksums engine _ _ hsize, hbytes, engine.checksum_eq_bytewise]

/-- With the prefix up to `start` consumed, the parts that follow keep the chain at the
checksum of what has been consumed. -/
theorem combineChain_cutAt (b : Buffer) (h : b.size < 2 ^ 64) (start : Nat) (splits : List Nat)
    (hsorted : (start :: splits).Pairwise (· ≤ ·)) :
    combineChain (engine.checksum (b.take start))
        (((b.drop start).cutAt start splits).map (part engine)) =
      (splits ++ [b.size]).map fun n => engine.checksum (b.take n) := by
  -- On the offsets, with the prefix up to the last offset consumed.
  induction splits generalizing start with
  | nil => exact congrArg (fun digest => [digest]) (combine_take_drop engine b h start)
  | cons offset rest ih =>
    obtain ⟨hstart, hrest⟩ := List.pairwise_cons.mp hsorted
    have hle := hstart offset (List.mem_cons_self ..)
    rw [Buffer.cutAt, Buffer.drop_drop, Nat.add_sub_cancel' hle, List.map_cons, List.cons_append,
      List.map_cons, ← ih offset hrest, ← combine_take engine b h hle]
    rfl

end Engine

/-- **Combining is concatenation.** A state combined with the checksum of a string is
the state brought up to date with the string, or the reduced state if there is nothing
in it. So checksums combine as strings append, and a chain of parts cut at ascending
offsets holds the checksum of the consumed prefix after every part. -/
theorem combine_is_concatenation (engine : Engine) (b : Buffer) (h : b.size < 2 ^ 64) :
    (∀ digest, combine digest (engine.checksum b) (UInt64.ofNat b.size) =
        if b.bytes = [] then normalize digest else engine.update digest b) ∧
      (∀ (a : Buffer) (address : Nat),
        combine (engine.checksum a) (engine.checksum b) (UInt64.ofNat b.size) =
          engine.checksum ⟨a.bytes ++ b.bytes, address⟩) ∧
      ∀ splits : List Nat, splits.Pairwise (· ≤ ·) →
        combineChain (engine.checksum (b.take 0)) ((b.cutAt 0 splits).map (part engine)) =
          (splits ++ [b.size]).map fun n => engine.checksum (b.take n) := by
  refine ⟨fun digest => ?_, fun a address => ?_, fun splits hsorted => ?_⟩
  · rw [combine_checksum engine digest b h]
    split
    · next hb => rw [hb, Bytewise.update_nil]
    · next hb => rw [Bytewise.update_normalize digest hb, engine.update_eq_bytewise]
  · rw [combine_checksums engine a b h, engine.checksum_eq_bytewise]
  · have hzero : (0 :: splits).Pairwise (· ≤ ·) :=
      List.pairwise_cons.mpr ⟨fun n _ => Nat.zero_le n, hsorted⟩
    exact combineChain_cutAt engine b h 0 splits hzero

/-- Seventy bytes on the 128-bit kernel: onto sums that are not reduced, onto themselves,
and in parts of which the first and the third are empty. -/
theorem combine_seventy_bytes :
    let engine : Engine := ⟨64, .vector .sse2⟩
    let b : Buffer := ⟨List.replicate 70 0xFF, 3⟩
    b.size < 2 ^ 64 ∧ [0, 65, 65].Pairwise (· ≤ ·) ∧
      combine 0xFFFFFFFF (engine.checksum b) 70 = 2947827144 ∧
      combine (engine.checksum b) (engine.checksum b) 70 = 1782090613 ∧
      combineChain (engine.checksum (b.take 0)) ((b.cutAt 0 [0, 65, 65]).map (part engine)) =
        [engine.checksum (b.take 0), engine.checksum (b.take 65), engine.checksum (b.take 65),
          engine.checksum (b.take 70)] := by
  intro engine b
  have hsize : b.size < 2 ^ 64 := by decide
  have hsorted : [0, 65, 65].Pairwise (· ≤ ·) := by decide
  obtain ⟨hstate, hstring, hchain⟩ := combine_is_concatenation engine b hsize
  refine ⟨hsize, hsorted, ?_, ?_, hchain [0, 65, 65] hsorted⟩
  · refine (hstate 0xFFFFFFFF).trans ?_
    rw [if_neg (by decide), engine.update_eq_bytewise]
    decide +kernel
  · refine (hstring b 0).trans ?_
    rw [engine.checksum_eq_bytewise]
    decide +kernel

end AdaptiveAdler
