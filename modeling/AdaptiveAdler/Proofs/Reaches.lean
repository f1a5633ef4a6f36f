import AdaptiveAdler.Proofs.Totals
import AdaptiveAdler.Proofs.Words
import Mathlib.Data.ZMod.Basic

/-! Where a byte string leads.

The words of a pair of sums stand for natural numbers (`exact`) and for residues
modulo 65521 (`residues`). Absorbing bytes is exact until a word wraps, and from
sums of 16 bits `deferralLimit` bytes never make one wrap (`fits_of_narrow`), so a
reduction after at most so many bytes loses nothing.

`Reaches` says it without words: from one pair of sums a byte string leads to
another, reduced one. It composes along concatenation (`Reaches.trans`), and where
a byte string leads is unique (`Reaches.unique`), so two ways of summing that both
reach their result agree. -/
namespace AdaptiveAdler

@[simp] theorem toNat_modulus : modulus.toNat = 65521 := rfl

def Totals.Fits (t : Totals Nat) : Prop := t.plain < 2 ^ 32 ∧ t.weighted < 2 ^ 32

/-- Two packed checksums whose halves, low and high, agree modulo 65521. -/
def SameResidues (a b : UInt32) : Prop :=
  a.toNat % 2 ^ 16 % 65521 = b.toNat % 2 ^ 16 % 65521 ∧
    a.toNat / 2 ^ 16 % 65521 = b.toNat / 2 ^ 16 % 65521

namespace Sums

/-! ### Halves of a word -/

/-- Both sums fit in half a word, as those of a packed checksum do, reduced or not. -/
def Narrow (s : Sums) : Prop := s.plain.toNat < 2 ^ 16 ∧ s.weighted.toNat < 2 ^ 16

theorem reduced_iff {s : Sums} :
    s.Reduced ↔ s.plain.toNat < 65521 ∧ s.weighted.toNat < 65521 := by
  rw [Reduced, UInt32.lt_iff_toNat_lt, UInt32.lt_iff_toNat_lt, toNat_modulus]

theorem Reduced.narrow {s : Sums} (h : s.Reduced) : s.Narrow := by
  obtain ⟨hp, hw⟩ := reduced_iff.mp h
  constructor <;> omega

theorem toNat_unpack_plain (digest : UInt32) :
    (unpack digest).plain.toNat = digest.toNat % 2 ^ 16 := by
  rw [unpack, UInt32.toNat_and]
  exact Nat.and_two_pow_sub_one_eq_mod _ 16

theorem toNat_unpack_weighted (digest : UInt32) :
    (unpack digest).weighted.toNat = digest.toNat / 2 ^ 16 := by
  rw [unpack, UInt32.toNat_shiftRight]
  exact Nat.shiftRight_eq_div_pow _ 16

theorem narrow_unpack (digest : UInt32) : (unpack digest).Narrow := by
  have h := digest.toNat_lt
  rw [Narrow, toNat_unpack_plain, toNat_unpack_weighted]
  omega

theorem toNat_pack {s : Sums} (h : s.Narrow) :
    s.pack.toNat = s.weighted.toNat * 2 ^ 16 + s.plain.toNat := by
  obtain ⟨hp, hw⟩ := h
  have hroom : s.weighted.toNat * 2 ^ 16 < 2 ^ 32 := by omega
  exact toNat_shiftLeft_or (by decide) hroom hp

theorem eq_of_toNat {s t : Sums} (hp : s.plain.toNat = t.plain.toNat)
    (hw : s.weighted.toNat = t.weighted.toNat) : s = t := by
  obtain ⟨sp, sw⟩ := s
  obtain ⟨tp, tw⟩ := t
  rw [mk.injEq]
  exact ⟨UInt32.toNat_inj.mp hp, UInt32.toNat_inj.mp hw⟩

theorem unpack_pack {s : Sums} (h : s.Narrow) : unpack s.pack = s := by
  have hpack := toNat_pack h
  obtain ⟨hp, hw⟩ := h
  apply eq_of_toNat
  · rw [toNat_unpack_plain]
    omega
  · rw [toNat_unpack_weighted]
    omega

theorem pack_unpack (digest : UInt32) : (unpack digest).pack = digest := by
  apply UInt32.toNat_inj.mp
  rw [toNat_pack (narrow_unpack digest), toNat_unpack_plain, toNat_unpack_weighted]
  omega

theorem unpack_injective : Function.Injective unpack :=
  Function.LeftInverse.injective pack_unpack

/-! ### Numbers and residues -/

/-- The numbers that the words stand for. -/
def exact (s : Sums) : Totals Nat := ⟨s.plain.toNat, s.weighted.toNat⟩

def residues (s : Sums) : Totals (ZMod 65521) := s.exact.map (Nat.castRingHom _)

theorem reduced_reduce (s : Sums) : s.reduce.Reduced := by
  rw [reduced_iff, reduce, UInt32.toNat_mod, UInt32.toNat_mod]
  exact ⟨Nat.mod_lt _ (by decide), Nat.mod_lt _ (by decide)⟩

theorem residues_reduce (s : Sums) : s.reduce.residues = s.residues := by
  simp only [residues, exact, reduce, Totals.map, UInt32.toNat_mod, toNat_modulus, eq_natCast,
    ZMod.natCast_mod]

/-- A number below the modulus is the remainder of every number with its residue. -/
theorem eq_mod_of_natCast_eq {x y : Nat} (hx : x < 65521) (h : (x : ZMod 65521) = y) :
    x = y % 65521 := by
  rwa [ZMod.natCast_eq_natCast_iff', Nat.mod_eq_of_lt hx] at h

theorem Reduced.eq_of_residues {s t : Sums} (hs : s.Reduced) (ht : t.Reduced)
    (h : s.residues = t.residues) : s = t := by
  obtain ⟨hsp, hsw⟩ := reduced_iff.mp hs
  obtain ⟨htp, htw⟩ := reduced_iff.mp ht
  have hplain := eq_mod_of_natCast_eq hsp (congrArg Totals.plain h)
  have hweighted := eq_mod_of_natCast_eq hsw (congrArg Totals.weighted h)
  exact eq_of_toNat (hplain.trans (Nat.mod_eq_of_lt htp))
    (hweighted.trans (Nat.mod_eq_of_lt htw))

theorem residues_unpack_eq_iff {a b : UInt32} :
    (unpack a).residues = (unpack b).residues ↔ SameResidues a b := by
  simp only [residues, exact, Totals.map, Totals.mk.injEq, eq_natCast,
    ZMod.natCast_eq_natCast_iff', toNat_unpack_plain, toNat_unpack_weighted, SameResidues]

/-! ### Words that do not wrap -/

section Words
open scoped UInt32.CommRing

theorem absorbAll_eq (s : Sums) (bytes : List UInt8) :
    s.absorbAll bytes = ⟨s.plain + UInt32.ofNat (byteSum bytes),
      s.weighted + s.plain * UInt32.ofNat bytes.length + UInt32.ofNat (weightedSum bytes)⟩ := by
  induction bytes generalizing s with
  | nil =>
    show s = ⟨s.plain + 0, s.weighted + s.plain * 0 + 0⟩
    simp
  | cons b rest ih =>
    show (s.absorb b).absorbAll rest = _
    rw [ih, absorb, byteSum_cons, weightedSum_cons, List.length_cons, mk.injEq]
    simp only [UInt32.ofNat_add, UInt32.ofNat_mul, UInt32.ofNat_uInt8ToNat]
    constructor
    · ring
    · show _ = s.weighted + s.plain * (_ + 1) + ((_ + 1) * _ + _)
      ring

end Words

theorem absorbAll_eq_ofNat (s : Sums) (bytes : List UInt8) :
    s.absorbAll bytes = ⟨UInt32.ofNat (s.exact.advance bytes).plain,
      UInt32.ofNat (s.exact.advance bytes).weighted⟩ := by
  rw [absorbAll_eq]
  simp only [exact, Totals.advance, Nat.cast_id, UInt32.ofNat_add, UInt32.ofNat_mul,
    UInt32.ofNat_toNat, UInt32.mul_comm]

/-- As long as nothing wraps, the words stand for the exact sums. -/
theorem exact_absorbAll {s : Sums} {bytes : List UInt8} (h : (s.exact.advance bytes).Fits) :
    (s.absorbAll bytes).exact = s.exact.advance bytes := by
  rw [absorbAll_eq_ofNat, exact, UInt32.toNat_ofNat_of_lt' h.1, UInt32.toNat_ofNat_of_lt' h.2]

/-- From half a word, nothing wraps within the deferral limit. -/
theorem fits_of_narrow {s : Sums} {bytes : List UInt8} (h : s.Narrow)
    (hlen : bytes.length ≤ deferralLimit) : (s.exact.advance bytes).Fits := by
  obtain ⟨hp, hw⟩ := h
  have hplain := byteSum_le bytes
  have hweighted := weightedSum_le bytes
  have hsquare : bytes.length * (bytes.length + 1) ≤ 5552 * 5553 :=
    Nat.mul_le_mul hlen (Nat.succ_le_succ hlen)
  have hcarried : bytes.length * s.plain.toNat ≤ 5552 * 65535 :=
    Nat.mul_le_mul hlen (Nat.le_of_lt_succ hp)
  unfold deferralLimit at hlen
  -- At worst 255 * (5552 * 5553 / 2) + 5552 * 65535 + 65535, which is below 2^32.
  constructor
  · show s.plain.toNat + byteSum bytes < 2 ^ 32
    omega
  · show s.weighted.toNat + bytes.length * s.plain.toNat + weightedSum bytes < 2 ^ 32
    omega

/-! ### Reaching -/

/-- From `s`, the bytes lead to `t`: `t` is reduced, and its residues are those of `s`
after the bytes. -/
structure Reaches (s : Sums) (bytes : List UInt8) (t : Sums) : Prop where
  reduced : t.Reduced
  residues : t.residues = s.residues.advance bytes

/-- A first part matters by its residues only. -/
theorem Reaches.after {s t u : Sums} {a b : List UInt8} (hs : t.residues = s.residues.advance a)
    (ht : t.Reaches b u) : s.Reaches (a ++ b) u :=
  ⟨ht.reduced, by rw [ht.residues, hs, Totals.advance_append]⟩

theorem Reaches.trans {s t u : Sums} {a b : List UInt8} (hs : s.Reaches a t) (ht : t.Reaches b u) :
    s.Reaches (a ++ b) u :=
  ht.after hs.residues

theorem Reaches.unique {s t u : Sums} {bytes : List UInt8} (ht : s.Reaches bytes t)
    (hu : s.Reaches bytes u) : t = u :=
  ht.reduced.eq_of_residues hu.reduced (by rw [ht.residues, hu.residues])

/-- Where bytes lead, in numbers: to the remainders of the exact sums. -/
theorem Reaches.exact {s t : Sums} {bytes : List UInt8} (h : s.Reaches bytes t) :
    t.exact = ⟨(s.exact.advance bytes).plain % 65521, (s.exact.advance bytes).weighted % 65521⟩ := by
  obtain ⟨hp, hw⟩ := reduced_iff.mp h.reduced
  have hresidues : t.residues = (s.exact.advance bytes).map (Nat.castRingHom _) := by
    rw [Totals.map_advance]
    exact h.residues
  rw [Sums.exact, Totals.mk.injEq]
  exact ⟨eq_mod_of_natCast_eq hp (congrArg Totals.plain hresidues),
    eq_mod_of_natCast_eq hw (congrArg Totals.weighted hresidues)⟩

/-- No bytes lead to the same sums, reduced. -/
theorem reaches_reduce (s : Sums) : s.Reaches [] s.reduce :=
  ⟨reduced_reduce s, by rw [residues_reduce, Totals.advance_nil]⟩

/-- Reduced sums are where no bytes lead. -/
theorem Reduced.reaches_self {s : Sums} (h : s.Reduced) : s.Reaches [] s :=
  ⟨h, (Totals.advance_nil _).symm⟩

/-- Up to the deferral limit, one reduction at the end is enough. -/
theorem reaches_absorbAll {s : Sums} {bytes : List UInt8} (h : s.Narrow)
    (hlen : bytes.length ≤ deferralLimit) : s.Reaches bytes (s.absorbAll bytes).reduce := by
  refine ⟨reduced_reduce _, ?_⟩
  rw [residues_reduce, residues, exact_absorbAll (fits_of_narrow h hlen), Totals.map_advance,
    residues]

section Fold
variable {α : Type} {f : Sums → α → Sums} (held : α → List UInt8)

/-- A fold whose steps each lead along the bytes of their item leads along all of them. -/
theorem Reaches.foldl {s t : Sums} {before : List UInt8} (items : List α)
    (hf : ∀ (s : Sums) (x : α), s.Narrow → x ∈ items → s.Reaches (held x) (f s x))
    (h : s.Reaches before t) : s.Reaches (before ++ items.flatMap held) (items.foldl f t) := by
  induction items generalizing before t with
  | nil => rwa [List.flatMap_nil, List.append_nil]
  | cons x rest ih =>
    -- What has been reached is reduced, so the next step starts from 16 bits.
    have hx := hf t x h.reduced.narrow (List.mem_cons_self ..)
    rw [List.flatMap_cons, ← List.append_assoc]
    exact ih (fun s y hs hy => hf s y hs (List.mem_cons_of_mem x hy)) (h.trans hx)

/-- The same from sums that need not be reduced, as long as there is an item. -/
theorem reaches_foldl {s : Sums} {items : List α} (hne : items ≠ [])
    (hf : ∀ (s : Sums) (x : α), s.Narrow → x ∈ items → s.Reaches (held x) (f s x))
    (h : s.Narrow) : s.Reaches (items.flatMap held) (items.foldl f s) := by
  cases items with
  | nil => exact absurd rfl hne
  | cons x rest =>
    have hx := hf s x h (List.mem_cons_self ..)
    exact Reaches.foldl held rest (fun s y hs hy => hf s y hs (List.mem_cons_of_mem x hy)) hx

end Fold

end Sums
end AdaptiveAdler
