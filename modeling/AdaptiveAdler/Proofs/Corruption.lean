import AdaptiveAdler.Proofs.Agreement

/-! Small corruptions show.

A byte string that is changed without changing its length changes the two sums by the
changes of its bytes, those of the weighted sum each counted by its distance to the end
(`byteSum_sub`, `weightedSum_sub`). The checksum stays the same just if the modulus divides
both differences (`update_eq_update_iff`). The change of a single byte is too small for
that; and since the modulus is prime, two changes go unnoticed only if they are opposite
and a multiple of the modulus apart (`dvd_changes_iff`). -/
namespace AdaptiveAdler

/-- The positions at which two byte strings of the same length differ. -/
def differences (a b : List UInt8) : Finset Nat :=
  (Finset.range a.length).filter fun k => a.getD k 0 ≠ b.getD k 0

/-- By how much the byte at a position changes from one string to the other. -/
def change (a b : List UInt8) (k : Nat) : Int := (b.getD k 0).toNat - (a.getD k 0).toNat

/-- A byte string with the bytes at two positions exchanged. -/
def exchange (bytes : List UInt8) (i j : Nat) : List UInt8 :=
  (bytes.set i (bytes.getD j 0)).set j (bytes.getD i 0)

section Change
variable {a b : List UInt8} {i j k : Nat}

theorem mem_differences : k ∈ differences a b ↔ k < a.length ∧ a.getD k 0 ≠ b.getD k 0 := by
  rw [differences, Finset.mem_filter, Finset.mem_range]

theorem change_eq_zero_iff : change a b k = 0 ↔ a.getD k 0 = b.getD k 0 := by
  rw [change, sub_eq_zero, Nat.cast_inj, UInt8.toNat_inj, eq_comm]

theorem change_ne_zero (h : k ∈ differences a b) : change a b k ≠ 0 :=
  mt change_eq_zero_iff.mp (mem_differences.mp h).2

theorem change_bounds (a b : List UInt8) (k : Nat) : -256 < change a b k ∧ change a b k < 256 := by
  have ha := (a.getD k 0).toNat_lt
  have hb := (b.getD k 0).toNat_lt
  rw [change]
  omega

/-- Sums of changes are sums over the positions that differ. -/
theorem sum_change (f : Nat → Int) :
    ∑ k ∈ differences a b, f k * change a b k =
      ∑ k ∈ Finset.range a.length, f k * change a b k := by
  apply Finset.sum_subset (Finset.filter_subset _ _)
  intro k hk hsame
  have hzero : change a b k = 0 := by
    by_contra hne
    exact hsame (mem_differences.mpr ⟨Finset.mem_range.mp hk, mt change_eq_zero_iff.mpr hne⟩)
  rw [hzero, mul_zero]

/-! ### Exchanged bytes -/

theorem length_exchange (bytes : List UInt8) (i j : Nat) :
    (exchange bytes i j).length = bytes.length := by
  rw [exchange, List.length_set, List.length_set]

theorem getD_exchange (hi : i < a.length) (hj : j < a.length) (k : Nat) :
    (exchange a i j).getD k 0 =
      if k = j then a.getD i 0 else if k = i then a.getD j 0 else a.getD k 0 := by
  grind [exchange]

theorem differences_exchange (hi : i < a.length) (hj : j < a.length)
    (hne : a.getD i 0 ≠ a.getD j 0) : differences a (exchange a i j) = {i, j} := by
  ext k
  rw [mem_differences, getD_exchange hi hj, Finset.mem_insert, Finset.mem_singleton]
  by_cases hkj : k = j
  · rw [if_pos hkj, hkj]
    exact ⟨fun _ => .inr rfl, fun _ => ⟨hj, hne.symm⟩⟩
  · by_cases hki : k = i
    · rw [if_neg hkj, if_pos hki, hki]
      exact ⟨fun _ => .inl rfl, fun _ => ⟨hi, hne⟩⟩
    · rw [if_neg hkj, if_neg hki]
      simp [hki, hkj]

end Change

/-! ### The change of the sums -/

section Sums
variable {a b : List UInt8} (h : a.length = b.length)

theorem byteSum_eq_sum_range (bytes : List UInt8) :
    byteSum bytes = ∑ k ∈ Finset.range bytes.length, (bytes.getD k 0).toNat := by
  rw [byteSum_eq_sum, Finset.sum_range]
  simp

theorem weightedSum_eq_sum_range (bytes : List UInt8) :
    weightedSum bytes =
      ∑ k ∈ Finset.range bytes.length, (bytes.length - k) * (bytes.getD k 0).toNat := by
  rw [weightedSum_eq_sum, Finset.sum_range]
  simp

include h

theorem byteSum_sub :
    (byteSum b - byteSum a : Int) = ∑ k ∈ differences a b, change a b k := by
  have hsum := sum_change (a := a) (b := b) fun _ => 1
  simp only [one_mul] at hsum
  rw [byteSum_eq_sum_range, byteSum_eq_sum_range, ← h, hsum, Nat.cast_sum, Nat.cast_sum,
    ← Finset.sum_sub_distrib]
  rfl

theorem weightedSum_sub :
    (weightedSum b - weightedSum a : Int) =
      ∑ k ∈ differences a b, ((a.length - k : Nat) : Int) * change a b k := by
  rw [weightedSum_eq_sum_range, weightedSum_eq_sum_range, ← h, sum_change, Nat.cast_sum,
    Nat.cast_sum, ← Finset.sum_sub_distrib]
  refine Finset.sum_congr rfl fun k _ => ?_
  rw [change, mul_sub, Nat.cast_mul, Nat.cast_mul]

end Sums

/-! ### Checksums that stay the same -/

theorem natCast_eq_iff_dvd_sub (x y : Nat) :
    (x : ZMod 65521) = y ↔ (65521 : Int) ∣ (y : Int) - x := by
  rw [← Int.cast_natCast x, ← Int.cast_natCast y, ZMod.intCast_eq_intCast_iff_dvd_sub]
  rfl

/-- From any state, two strings of the same length have the same checksum just if the modulus
divides the differences of both sums. -/
theorem Bytewise.update_eq_update_iff (digest : UInt32) {a b : List UInt8}
    (h : a.length = b.length) (hne : a ≠ []) :
    update digest a = update digest b ↔
      (65521 : Int) ∣ byteSum b - byteSum a ∧ (65521 : Int) ∣ weightedSum b - weightedSum a := by
  have hne' : b ≠ [] := by
    rw [← List.length_pos_iff, ← h]
    exact List.length_pos_iff.mpr hne
  have ha := reaches_run hne (Sums.narrow_unpack digest)
  have hb := reaches_run hne' (Sums.narrow_unpack digest)
  have hresidues : update digest a = update digest b ↔
      (run (Sums.unpack digest) a).residues = (run (Sums.unpack digest) b).residues := by
    rw [← Sums.unpack_injective.eq_iff, unpack_update, unpack_update]
    exact ⟨congrArg Sums.residues, ha.reduced.eq_of_residues hb.reduced⟩
  rw [hresidues, ha.residues, hb.residues, Totals.advance, Totals.advance, Totals.mk.injEq, h,
    add_right_inj, add_right_inj, natCast_eq_iff_dvd_sub, natCast_eq_iff_dvd_sub]

section Positions
variable {a b : List UInt8} {i j : Nat} (h : a.length = b.length)
include h

/-- One change is not a multiple of the modulus. -/
theorem not_dvd_byteSum_sub (hd : differences a b = {i}) :
    ¬ (65521 : Int) ∣ byteSum b - byteSum a := by
  have hi : i ∈ differences a b := by
    rw [hd]
    exact Finset.mem_singleton_self i
  have hne := change_ne_zero hi
  have hbounds := change_bounds a b i
  rw [byteSum_sub h, hd, Finset.sum_singleton]
  omega

/-- Two changes leave both sums as they are, up to the modulus, just if they are opposite and
a multiple of the modulus apart. -/
theorem dvd_changes_iff (hlt : i < j) (hd : differences a b = {i, j}) :
    (65521 : Int) ∣ byteSum b - byteSum a ∧ (65521 : Int) ∣ weightedSum b - weightedSum a ↔
      change a b j = -change a b i ∧ 65521 ∣ j - i := by
  have hi : i ∈ differences a b := by
    rw [hd]
    exact Finset.mem_insert_self ..
  have hj : j ∈ differences a b := by
    rw [hd]
    exact Finset.mem_insert_of_mem (Finset.mem_singleton_self j)
  have hboundsi := change_bounds a b i
  have hboundsj := change_bounds a b j
  have hplain : (65521 : Int) ∣ byteSum b - byteSum a ↔ change a b j = -change a b i := by
    rw [byteSum_sub h, hd, Finset.sum_pair (Nat.ne_of_lt hlt)]
    omega
  rw [hplain]
  refine and_congr_right fun hopposite => ?_
  have hweighted : (weightedSum b - weightedSum a : Int) = ((j - i : Nat) : Int) * change a b i := by
    have hin := (mem_differences.mp hi).1
    have hjn := (mem_differences.mp hj).1
    rw [weightedSum_sub h, hd, Finset.sum_pair (Nat.ne_of_lt hlt), hopposite,
      Nat.cast_sub (Nat.le_of_lt hin), Nat.cast_sub (Nat.le_of_lt hjn),
      Nat.cast_sub (Nat.le_of_lt hlt)]
    ring
  have hprime : Prime (65521 : Int) := Nat.prime_iff_prime_int.mp (by norm_num)
  have hchange : ¬ (65521 : Int) ∣ change a b i := by
    have hne := change_ne_zero hi
    omega
  rw [hweighted, hprime.dvd_mul, or_iff_left hchange]
  exact Int.natCast_dvd_natCast

end Positions

section Engines
variable (sender receiver : Engine) (digest : UInt32) {a b : Buffer} (h : a.size = b.size)
  {i j : Nat}
include h

/-- Two strings that differ, summed by two engines. -/
theorem update_eq_update_iff (hne : (differences a.bytes b.bytes).Nonempty) :
    sender.update digest a = receiver.update digest b ↔
      (65521 : Int) ∣ byteSum b.bytes - byteSum a.bytes ∧
        (65521 : Int) ∣ weightedSum b.bytes - weightedSum a.bytes := by
  have hbytes : a.bytes ≠ [] := by
    obtain ⟨k, hk⟩ := hne
    exact List.ne_nil_of_length_pos (Nat.zero_lt_of_lt (mem_differences.mp hk).1)
  rw [sender.update_eq_bytewise, receiver.update_eq_bytewise]
  exact Bytewise.update_eq_update_iff digest h hbytes

theorem update_ne_of_one_change (hd : differences a.bytes b.bytes = {i}) :
    sender.update digest a ≠ receiver.update digest b := by
  have hne : (differences a.bytes b.bytes).Nonempty := by
    rw [hd]
    exact Finset.singleton_nonempty i
  rw [ne_eq, update_eq_update_iff sender receiver digest h hne]
  exact fun hboth => not_dvd_byteSum_sub h hd hboth.1

theorem update_eq_iff_of_two_changes (hlt : i < j) (hd : differences a.bytes b.bytes = {i, j}) :
    sender.update digest a = receiver.update digest b ↔
      change a.bytes b.bytes j = -change a.bytes b.bytes i ∧ 65521 ∣ j - i := by
  have hne : (differences a.bytes b.bytes).Nonempty := by
    rw [hd]
    exact Finset.insert_nonempty ..
  rw [update_eq_update_iff sender receiver digest h hne]
  exact dvd_changes_iff h hlt hd

end Engines

/-- **Small corruptions show**, from any state and whichever engines sum the two strings. If
one byte is changed, the checksum changes. If two are, it stays the same just if the
changes are opposite and a multiple of the modulus apart; so it changes whenever two
unequal bytes less than the modulus apart are exchanged. -/
theorem small_corruptions_show (sender receiver : Engine) (digest : UInt32) (a b : Buffer)
    (h : a.size = b.size) :
    (∀ i, differences a.bytes b.bytes = {i} →
        sender.update digest a ≠ receiver.update digest b) ∧
      (∀ i j, i < j → differences a.bytes b.bytes = {i, j} →
        (sender.update digest a = receiver.update digest b ↔
          change a.bytes b.bytes j = -change a.bytes b.bytes i ∧ 65521 ∣ j - i)) ∧
      ∀ i j address, i < j → j < a.size → a.bytes.getD i 0 ≠ a.bytes.getD j 0 → j - i < 65521 →
        sender.update digest a ≠ receiver.update digest ⟨exchange a.bytes i j, address⟩ := by
  refine ⟨fun i => update_ne_of_one_change sender receiver digest h,
    fun i j => update_eq_iff_of_two_changes sender receiver digest h, ?_⟩
  intro i j address hlt hj hne hnear hsame
  have hlength : a.size = Buffer.size ⟨exchange a.bytes i j, address⟩ :=
    (length_exchange a.bytes i j).symm
  have hd := differences_exchange (hlt.trans hj) hj hne
  have hdvd := ((update_eq_iff_of_two_changes sender receiver digest hlength hlt hd).mp hsame).2
  exact Nat.not_le.mpr hnear (Nat.le_of_dvd (Nat.sub_pos_of_lt hlt) hdvd)

/-- A byte of a short string changed, and two of its bytes exchanged; and a long string in
which the first and the last byte are exchanged, which does not show. -/
theorem corruptions_of_short_and_long_strings :
    let sender : Engine := ⟨64, .vector .avx2⟩
    let receiver : Engine := ⟨0, .portable⟩
    let short : Buffer := ⟨[0x63, 0x61, 0x74], 5⟩
    let long : Buffer := ⟨1 :: List.replicate 65521 0, 5⟩
    sender.update 0xFFFFFFFF short ≠ receiver.update 0xFFFFFFFF ⟨[0x63, 0x61, 0x73], 0⟩ ∧
      sender.update 0xFFFFFFFF short ≠ receiver.update 0xFFFFFFFF ⟨exchange short.bytes 0 2, 0⟩ ∧
      sender.update 0xFFFFFFFF long = receiver.update 0xFFFFFFFF ⟨exchange long.bytes 0 65521, 0⟩ := by
  intro sender receiver short long
  obtain ⟨hone, -, hexchanged⟩ :=
    small_corruptions_show sender receiver 0xFFFFFFFF short ⟨[0x63, 0x61, 0x73], 0⟩ rfl
  refine ⟨hone 2 (by decide), hexchanged 0 2 0 (by decide) (by decide) (by decide) (by decide), ?_⟩
  -- The modulus is the distance between the two positions.
  have hlength : long.bytes.length = 65522 := by
    rw [List.length_cons, List.length_replicate]
  have hfirst : long.bytes.getD 0 0 = 1 := rfl
  have hlast : long.bytes.getD 65521 0 = 0 := by
    rw [List.getD_cons_succ]
    exact List.getD_replicate 0 (by decide)
  have hne : long.bytes.getD 0 0 ≠ long.bytes.getD 65521 0 := by
    rw [hfirst, hlast]
    decide
  have hi : 0 < long.bytes.length := by omega
  have hj : 65521 < long.bytes.length := by omega
  have hsize : long.size = Buffer.size ⟨exchange long.bytes 0 65521, 0⟩ :=
    (length_exchange long.bytes 0 65521).symm
  obtain ⟨-, htwo, -⟩ := small_corruptions_show sender receiver 0xFFFFFFFF long
    ⟨exchange long.bytes 0 65521, 0⟩ hsize
  rw [htwo 0 65521 (by decide) (differences_exchange hi hj hne)]
  refine ⟨?_, by decide⟩
  rw [change, change, getD_exchange hi hj, getD_exchange hi hj, if_pos rfl, if_neg (by decide),
    if_pos rfl, hfirst, hlast]
  rfl

end AdaptiveAdler
