import AdaptiveAdler.Proofs.Chunked
import AdaptiveAdler.Proofs.Columns
import AdaptiveAdler.Proofs.Detection
import AdaptiveAdler.Session.Step

/-! Each lane of the wider kernels is a small checksum.

A lane of a column sees one byte of each segment. The plain lane adds it, and the weighted lane
gathers the plain lane as it was before: together, once the plain lane is added for the last
segment, they are the running sums of the bytes at one offset (`Column.sums_step`). A chunk has
so few segments that neither lane wraps, nor does the plain lane multiplied by its weight
(`HoldsExactly`). The totals of the lanes are then the two sums of the chunk, for eight lanes and
for sixteen (`columns_add_weighted_sums`). -/
namespace AdaptiveAdler.Columns

/-- The bytes at one offset of the segments, those of the first segment in front. -/
def columnBytes {m : Nat} (rows : List (Vector UInt8 m)) (p : Fin m) : List UInt8 :=
  rows.map fun row => row.get p

/-! ### Lanes of a column -/

namespace Column
variable {n m : Nat}

/-- The running sums of one lane. The weighted lane gathers the plain lane a segment late, so the
plain lane as it is now is still to be added. -/
def sums (c : Column n) (i : Fin n) : Sums := ⟨c.plain.get i, c.weighted.get i + c.plain.get i⟩

theorem sums_start (i : Fin n) : (start : Column n).sums i = ⟨0, 0⟩ := by
  simp [sums, start, Vector.get_eq_getElem]

/-- One row more is one byte more in each lane. -/
theorem sums_step (c : Column n) {row : Lanes n} {i : Fin n} {b : UInt8}
    (h : row.get i = b.toUInt32) : (c.step row).sums i = (c.sums i).absorb b := by
  have hplain : (c.step row).plain.get i = c.plain.get i + b.toUInt32 := by
    rw [← h]
    exact Lanes.getElem_add c.plain row i.isLt
  have hweighted : (c.step row).weighted.get i = c.weighted.get i + c.plain.get i :=
    Lanes.getElem_add c.weighted c.plain i.isLt
  rw [sums, hplain, hweighted]
  rfl

/-- The lanes hold the running sums of the bytes from an offset of the segments on. -/
def Tracks (c : Column n) (rows : List (Vector UInt8 m)) (offset : Nat) : Prop :=
  ∀ (i : Fin n) (p : Fin m), p.val = offset + i →
    c.sums i = Sums.absorbAll ⟨0, 0⟩ (columnBytes rows p)

theorem tracks_start (offset : Nat) :
    (start : Column n).Tracks ([] : List (Vector UInt8 m)) offset :=
  fun i _ _ => sums_start i

theorem Tracks.step {c : Column n} {rows : List (Vector UInt8 m)} {offset : Nat}
    (h : c.Tracks rows offset) (fits : offset + n ≤ m) (row : Vector UInt8 m) :
    (c.step (Lanes.widen n offset fits row)).Tracks (rows ++ [row]) offset := by
  intro i p hp
  have hbyte : (Lanes.widen n offset fits row).get i = (row.get p).toUInt32 := by
    rw [Vector.get_eq_getElem, Lanes.getElem_widen, Vector.get_eq_getElem]
    simp only [hp]
  rw [sums_step c hbyte, h i p hp, columnBytes, columnBytes, List.map_append,
    Sums.absorbAll_append]
  rfl

/-- The lanes and their weighted bytes as numbers; the weights fall by one from `top`. -/
structure Holds (c : Column n) (rows : List (Vector UInt8 m)) (offset top : Nat) : Prop where
  plain : ∀ (i : Fin n) (p : Fin m), p.val = offset + i →
    (c.plain.get i).toNat = byteSum (columnBytes rows p)
  /-- A byte counts once for each segment after its own. -/
  weighted : ∀ (i : Fin n) (p : Fin m), p.val = offset + i →
    (c.weighted.get i).toNat + byteSum (columnBytes rows p) = weightedSum (columnBytes rows p)
  product : ∀ (i : Fin n) (p : Fin m), p.val = offset + i →
    byteSum (columnBytes rows p) * (top - i) < 2 ^ 31 ∧
      ((c.plain.mul (weights n top)).get i).toNat = byteSum (columnBytes rows p) * (top - i)

theorem byteSum_le_weightedSum (bytes : List UInt8) : byteSum bytes ≤ weightedSum bytes := by
  induction bytes with
  | nil => exact Nat.le_refl 0
  | cons b rest ih =>
    rw [byteSum_cons, weightedSum_cons]
    exact Nat.add_le_add (Nat.le_mul_of_pos_left _ (Nat.succ_pos _)) ih

/-- From nothing the sums of few bytes are exact. -/
theorem exact_absorbAll_zero {bytes : List UInt8} (hlen : bytes.length ≤ deferralLimit) :
    (Sums.absorbAll ⟨0, 0⟩ bytes).exact = ⟨byteSum bytes, weightedSum bytes⟩ := by
  have hzero : (Sums.mk 0 0).exact = ⟨0, 0⟩ := rfl
  have hnarrow : (Sums.mk 0 0).Narrow := ⟨by decide, by decide⟩
  rw [Sums.exact_absorbAll (Sums.fits_of_narrow hnarrow hlen), hzero]
  simp only [Totals.advance, Nat.cast_id, Nat.zero_add, Nat.mul_zero]

/-- A chunk has at most 173 segments, which is far from enough to fill a lane. -/
theorem Tracks.holds {c : Column n} {rows : List (Vector UInt8 m)} {offset top : Nat}
    (h : c.Tracks rows offset) (hlen : rows.length ≤ 173) (htop : top ≤ 64) :
    c.Holds rows offset top := by
  have hexact : ∀ (i : Fin n) (p : Fin m), p.val = offset + i →
      (c.plain.get i).toNat = byteSum (columnBytes rows p) ∧
        (c.weighted.get i + c.plain.get i).toNat = weightedSum (columnBytes rows p) := by
    intro i p hp
    have hbytes : (columnBytes rows p).length ≤ deferralLimit := by
      rw [columnBytes, List.length_map]
      exact hlen.trans (by decide)
    have hsums := exact_absorbAll_zero hbytes
    rw [← h i p hp, Sums.exact, Totals.mk.injEq] at hsums
    exact hsums
  refine ⟨fun i p hp => (hexact i p hp).1, fun i p hp => ?_, fun i p hp => ?_⟩
  · obtain ⟨hplain, hweighted⟩ := hexact i p hp
    have hle := byteSum_le_weightedSum (columnBytes rows p)
    have hlane := (c.weighted.get i).toNat_lt
    rw [UInt32.toNat_add, hplain] at hweighted
    omega
  · have hsum : byteSum (columnBytes rows p) ≤ 255 * 173 := by
      have hle := byteSum_le (columnBytes rows p)
      rw [columnBytes, List.length_map] at hle
      exact hle.trans (Nat.mul_le_mul_left 255 hlen)
    have hproduct : byteSum (columnBytes rows p) * (top - i) ≤ 255 * 173 * 64 :=
      Nat.mul_le_mul hsum ((Nat.sub_le ..).trans htop)
    have hlane : (c.plain.mul (weights n top)).get i =
        c.plain.get i * UInt32.ofNat (top - i) := by
      simp only [Vector.get_eq_getElem, Lanes.getElem_mul, getElem_weights]
    have hweight : (UInt32.ofNat (top - i)).toNat = top - i :=
      UInt32.toNat_ofNat_of_lt' (((Nat.sub_le ..).trans htop).trans_lt (by decide))
    rw [hlane, UInt32.toNat_mul, (hexact i p hp).1, hweight]
    omega

end Column

/-! ### Segments of a chunk -/

variable {n : Nat}

/-- All columns of a segment hold their sums exactly, each beside its own weights. -/
structure HoldsExactly (rows : List (Vector UInt8 (4 * n))) (s : State n) : Prop where
  first : s.first.Holds rows 0 (4 * n)
  second : s.second.Holds rows n (3 * n)
  third : s.third.Holds rows (2 * n) (2 * n)
  fourth : s.fourth.Holds rows (3 * n) n

theorem tracks_run (rows : List (Vector UInt8 (4 * n))) :
    (run start rows).first.Tracks rows 0 ∧ (run start rows).second.Tracks rows n ∧
      (run start rows).third.Tracks rows (2 * n) ∧ (run start rows).fourth.Tracks rows (3 * n) := by
  induction rows using List.reverseRecOn with
  | nil =>
    exact ⟨Column.tracks_start _, Column.tracks_start _, Column.tracks_start _,
      Column.tracks_start _⟩
  | append_singleton rows row ih =>
    have hstep : run start (rows ++ [row]) = step (run start rows) row := List.foldl_concat ..
    obtain ⟨hfirst, hsecond, hthird, hfourth⟩ := ih
    rw [hstep]
    exact ⟨hfirst.step _ row, hsecond.step _ row, hthird.step _ row, hfourth.step _ row⟩

theorem holdsExactly_run {rows : List (Vector UInt8 (4 * n))} (hlen : rows.length ≤ 173)
    (hwidth : 4 * n ≤ 64) : HoldsExactly rows (run start rows) := by
  obtain ⟨hfirst, hsecond, hthird, hfourth⟩ := tracks_run rows
  exact ⟨hfirst.holds hlen hwidth, hsecond.holds hlen (by omega), hthird.holds hlen (by omega),
    hfourth.holds hlen (by omega)⟩

/-- What a kernel of columns makes of a chunk. It adds the two sums of the chunk; after every
segment its lanes hold theirs; and onto the sums that a chunk is entered with it does what
absorbing the bytes one by one does. -/
structure SumsChunk (n : Nat) (kernel : Sums → List UInt8 → Sums) (s : Sums)
    (chunk : List UInt8) : Prop where
  adds : kernel s chunk =
    ⟨s.plain + UInt32.ofNat (∑ i : Fin chunk.length, (chunk.get i).toNat),
      s.weighted + UInt32.ofNat (∑ i : Fin chunk.length, (chunk.length - i) * (chunk.get i).toNat)⟩
  lanes : ∀ before after, segments (4 * n) chunk = before ++ after →
    HoldsExactly before (run start before)
  absorbs : kernel (ChunkKernel.entry s chunk.length) chunk = s.absorbAll chunk

theorem sumsChunk {shift : UInt32} {finish : Sums → Lanes n → Lanes n → Sums}
    (hshift : Lanes.Shifts shift (4 * n)) (hpositive : 0 < 4 * n) (hwidth : 4 * n ≤ 64)
    (hfinish : ∀ s p w, finish s p w = ⟨s.plain + p.total, s.weighted + w.total⟩)
    (s : Sums) {chunk : List UInt8} (hdvd : 4 * n ∣ chunk.length)
    (hlen : chunk.length ≤ 173 * (4 * n)) : SumsChunk n (accumulate shift finish) s chunk := by
  refine ⟨?_, fun before after h => holdsExactly_run ?_ hwidth, ?_⟩
  · rw [accumulate_eq hshift hpositive hfinish s hdvd, ChunkKernel.contribution, byteSum_eq_sum,
      weightedSum_eq_sum]
    rfl
  · have hcount := (length_segments_mul_le (4 * n) chunk).trans hlen
    have hsegments := Nat.le_of_mul_le_mul_right hcount hpositive
    rw [h, List.length_append] at hsegments
    omega
  · rw [accumulate_eq hshift hpositive hfinish _ hdvd, ChunkKernel.contribution_entry]

/-! ### Chunks that are checked first -/

/-- What is missing is noticed before an illegal length. -/
theorem answer_of_missing {e : Extension} {p : Session} {fault : Fault}
    (h : e.missing p.effective = if p.effective.has e.requires then none else some fault)
    (s : Sums) (chunk : List UInt8) :
    (p.step (.accumulate e s chunk)).1 =
      if p.effective.has e.requires then
        if e.geometry.Legal chunk.length then .sums (e.accumulate s chunk)
        else .fault .illegalLength
      else .fault fault := by
  have hanswer : (p.step (.accumulate e s chunk)).1 =
      .ofSums (e.accumulateOn p.effective s chunk) := rfl
  rw [hanswer, Extension.accumulateOn, h]
  by_cases hhas : p.effective.has e.requires
  · rw [if_pos hhas, if_pos hhas]
    exact apply_ite Session.Answer.ofSums ..
  · rw [if_neg hhas, if_neg hhas]
    rfl

section Answers
variable (p : Session) (s : Sums) (chunk : List UInt8)

theorem answer_avx2 : (p.step (.accumulate .avx2 s chunk)).1 =
    if 6 ∈ p.effective ∧ 7 ∈ p.effective then
      if 0 < chunk.length ∧ 32 ∣ chunk.length ∧ chunk.length ≤ 5536 then
        .sums (accumulateEight s chunk)
      else .fault .illegalLength
    else .fault .avx2Missing := by
  have hmeets : p.effective.has Extension.avx2.requires = true ↔
      6 ∈ p.effective ∧ 7 ∈ p.effective :=
    Caps.has_iff.trans (Caps.supports_iff_of_two (k := .vector .avx2) fun _ => Caps.mem_avx2Ready)
  rw [answer_of_missing rfl]
  exact if_congr hmeets rfl rfl

theorem answer_avx512bw : (p.step (.accumulate .avx512bw s chunk)).1 =
    if 14 ∈ p.effective ∧ 16 ∈ p.effective then
      if 0 < chunk.length ∧ 64 ∣ chunk.length ∧ chunk.length ≤ 5504 then
        .sums (accumulateSixteen s chunk)
      else .fault .illegalLength
    else .fault .avx512bwMissing := by
  have hmeets : p.effective.has Extension.avx512bw.requires = true ↔
      14 ∈ p.effective ∧ 16 ∈ p.effective :=
    Caps.has_iff.trans
      (Caps.supports_iff_of_two (k := .vector .avx512bw) fun _ => Caps.mem_avx512bwReady)
  rw [answer_of_missing rfl]
  exact if_congr hmeets rfl rfl

/-- **The kernels of columns add the weighted sums of a chunk**, onto any sums: with eight lanes
for up to 173 segments of 32 bytes, with sixteen for up to 86 segments of 64. Their lanes hold
the sums of the bytes at one offset each, exactly, after every segment. Where a chunk suits both
kernels they agree. A session that is asked for one of them notices first that its processor
lacks a capability, and then that the length is illegal. -/
theorem columns_add_weighted_sums :
    (0 < chunk.length ∧ 32 ∣ chunk.length ∧ chunk.length ≤ 5536 →
        SumsChunk 8 accumulateEight s chunk) ∧
      (0 < chunk.length ∧ 64 ∣ chunk.length ∧ chunk.length ≤ 5504 →
        SumsChunk 16 accumulateSixteen s chunk ∧
          accumulateEight s chunk = accumulateSixteen s chunk) ∧
      ((p.step (.accumulate .avx2 s chunk)).1 =
        if 6 ∈ p.effective ∧ 7 ∈ p.effective then
          if 0 < chunk.length ∧ 32 ∣ chunk.length ∧ chunk.length ≤ 5536 then
            .sums (accumulateEight s chunk)
          else .fault .illegalLength
        else .fault .avx2Missing) ∧
      (p.step (.accumulate .avx512bw s chunk)).1 =
        if 14 ∈ p.effective ∧ 16 ∈ p.effective then
          if 0 < chunk.length ∧ 64 ∣ chunk.length ∧ chunk.length ≤ 5504 then
            .sums (accumulateSixteen s chunk)
          else .fault .illegalLength
        else .fault .avx512bwMissing := by
  refine ⟨fun ⟨_, hdvd, hlen⟩ => ?_, fun ⟨_, hdvd, hlen⟩ => ⟨?_, ?_⟩, answer_avx2 p s chunk,
    answer_avx512bw p s chunk⟩
  · exact sumsChunk Lanes.shifts_five (by decide) (by decide) Lanes.finishEight_eq s hdvd hlen
  · exact sumsChunk Lanes.shifts_six (by decide) (by decide) Lanes.finishSixteen_eq s hdvd
      (hlen.trans (by decide))
  · rw [accumulateEight_eq s ((by decide : 32 ∣ 64).trans hdvd), accumulateSixteen_eq s hdvd]

end Answers

/-- The longest chunk that suits both kernels, all of `0xFF` and onto the largest sums. With one
byte more it is refused; on a processor that lacks AVX-512 that is what is noticed instead. -/
theorem columns_longest_common_chunk :
    let p := (Session.fresh .hosted (.ofWords false 0 0 0 0) .empty).run
      [.overrideCaps (some (Caps.avx2Ready ∪ Caps.avx512bwReady))]
    let alone := Session.fresh .freestanding (.ofWords false 0 0 0 0) .empty
    let s : Sums := ⟨0xFFFFFFFF, 0xFFFFFFFF⟩
    let chunk : List UInt8 := List.replicate 5504 0xFF
    ((0 < chunk.length ∧ 32 ∣ chunk.length ∧ chunk.length ≤ 5536) ∧
        0 < chunk.length ∧ 64 ∣ chunk.length ∧ chunk.length ≤ 5504) ∧
      HoldsExactly (segments (4 * 8) chunk) (run start (segments (4 * 8) chunk)) ∧
      accumulateEight s chunk = accumulateSixteen s chunk ∧
      (p.step (.accumulate .avx2 s chunk)).1 = .sums ⟨1403519, 3863188799⟩ ∧
      (p.step (.accumulate .avx512bw s chunk)).1 = .sums ⟨1403519, 3863188799⟩ ∧
      (p.step (.accumulate .avx512bw s (0xFF :: chunk))).1 = .fault .illegalLength ∧
      (alone.step (.accumulate .avx512bw s (0xFF :: chunk))).1 = .fault .avx512bwMissing := by
  intro p alone s chunk
  have hlength : chunk.length = 5504 := List.length_replicate
  have height : 0 < chunk.length ∧ 32 ∣ chunk.length ∧ chunk.length ≤ 5536 := by
    rw [hlength]
    decide
  have hsixteen : 0 < chunk.length ∧ 64 ∣ chunk.length ∧ chunk.length ≤ 5504 := by
    rw [hlength]
    decide
  have hillegal : ¬ (0 < (0xFF :: chunk).length ∧ 64 ∣ (0xFF :: chunk).length ∧
      (0xFF :: chunk).length ≤ 5504) := by
    rw [List.length_cons, hlength]
    decide
  have hplain : ∑ i : Fin chunk.length, (chunk.get i).toNat = 1403520 :=
    (byteSum_eq_sum chunk).symm.trans (by decide +kernel)
  have hweighted : ∑ i : Fin chunk.length, (chunk.length - i) * (chunk.get i).toNat = 3863188800 :=
    (weightedSum_eq_sum chunk).symm.trans (by decide +kernel)
  obtain ⟨hsums, hsame, havx2, havx512bw⟩ := columns_add_weighted_sums p s chunk
  have hadds : accumulateEight s chunk = ⟨1403519, 3863188799⟩ := by
    rw [(hsums height).adds, hplain, hweighted]
    decide +kernel
  refine ⟨⟨height, hsixteen⟩, (hsums height).lanes _ [] (List.append_nil _).symm,
    (hsame hsixteen).2, ?_, ?_, ?_, ?_⟩
  · rw [havx2, if_pos (by decide), if_pos height, hadds]
  · rw [havx512bw, if_pos (by decide), if_pos hsixteen, ← (hsame hsixteen).2, hadds]
  · rw [(columns_add_weighted_sums p s (0xFF :: chunk)).2.2.2, if_pos (by decide), if_neg hillegal]
  · rw [(columns_add_weighted_sums alone s (0xFF :: chunk)).2.2.2, if_neg (by decide)]

end AdaptiveAdler.Columns
