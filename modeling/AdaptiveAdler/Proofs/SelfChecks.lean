import AdaptiveAdler.Proofs.Boundaries
import AdaptiveAdler.Proofs.Choice
import AdaptiveAdler.Session.Step

/-! The self-checks find nothing to report.

A self-check compares outcomes, and it may find that there is none, that one differs from
the first, or that a kernel refuses a chunk. None of this can happen, whatever the capabilities:
the definition is always run, and every kernel computes the checksum by definition, from any
state; and the prefix a vector kernel is tried on is the longest one it accepts, on capabilities
it was listed for. So each check has one answer, which does not depend on the kernels at all
(`agreement_runAll`, `runChunks_eq`), and no session gives another
(`self_checks_find_nothing`). -/
namespace AdaptiveAdler

/-! ### The longest legal prefix -/

namespace Geometry
variable {g : Geometry} {size n : Nat}

theorem le_longestLegal (hn : n ≤ size) (hlegal : g.Legal n) : n ≤ g.longestLegal size := by
  obtain ⟨-, hdvd, hlargest⟩ := hlegal
  calc n = n / g.segment * g.segment := (Nat.div_mul_cancel hdvd).symm
    _ ≤ min size g.largest / g.segment * g.segment :=
      Nat.mul_le_mul_right _ (Nat.div_le_div_right (Nat.le_min.mpr ⟨hn, hlargest⟩))

theorem longestLegal_le (g : Geometry) (size : Nat) : g.longestLegal size ≤ min size g.largest :=
  Nat.div_mul_le_self ..

theorem legal_longestLegal (h : 0 < g.longestLegal size) : g.Legal (g.longestLegal size) :=
  ⟨h, Nat.dvd_mul_left .., (g.longestLegal_le size).trans (Nat.min_le_right ..)⟩

/-- No legal prefix is longer. -/
theorem isGreatest_longestLegal (h : 0 < g.longestLegal size) :
    IsGreatest {n | n ≤ size ∧ g.Legal n} (g.longestLegal size) :=
  ⟨⟨(g.longestLegal_le size).trans (Nat.min_le_left ..), legal_longestLegal h⟩,
    fun _ hn => le_longestLegal hn.1 hn.2⟩

/-- The prefix is empty only if none is legal. -/
theorem longestLegal_pos_iff : 0 < g.longestLegal size ↔ ∃ n ≤ size, g.Legal n := by
  constructor
  · intro h
    exact ⟨_, (isGreatest_longestLegal h).1⟩
  · rintro ⟨n, hn, hlegal⟩
    exact Nat.lt_of_lt_of_le hlegal.1 (le_longestLegal hn hlegal)

end Geometry

/-! ### Single chunks under capabilities -/

namespace Extension
variable {e : Extension} {caps : Caps}

/-- A vector kernel that can run takes every chunk of a legal length. -/
theorem accumulateOn_of_has (h : caps.has e.requires = true) (s : Sums) {chunk : List UInt8}
    (hlegal : e.geometry.Legal chunk.length) :
    e.accumulateOn caps s chunk = .ok (e.accumulate s chunk) := by
  rw [accumulateOn, missing_eq_none_of_has h]
  exact if_pos hlegal

/-- One legal chunk from reduced sums is an update by definition. -/
theorem pack_consume {s : Sums} (hs : s.Reduced) {chunk : List UInt8}
    (hlegal : e.geometry.Legal chunk.length) :
    (e.chunkKernel.consume s chunk).pack = Bytewise.update s.pack chunk := by
  have hchunk := ChunkKernel.reaches_consume e.meetsContract hs.narrow hlegal
    (le_deferralLimit_of_legal hlegal)
  rw [Bytewise.update, Sums.unpack_pack hs.narrow,
    hchunk.unique (Bytewise.reaches_run_of_reduced hs chunk)]

end Extension

namespace SelfCheck
variable (caps : Caps) (digest : UInt32) (b : Buffer)

/-! ### Whole updates -/

/-- Outcomes agree on a checksum if there are any and all of them have it, and only then. -/
theorem agreement_eq_ok_iff {outcomes : List Outcome} {digest : UInt32} :
    agreement outcomes = .ok digest ↔ outcomes ≠ [] ∧ ∀ o ∈ outcomes, o.digest = digest := by
  cases outcomes with
  | nil => simp [agreement]
  | cons first rest =>
    rw [agreement, and_iff_right (List.cons_ne_nil first rest), List.forall_mem_cons]
    cases hfind : rest.find? (·.digest != first.digest) with
    | some other =>
      have hmem := List.mem_of_find?_eq_some hfind
      have hdiffers : other.digest ≠ first.digest := by
        simpa using List.find?_some hfind
      exact iff_of_false nofun fun ⟨hfirst, hrest⟩ =>
        hdiffers ((hrest other hmem).trans hfirst.symm)
    | none =>
      have hsame : ∀ o ∈ rest, o.digest = first.digest := fun o ho => by
        simpa using List.find?_eq_none.mp hfind o ho
      constructor
      · intro h
        cases h
        exact ⟨rfl, hsame⟩
      · rintro ⟨rfl, -⟩
        rfl

example : (agreement [⟨.bytewise, 1⟩, ⟨.portable, 1⟩, ⟨.vector .sse2, 0xABC⟩]).mapError
    Disagreement.message = .error ("kernel mismatch: reference produced 0x00000001, but " ++
      "x86_64/sse2 produced 0x00000ABC") := by
  decide

/-- The first outcome is that of the definition, so there always is one. -/
theorem runAll_ne_nil : runAll caps digest b ≠ [] := List.cons_ne_nil _ _

theorem map_kernel_runAll :
    (runAll caps digest b).map Outcome.kernel = .bytewise :: Inventory.forced caps := by
  rw [runAll, List.map_map]
  exact List.map_id _

theorem digest_of_mem_runAll {o : Outcome} (h : o ∈ runAll caps digest b) :
    o.digest = Bytewise.update digest b.bytes := by
  obtain ⟨k, -, rfl⟩ := List.mem_map.mp h
  exact k.update_eq_bytewise digest b

/-- All kernels agree, and on the checksum by definition. -/
theorem agreement_runAll :
    agreement (runAll caps digest b) = .ok (Bytewise.update digest b.bytes) :=
  agreement_eq_ok_iff.mpr ⟨runAll_ne_nil caps digest b, fun _ => digest_of_mem_runAll caps digest b⟩

/-! ### Single chunks -/

/-- What every vector kernel makes of its longest legal prefix. -/
def agreed (e : Extension) : ChunkOutcome :=
  let length := e.geometry.longestLegal b.size
  let after := Bytewise.update (normalize digest) (b.bytes.take length)
  ⟨e, length, after, after⟩

/-- The kernels that can run and have a chunk to take. -/
def checked : List Extension :=
  (Extension.all.filter fun e => caps.has e.requires).filter fun e =>
    0 < e.geometry.longestLegal b.size

theorem disagreeing_eq_none_iff {outcomes : List ChunkOutcome} :
    disagreeing outcomes = none ↔ ∀ o ∈ outcomes, o.digest = o.expected := by
  rw [disagreeing, List.find?_eq_none]
  simp

/-- The chunk is the longest that its kernel accepts; the kernel takes it, and makes of it what
the definition makes of it. -/
structure ChunkOutcome.Sound (caps : Caps) (digest : UInt32) (b : Buffer) (o : ChunkOutcome) :
    Prop where
  longest : IsGreatest {n | n ≤ b.size ∧ o.extension.geometry.Legal n} o.length
  taken : ∃ sums, o.extension.accumulateOn caps
      (ChunkKernel.entry (Sums.unpack digest).reduce o.length) (b.bytes.take o.length) = .ok sums ∧
    sums.reduce.pack = o.digest
  agrees : o.digest = Bytewise.update (normalize digest) (b.bytes.take o.length)
  expected : o.expected = o.digest

variable {caps} {e : Extension}

theorem length_longestLegal_take : (b.bytes.take (e.geometry.longestLegal b.size)).length =
    e.geometry.longestLegal b.size := by
  have hle := e.geometry.longestLegal_le b.size
  exact List.length_take_of_le (hle.trans (Nat.min_le_left ..))

/-- A kernel that can run takes its longest legal prefix. -/
theorem sound_agreed (h : caps.has e.requires = true) (hpos : 0 < e.geometry.longestLegal b.size) :
    (agreed digest b e).Sound caps digest b := by
  have hlength := length_longestLegal_take b (e := e)
  have hlegal : e.geometry.Legal (b.bytes.take (e.geometry.longestLegal b.size)).length := by
    rw [hlength]
    exact Geometry.legal_longestLegal hpos
  have hconsume := Extension.pack_consume (Sums.reduced_reduce (Sums.unpack digest)) hlegal
  rw [ChunkKernel.consume, hlength] at hconsume
  exact ⟨Geometry.isGreatest_longestLegal hpos,
    ⟨_, Extension.accumulateOn_of_has h _ hlegal, hconsume⟩, rfl, rfl⟩

theorem runChunk_of_pos (h : caps.has e.requires = true)
    (hpos : 0 < e.geometry.longestLegal b.size) :
    runChunk caps digest b e = .ok (some (agreed digest b e)) := by
  have hne : ¬ (b.bytes.take (e.geometry.longestLegal b.size)).isEmpty = true := by
    rw [List.isEmpty_iff_length_eq_zero, length_longestLegal_take]
    exact Nat.ne_of_gt hpos
  obtain ⟨sums, htaken, hsums⟩ := (sound_agreed digest b h hpos).taken
  have htaken' : e.accumulateOn caps (ChunkKernel.entry (Sums.unpack digest).reduce
      (e.geometry.longestLegal b.size)) (b.bytes.take (e.geometry.longestLegal b.size)) =
        .ok sums := htaken
  rw [runChunk, if_neg hne, htaken']
  simp only [hsums]
  rfl

theorem runChunk_of_eq_zero (hzero : e.geometry.longestLegal b.size = 0) :
    runChunk caps digest b e = .ok none := by
  rw [runChunk, hzero]
  rfl

/-- The outcomes for kernels that can run: one for each that has a chunk to take. -/
theorem runChunksOf_eq {es : List Extension} (h : ∀ e ∈ es, caps.has e.requires = true) :
    runChunksOf caps digest b es =
      .ok ((es.filter fun e => 0 < e.geometry.longestLegal b.size).map (agreed digest b)) := by
  induction es with
  | nil => rfl
  | cons e rest ih =>
    have hrest := ih fun other hother => h other (List.mem_cons_of_mem e hother)
    rcases Nat.eq_zero_or_pos (e.geometry.longestLegal b.size) with hzero | hpos
    · rw [runChunksOf, runChunk_of_eq_zero digest b hzero, hrest, List.filter_cons, hzero]
      rfl
    · rw [runChunksOf, runChunk_of_pos digest b (h e List.mem_cons_self) hpos, hrest,
        List.filter_cons, if_pos (decide_eq_true hpos)]
      rfl

variable (caps)

theorem runChunks_eq :
    runChunks caps digest b = .ok ((checked caps b).map (agreed digest b)) := by
  rw [runChunks, Extension.allowed_tried]
  exact runChunksOf_eq digest b fun _ he => (List.mem_filter.mp he).2

theorem verifyChunks_eq : verifyChunks caps digest b = .ok none := by
  rw [verifyChunks, runChunks_eq]
  refine congrArg Except.ok (disagreeing_eq_none_iff.mpr fun o ho => ?_)
  obtain ⟨e, -, rfl⟩ := List.mem_map.mp ho
  rfl

/-! ### Which kernels are tried -/

theorem mem_checked : e ∈ checked caps b ↔
    caps.Supports (.vector e) ∧ ∃ n ≤ b.size, e.geometry.Legal n := by
  rw [checked, List.mem_filter, List.mem_filter, decide_eq_true_iff, Geometry.longestLegal_pos_iff,
    Caps.supports_iff, and_iff_right e.mem_all]
  rfl

theorem map_extension_agreed : ((checked caps b).map (agreed digest b)).map ChunkOutcome.extension =
    checked caps b := by
  rw [List.map_map]
  exact List.map_id _

theorem sound_of_mem {o : ChunkOutcome} (h : o ∈ (checked caps b).map (agreed digest b)) :
    o.Sound caps digest b := by
  obtain ⟨e, he, rfl⟩ := List.mem_map.mp h
  obtain ⟨hruns, hpos⟩ := List.mem_filter.mp he
  exact sound_agreed digest b (List.mem_filter.mp hruns).2 (decide_eq_true_iff.mp hpos)

end SelfCheck

namespace Session

/-- **Self-checks find nothing to report**, in whatever state a session of either build is, for
any checksum to start from and any bytes. All kernels agree: on the checksum by definition
after the start is reduced, and on the checksum that the session itself computes; and no chunk
differs. It is no fault of the checks: outcomes agree only if there are any and all are the same,
and a chunk passes only if its checksum is the expected one. The kernels run are the definition
and all those that can run, from the start as it is; the chunks tried are one for each vector
kernel that can run and accepts some prefix of the bytes, narrowest first, and all of them are
sound. -/
theorem self_checks_find_nothing (build : Build) (cpu : Cpu) (environment : Environment)
    (steps : List Step) (digest : UInt32) (b : Buffer) :
    let p := (fresh build cpu environment).run steps
    (p.step (.verifyFrom digest b)).1 =
        .agreement (Bytewise.update (normalize digest) b.bytes) ∧
      (p.step (.verify b)).1 = .agreement (p.engine.checksum b) ∧
      (p.step (.verifyChunks digest b)).1 = .done ∧
      ((∀ outcomes shared, SelfCheck.agreement outcomes = .ok shared ↔
          outcomes ≠ [] ∧ ∀ o ∈ outcomes, o.digest = shared) ∧
        ∀ outcomes, SelfCheck.disagreeing outcomes = none ↔
          ∀ o ∈ outcomes, o.digest = o.expected) ∧
      (∃ outcomes, (p.step (.runAll digest b)).1 = .outcomes outcomes ∧
        outcomes.map SelfCheck.Outcome.kernel = .bytewise :: Inventory.forced p.effective ∧
        ∀ o ∈ outcomes, o.digest = Bytewise.update digest b.bytes) ∧
      ∃ outcomes, (p.step (.runChunks digest b)).1 = .chunkOutcomes outcomes ∧
        (outcomes.map SelfCheck.ChunkOutcome.extension).Sublist Extension.all ∧
        (∀ e, e ∈ outcomes.map SelfCheck.ChunkOutcome.extension ↔
          p.effective.Supports (.vector e) ∧ ∃ n ≤ b.size, e.geometry.Legal n) ∧
        ∀ o ∈ outcomes, o.Sound p.effective digest b := by
  intro p
  refine ⟨?_, ?_, ?_, ⟨fun _ _ => SelfCheck.agreement_eq_ok_iff,
      fun _ => SelfCheck.disagreeing_eq_none_iff⟩,
    ⟨_, rfl, SelfCheck.map_kernel_runAll p.effective digest b,
      fun o => SelfCheck.digest_of_mem_runAll p.effective digest b⟩,
    (SelfCheck.checked p.effective b).map (SelfCheck.agreed digest b), ?_, ?_, ?_,
    fun o => SelfCheck.sound_of_mem p.effective digest b⟩
  · show Answer.ofAgreement (SelfCheck.agreement
      (SelfCheck.runAll p.effective (normalize digest) b)) = _
    rw [SelfCheck.agreement_runAll]
    rfl
  · show Answer.ofAgreement (SelfCheck.agreement (SelfCheck.runAll p.effective initial b)) = _
    rw [SelfCheck.agreement_runAll, Engine.checksum_eq_bytewise]
    rfl
  · show Answer.ofChunkAgreement (SelfCheck.verifyChunks p.effective digest b) = _
    rw [SelfCheck.verifyChunks_eq]
    rfl
  · show Answer.ofChunks (SelfCheck.runChunks p.effective digest b) = _
    rw [SelfCheck.runChunks_eq]
    rfl
  · rw [SelfCheck.map_extension_agreed]
    exact List.filter_sublist.trans List.filter_sublist
  · intro e
    rw [SelfCheck.map_extension_agreed]
    exact SelfCheck.mem_checked p.effective b

/-- A hundred bytes, from halves that are not reduced, in a session that runs the two narrower
vector kernels: both take 96 bytes. No bytes leave the reduced start, and no chunk to try. -/
theorem self_checks_of_hundred_bytes :
    let b : Buffer := ⟨List.replicate 100 0xFF, 5⟩
    let p := (fresh .hosted (.ofWords false 0 0 0 0) .empty).run
      [.overrideCaps (some Caps.avx2Ready)]
    (p.step (.verifyFrom 0xFFFFFFFF b)).1 = .agreement 2900976554 ∧
      (p.step (.verifyFrom 0xFFFFFFFF ⟨[], 5⟩)).1 = .agreement 0x000E000E ∧
      (p.step (.verifyChunks 0xFFFFFFFF b)).1 = .done ∧
      ∃ o : SelfCheck.ChunkOutcome, o.extension = .avx2 ∧ o.length = 96 ∧
        o.Sound p.effective 0xFFFFFFFF b := by
  intro b p
  obtain ⟨hfrom, -, hchunks, -, -, outcomes, -, -, hmem, hsound⟩ := self_checks_find_nothing .hosted
    (.ofWords false 0 0 0 0) .empty [.overrideCaps (some Caps.avx2Ready)] 0xFFFFFFFF b
  obtain ⟨hnone, -⟩ := self_checks_find_nothing .hosted
    (.ofWords false 0 0 0 0) .empty [.overrideCaps (some Caps.avx2Ready)] 0xFFFFFFFF ⟨[], 5⟩
  have hsupports : p.effective.Supports (.vector .avx2) := Caps.supports_iff.mpr (by decide)
  obtain ⟨o, ho, hextension⟩ := List.mem_map.mp
    ((hmem .avx2).mpr ⟨hsupports, 32, by decide, by decide⟩)
  refine ⟨hfrom.trans (by decide +kernel), hnone.trans (by decide +kernel), hchunks, o, hextension,
    ?_, hsound o ho⟩
  have hlength : IsGreatest {n | n ≤ b.size ∧ Extension.avx2.geometry.Legal n} o.length :=
    hextension ▸ (hsound o ho).longest
  have hlongest : IsGreatest {n | n ≤ b.size ∧ Extension.avx2.geometry.Legal n}
      (Extension.avx2.geometry.longestLegal b.size) :=
    Geometry.isGreatest_longestLegal (by decide)
  exact (hlength.unique hlongest).trans (by decide)

end Session
end AdaptiveAdler
