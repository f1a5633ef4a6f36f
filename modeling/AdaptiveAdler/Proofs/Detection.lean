import AdaptiveAdler.Cpu.Detection
import AdaptiveAdler.Proofs.Choice

/-! What is detected is there.

A capability is detected where the processor reports its feature and the operating system
saves the registers that go with it (`mem_caps`). So the kernel that is chosen is the widest
whose features are all reported and whose registers are all saved, a word with fewer bits
never leads to more, and a processor with unlike cores is taken for one that reports no
AVX-512 (`detection_is_sound`). -/
namespace AdaptiveAdler

/-! ### Words -/

/-- A bit is tested with the word that holds it alone. -/
theorem and_oneBit_ne_zero (w : UInt32) {n : UInt32} (h : n < 32) :
    (w &&& (1 <<< n) != 0) = w.toBitVec.getLsbD n.toNat := by
  have hn : n.toNat < 32 := h
  have hword : ((1 : UInt32) <<< n).toBitVec = BitVec.twoPow 32 n.toNat := by
    rw [BitVec.twoPow_eq, UInt32.toBitVec_shiftLeft]
    simp [Nat.mod_eq_of_lt hn]
  have hne : BitVec.twoPow 32 n.toNat ≠ 0#32 := by
    intro hzero
    have hbit := congrArg (fun w => w.getLsbD n.toNat) hzero
    simp [hn] at hbit
  have hzero : w &&& (1 <<< n) = 0 ↔ w.toBitVec.getLsbD n.toNat = false := by
    rw [← UInt32.toBitVec_inj, UInt32.toBitVec_and, hword, BitVec.and_twoPow]
    cases w.toBitVec.getLsbD n.toNat <;> simp [hne]
  cases hbit : w.toBitVec.getLsbD n.toNat <;> simp [hzero, hbit]

section Masks
variable {w a b : UInt64}

/-- A word holds a mask if it holds every bit of it. -/
theorem and_eq_mask_iff : w &&& a = a ↔ ∀ i, i ∈ Caps.mk a → i ∈ Caps.mk w :=
  beq_iff_eq.symm.trans (Caps.has_iff (a := ⟨w⟩) (b := ⟨a⟩))

theorem and_or_eq_mask_iff : w &&& (a ||| b) = a ||| b ↔ w &&& a = a ∧ w &&& b = b := by
  have hunion (i : Nat) : i ∈ Caps.mk (a ||| b) ↔ i ∈ Caps.mk a ∨ i ∈ Caps.mk b :=
    Caps.mem_union
  rw [and_eq_mask_iff, and_eq_mask_iff, and_eq_mask_iff, ← forall_and]
  exact forall_congr' fun i => by rw [hunion, or_imp]

theorem and_eq_mask_of_and (h : (w &&& b) &&& a = a) : w &&& a = a :=
  and_eq_mask_iff.mpr fun i hi => (Caps.mem_inter.mp (and_eq_mask_iff.mp h i hi)).1

end Masks

/-- A kernel that requires two capabilities is supported by the sets that hold both. -/
theorem Caps.supports_iff_of_two {caps : Caps} {k : Kernel} {a b : Nat}
    (h : ∀ i, i ∈ k.requires ↔ i = a ∨ i = b) : caps.Supports k ↔ a ∈ caps ∧ b ∈ caps := by
  simp only [Caps.Supports, h, forall_eq_or_imp, forall_eq]

namespace Cpu

/-- The words report all that the kernel of an extension uses, and the operating system
saves its registers. The narrowest kernel runs on every processor. -/
def Reports (cpu : Cpu) : Extension → Prop
  | .sse2 => True
  | .avx2 => cpu.basic.toBitVec.getLsbD 28 = true ∧ cpu.extended.toBitVec.getLsbD 5 = true ∧
      cpu.saved &&& 0x6 = 0x6
  | .avx512bw => cpu.extended.toBitVec.getLsbD 16 = true ∧
      cpu.extended.toBitVec.getLsbD 30 = true ∧ cpu.saved &&& 0xE6 = 0xE6

instance (cpu : Cpu) : (e : Extension) → Decidable (cpu.Reports e)
  | .sse2 => inferInstanceAs (Decidable True)
  | .avx2 => inferInstanceAs (Decidable (_ ∧ _ ∧ _))
  | .avx512bw => inferInstanceAs (Decidable (_ ∧ _ ∧ _))

/-- The widest extension that the words report. -/
def reported (cpu : Cpu) : Extension :=
  if cpu.Reports .avx512bw then .avx512bw
  else if cpu.Reports .avx2 then .avx2
  else .sse2

/-- The same processor with only those bits of its words that the masks hold. -/
def masked (cpu : Cpu) (basic extended : UInt32) (saved : UInt64) : Cpu :=
  { cpu with
    basic := cpu.basic &&& basic
    extended := cpu.extended &&& extended
    saved := cpu.saved &&& saved }

/-- The same processor with no AVX-512 among its features. -/
def withoutAvx512 (cpu : Cpu) : Cpu := {cpu with extended := cpu.extended &&& ~~~0x40010000}

variable (cpu : Cpu) {i : Nat}

/-! ### The capabilities found -/

theorem saves_ymm : cpu.saves .ymm = true ↔ cpu.saved &&& 0x6 = 0x6 := beq_iff_eq

theorem saves_zmm : cpu.saves .zmm = true ↔ cpu.saved &&& 0xE6 = 0xE6 := by
  rw [saves, Bool.and_eq_true, beq_iff_eq, beq_iff_eq]
  exact and_or_eq_mask_iff.symm

theorem offers_iff {f : Feature} (h : f.bit < 32) : cpu.offers f = true ↔
    (cpu.word f.word).toBitVec.getLsbD f.bit.toNat = true ∧ cpu.saves f.state = true := by
  rw [offers, and_oneBit_ne_zero _ h, Bool.and_eq_true]

theorem mem_foldl_grants (features : List Feature) (caps : Caps) :
    i ∈ features.foldl (fun caps f => caps ∪ f.grants) caps ↔
      i ∈ caps ∨ ∃ f ∈ features, i ∈ f.grants := by
  induction features generalizing caps with
  | nil => simp
  | cons f rest ih =>
    simp only [List.foldl_cons, ih, Caps.mem_union, List.mem_cons, exists_eq_or_imp, or_assoc]

/-- Each capability beyond the baseline is found by one feature and the state it uses. -/
theorem mem_caps : i ∈ cpu.caps ↔ i = 0 ∨
    (cpu.basic.toBitVec.getLsbD 28 = true ∧ cpu.saved &&& 0x6 = 0x6 ∧ i = 6) ∨
    (cpu.extended.toBitVec.getLsbD 5 = true ∧ cpu.saved &&& 0x6 = 0x6 ∧ i = 7) ∨
    (cpu.extended.toBitVec.getLsbD 16 = true ∧ cpu.saved &&& 0xE6 = 0xE6 ∧ i = 14) ∨
    (cpu.extended.toBitVec.getLsbD 30 = true ∧ cpu.saved &&& 0xE6 = 0xE6 ∧ i = 16) := by
  have havx : i ∈ Caps.avx ↔ i = 6 := Caps.mem_bit
  have havx2 : i ∈ Caps.avx2 ↔ i = 7 := Caps.mem_bit
  have havx512f : i ∈ Caps.avx512f ↔ i = 14 := Caps.mem_bit
  have havx512bw : i ∈ Caps.avx512bw ↔ i = 16 := Caps.mem_bit
  rw [caps, mem_foldl_grants, Caps.mem_baseline]
  simp only [Feature.all, List.mem_filter, List.mem_cons, List.not_mem_nil, or_false, and_assoc,
    exists_eq_or_imp, exists_eq_left]
  rw [offers_iff _ (by decide), offers_iff _ (by decide), offers_iff _ (by decide),
    offers_iff _ (by decide)]
  simp only [saves_ymm, saves_zmm, and_assoc, havx, havx2, havx512f, havx512bw]
  rfl

theorem mem_caps_of_mem_baseline (h : i ∈ Caps.baseline) : i ∈ cpu.caps :=
  (cpu.mem_caps).mpr (.inl (Caps.mem_baseline.mp h))

theorem mem_tracked_of_mem_caps (h : i ∈ cpu.caps) : i ∈ Caps.tracked := by
  rw [Caps.mem_tracked]
  have hi := (cpu.mem_caps).mp h
  omega

/-- The capabilities found support the kernels of the extensions reported. -/
theorem supports_caps_iff (e : Extension) : cpu.caps.Supports (.vector e) ↔ cpu.Reports e := by
  cases e with
  | sse2 => exact iff_of_true (fun _ => cpu.mem_caps_of_mem_baseline) trivial
  | avx2 =>
    have hrequires (i : Nat) : i ∈ (Kernel.vector .avx2).requires ↔ i = 6 ∨ i = 7 := by
      rw [Kernel.requires, Extension.requires, Caps.mem_avx2Ready]
    have hsix : 6 ∈ cpu.caps ↔
        cpu.basic.toBitVec.getLsbD 28 = true ∧ cpu.saved &&& 0x6 = 0x6 := by
      simp [mem_caps]
    have hseven : 7 ∈ cpu.caps ↔
        cpu.extended.toBitVec.getLsbD 5 = true ∧ cpu.saved &&& 0x6 = 0x6 := by
      simp [mem_caps]
    rw [Caps.supports_iff_of_two hrequires, hsix, hseven, ← and_and_right, and_assoc]
    rfl
  | avx512bw =>
    have hrequires (i : Nat) : i ∈ (Kernel.vector .avx512bw).requires ↔ i = 14 ∨ i = 16 := by
      rw [Kernel.requires, Extension.requires, Caps.mem_avx512bwReady]
    have hfourteen : 14 ∈ cpu.caps ↔
        cpu.extended.toBitVec.getLsbD 16 = true ∧ cpu.saved &&& 0xE6 = 0xE6 := by
      simp [mem_caps]
    have hsixteen : 16 ∈ cpu.caps ↔
        cpu.extended.toBitVec.getLsbD 30 = true ∧ cpu.saved &&& 0xE6 = 0xE6 := by
      simp [mem_caps]
    rw [Caps.supports_iff_of_two hrequires, hfourteen, hsixteen, ← and_and_right, and_assoc]
    rfl

/-- The kernel chosen is that of the widest extension reported. -/
theorem widest?_caps : widest? cpu.caps = some (.vector cpu.reported) := by
  have hhas (e : Extension) : cpu.caps.has e.requires = decide (cpu.Reports e) := by
    rw [Bool.eq_iff_iff, decide_eq_true_eq, ← supports_caps_iff, Caps.supports_iff]
    rfl
  rw [widest?_eq]
  simp only [hhas, reported]
  by_cases hwide : cpu.Reports .avx512bw
  · simp [Extension.all, hwide]
  · by_cases hmiddle : cpu.Reports .avx2
    · simp [Extension.all, hwide, hmiddle]
    · have hnarrow : cpu.Reports .sse2 := trivial
      simp [Extension.all, hwide, hmiddle, hnarrow]

theorem isWidest_reported : (Kernel.vector cpu.reported).IsWidest cpu.caps := by
  have hwidest := isWidest_widest cpu.caps
  rwa [widest?_caps] at hwidest

/-! ### Fewer bits -/

theorem mem_caps_of_masked {basic extended : UInt32} {saved : UInt64}
    (h : i ∈ (cpu.masked basic extended saved).caps) : i ∈ cpu.caps := by
  rw [mem_caps] at h ⊢
  simp only [masked, UInt32.toBitVec_and, BitVec.getLsbD_and, Bool.and_eq_true] at h
  rcases h with h | ⟨⟨hbit, -⟩, hsaved, h⟩ | ⟨⟨hbit, -⟩, hsaved, h⟩ | ⟨⟨hbit, -⟩, hsaved, h⟩ |
    ⟨⟨hbit, -⟩, hsaved, h⟩
  · exact .inl h
  · exact .inr (.inl ⟨hbit, and_eq_mask_of_and hsaved, h⟩)
  · exact .inr (.inr (.inl ⟨hbit, and_eq_mask_of_and hsaved, h⟩))
  · exact .inr (.inr (.inr (.inl ⟨hbit, and_eq_mask_of_and hsaved, h⟩)))
  · exact .inr (.inr (.inr (.inr ⟨hbit, and_eq_mask_of_and hsaved, h⟩)))

/-- Who reports fewer capabilities is given no wider kernel. -/
theorem width_reported_le {fewer cpu : Cpu} (h : ∀ i, i ∈ fewer.caps → i ∈ cpu.caps) :
    fewer.reported.width ≤ cpu.reported.width := by
  obtain ⟨hsupports, -⟩ := fewer.isWidest_reported
  exact cpu.isWidest_reported.2 _ fun i hi => h i (hsupports i hi)

/-! ### Processors with unlike cores -/

theorem baseline_union_caps : Caps.baseline ∪ cpu.caps = cpu.caps :=
  Caps.union_eq_right fun _ => cpu.mem_caps_of_mem_baseline

theorem detect_of_not_filtered {keepsWide : Bool} (h : (cpu.isHybrid && !keepsWide) = false) :
    cpu.detect keepsWide = cpu.caps := by
  rw [detect, h]
  exact cpu.baseline_union_caps

theorem mem_detect_of_isHybrid (h : cpu.isHybrid = true) :
    i ∈ cpu.detect false ↔ i ∈ cpu.caps ∧ i ∉ Caps.avx512All := by
  have hfiltered : cpu.detect false = (cpu.caps \ Caps.avx512All) ∪ Caps.baseline := by
    rw [detect, h, baseline_union_caps]
    rfl
  rw [hfiltered, Caps.mem_union, Caps.mem_sdiff]
  refine or_iff_left_of_imp fun hbaseline => ⟨cpu.mem_caps_of_mem_baseline hbaseline, ?_⟩
  rw [Caps.mem_baseline] at hbaseline
  rw [Caps.mem_avx512All]
  omega

theorem mem_caps_withoutAvx512 :
    i ∈ cpu.withoutAvx512.caps ↔ i ∈ cpu.caps ∧ i ∉ Caps.avx512All := by
  have hkept : (~~~(0x40010000 : UInt32)).toBitVec.getLsbD 5 = true := by decide
  have hfoundation : (~~~(0x40010000 : UInt32)).toBitVec.getLsbD 16 = false := by decide
  have hwords : (~~~(0x40010000 : UInt32)).toBitVec.getLsbD 30 = false := by decide
  rw [mem_caps, mem_caps, Caps.mem_avx512All]
  simp only [withoutAvx512, UInt32.toBitVec_and, BitVec.getLsbD_and, hkept, hfoundation, hwords,
    Bool.and_true, Bool.and_false, Bool.false_eq_true, false_and, or_false]
  -- What is left on either side is the baseline and the two capabilities of AVX2.
  grind

/-- A processor with unlike cores is taken for one that has no AVX-512. -/
theorem detect_of_isHybrid (h : cpu.isHybrid = true) :
    cpu.detect false = cpu.withoutAvx512.caps := by
  apply Caps.eq_of_mem_iff
  intro i
  rw [cpu.mem_detect_of_isHybrid h, mem_caps_withoutAvx512]

end Cpu

/-- **What is detected is there**, whatever a processor and its operating system report. The
capabilities found hold the baseline and none without a name. The kernel chosen by them is the
widest whose features are reported and whose registers are saved. With fewer bits in the words
there is no further capability and no wider kernel. On a processor with unlike cores, unless
AVX-512 is asked for, just its capabilities are left out, and the kernel is the one for the
same words without them; otherwise nothing is left out. -/
theorem detection_is_sound (cpu : Cpu) :
    ((∀ i, i ∈ Caps.sse2 → i ∈ cpu.caps) ∧ ∀ i, i ∈ cpu.caps → i ∈ Caps.tracked) ∧
      widest? cpu.caps = some (.vector cpu.reported) ∧
      (∀ (basic extended : UInt32) (saved : UInt64),
        let fewer := cpu.masked basic extended saved
        (∀ i, i ∈ fewer.caps → i ∈ cpu.caps) ∧ widest? fewer.caps = some (.vector fewer.reported) ∧
          fewer.reported.width ≤ cpu.reported.width) ∧
      (cpu.isHybrid = true →
        (∀ i, i ∈ cpu.detect false ↔ i ∈ cpu.caps ∧ i ∉ Caps.avx512All) ∧
          cpu.detect false = cpu.withoutAvx512.caps ∧
          widest? (cpu.detect false) = some (.vector cpu.withoutAvx512.reported)) ∧
      ∀ keepsWide, (cpu.isHybrid && !keepsWide) = false → cpu.detect keepsWide = cpu.caps := by
  refine ⟨⟨fun i => cpu.mem_caps_of_mem_baseline, fun i => cpu.mem_tracked_of_mem_caps⟩,
    cpu.widest?_caps, fun basic extended saved => ?_, fun h => ?_,
    fun keepsWide => cpu.detect_of_not_filtered⟩
  · have hfewer (i : Nat) (hi : i ∈ (cpu.masked basic extended saved).caps) : i ∈ cpu.caps :=
      cpu.mem_caps_of_masked hi
    exact ⟨hfewer, Cpu.widest?_caps _, Cpu.width_reported_le hfewer⟩
  · have hdetect := cpu.detect_of_isHybrid h
    exact ⟨fun i => cpu.mem_detect_of_isHybrid h, hdetect, by rw [hdetect, Cpu.widest?_caps]⟩

/-- A processor with unlike cores that reports every feature: it is given AVX2 unless AVX-512
is asked for, and the narrowest kernel where the system saves no registers of its own. -/
theorem detection_with_unlike_cores :
    let cpu := Cpu.ofWords true 0x00090672 0x10000000 0x40010020 0xE7
    let unsaved := cpu.masked 0xFFFFFFFF 0xFFFFFFFF 0x1
    (0 ∈ Caps.sse2 ∧ 16 ∈ cpu.caps ∧ cpu.isHybrid = true ∧ (cpu.isHybrid && !true) = false) ∧
      0 ∈ cpu.caps ∧ 16 ∈ Caps.tracked ∧ widest? cpu.caps = some (.vector .avx512bw) ∧
      widest? unsaved.caps = some (.vector .sse2) ∧
      16 ∉ cpu.detect false ∧ widest? (cpu.detect false) = some (.vector .avx2) ∧
      cpu.detect true = cpu.caps := by
  intro cpu unsaved
  have hbaseline : 0 ∈ Caps.sse2 := by decide
  have hwide : 16 ∈ cpu.caps := by decide
  have hhybrid : cpu.isHybrid = true := by decide
  obtain ⟨⟨hholds, htracked⟩, hwidest, hfewer, hfiltered, hwhole⟩ := detection_is_sound cpu
  obtain ⟨-, hnarrow, -⟩ := hfewer 0xFFFFFFFF 0xFFFFFFFF 0x1
  obtain ⟨hmem, -, hchosen⟩ := hfiltered hhybrid
  exact ⟨⟨hbaseline, hwide, hhybrid, by decide⟩, hholds 0 hbaseline, htracked 16 hwide,
    hwidest.trans (by decide), hnarrow.trans (by decide),
    fun h => ((hmem 16).mp h).2 (by decide), hchosen.trans (by decide), hwhole true (by decide)⟩

end AdaptiveAdler
