import AdaptiveAdler.Proofs.Choice
import AdaptiveAdler.Proofs.Coherence
import AdaptiveAdler.Proofs.Window

/-! What a session reports.

Four questions show the capabilities in use, three of them with more beside. What a probe finds
holds the baseline, but an override is reported as it was given, with the baseline or without;
kernels are chosen by the capabilities and the baseline together. So a report that leaves the
baseline out may name a kernel that the capabilities in it do not support, though never any but
the narrowest vector kernel (`reported_as_installed`). -/
namespace AdaptiveAdler

/-- The set leaves out nothing of the baseline. -/
def Caps.HoldsBaseline (caps : Caps) : Prop := ∀ i, i ∈ Caps.baseline → i ∈ caps

theorem Cpu.holdsBaseline_detect (cpu : Cpu) (keepsWide : Bool) :
    (cpu.detect keepsWide).HoldsBaseline := by
  intro i hi
  have hfound : i ∈ Caps.baseline ∪ cpu.caps := Caps.mem_union.mpr (.inl hi)
  simp only [detect]
  split
  · exact Caps.mem_union.mpr (.inr hi)
  · exact hfound

/-- Without the baseline a set supports what it supports with it, the narrowest vector kernel
apart. -/
theorem Caps.supports_of_supports_union {caps : Caps} {k : Kernel}
    (h : (caps ∪ Caps.baseline).Supports k) (hk : k ≠ .vector .sse2) : caps.Supports k := by
  -- No wider kernel requires the one capability of the baseline.
  have hother : 0 ∉ k.requires := by
    cases k with
    | bytewise | portable => exact Caps.not_mem_empty
    | vector e =>
      cases e with
      | sse2 => exact absurd rfl hk
      | avx2 | avx512bw => decide
  intro i hi
  refine (Caps.mem_union.mp (h i hi)).resolve_right fun hbaseline => ?_
  rw [Caps.mem_baseline] at hbaseline
  exact hother (hbaseline ▸ hi)

namespace Session

/-- The kernel a session is bound to runs on the capabilities in use and the baseline. -/
theorem Coherent.supports_backend {p : Session} (h : p.Coherent) :
    (p.capabilities ∪ Caps.baseline).Supports p.backend := by
  have hbackend : p.backend = (Engine.choose p.effective p.overrides).kernel :=
    congrArg Engine.kernel h.engine_eq
  rw [hbackend]
  rcases sound_chooseKernel p.effective p.overrides with hportable | hsupports
  · rw [Engine.choose, hportable]
    exact Caps.supports_portable _
  · exact hsupports

theorem Coherent.supports_backend_iff {p : Session} (h : p.Coherent) :
    p.capabilities.Supports p.backend ↔
      (p.backend = .vector .sse2 → p.capabilities.HoldsBaseline) := by
  constructor
  · intro hsupports hnarrow
    rw [hnarrow] at hsupports
    exact hsupports
  · intro hnarrow
    by_cases hk : p.backend = .vector .sse2
    · rw [hk]
      exact hnarrow hk
    · exact Caps.supports_of_supports_union h.supports_backend hk

/-- **A session reports what was installed**, in every state of a hosted session: the last
override before the capabilities were first asked for, as it was given, family included, or
what was found if there was none. So the baseline is reported exactly if no override left it
out; and the kernel in a report runs on the capabilities beside it, unless it is the narrowest
vector kernel and the baseline is not among them. With the baseline added they always support
it. -/
theorem reported_as_installed (cpu : Cpu) (environment : Environment) (steps : List Step) :
    let p := (fresh .hosted cpu environment).run steps
    let installed := lastWrite none (window steps)
    ∃ (inUse : Detected) (k : Kernel),
      ((p.step .detected).1 = .detected inUse ∧ (p.step .capabilities).1 = .caps inUse.caps ∧
        (p.step .describe).1 = .description ⟨inUse, installed.isSome⟩ ∧
        (p.step .report).1 = .report ⟨⟨inUse, installed.isSome⟩, k⟩ ∧
        ∀ given, installed = some given → inUse = given) ∧
      (inUse.caps.HoldsBaseline ↔ ∀ given, installed = some given → given.caps.HoldsBaseline) ∧
      (inUse.caps.Supports k ↔ (k = .vector .sse2 → inUse.caps.HoldsBaseline)) ∧
      (inUse.caps ∪ Caps.baseline).Supports k := by
  intro p installed
  have hcoherent : p.Coherent := coherent_run (coherent_fresh .hosted cpu environment) steps
  have hdetected : p.detected = installed.getD
      (.ofCaps (cpu.detect ((window steps).foldl Step.setIn environment).keepsWide)) :=
    detected_run cpu environment steps
  have hoverridden : p.overridden = installed.isSome := overridden_run cpu environment steps
  have hgiven (given : Detected) (h : installed = some given) : p.detected = given := by
    rw [hdetected, h]
    rfl
  refine ⟨p.detected, p.backend, ⟨rfl, rfl, ?_, ?_, hgiven⟩,
    ⟨fun h given hinstalled => ?_, fun h => ?_⟩, hcoherent.supports_backend_iff,
    hcoherent.supports_backend⟩
  · rw [← hoverridden]
    rfl
  · rw [← hoverridden]
    rfl
  · rwa [← hgiven given hinstalled]
  · cases hinstalled : installed with
    | none =>
      rw [hdetected, hinstalled]
      exact cpu.holdsBaseline_detect _
    | some given =>
      rw [hgiven given hinstalled]
      exact h given hinstalled

/-- An override without the baseline that supports the middle vector kernel: the report leaves the
baseline out, and still its kernel runs on what is reported. -/
theorem reported_without_baseline :
    let steps : List Step := [.startWith Caps.avx2Ready, .backend]
    let given := Detected.ofCaps Caps.avx2Ready
    let p := (fresh .hosted (.ofWords false 0 0 0 0) .empty).run steps
    lastWrite none (window steps) = some given ∧
      (p.step .capabilities).1 = .caps Caps.avx2Ready ∧
      (p.step .report).1 = .report ⟨⟨given, true⟩, .vector .avx2⟩ ∧
      ¬ Caps.avx2Ready.HoldsBaseline ∧ Caps.avx2Ready.Supports (.vector .avx2) := by
  intro steps given p
  have hinstalled : lastWrite none (window steps) = some given := by decide
  have hreport : (p.step .report).1 = .report ⟨⟨given, true⟩, .vector .avx2⟩ := by decide
  have hmissing : ¬ Caps.avx2Ready.HoldsBaseline := fun h =>
    absurd (h 0 (Caps.mem_baseline.mpr rfl)) (by decide)
  obtain ⟨inUse, k, ⟨-, hcaps, -, hreported, hgiven⟩, -, hsupports, -⟩ :=
    reported_as_installed (.ofWords false 0 0 0 0) .empty steps
  obtain rfl : inUse = given := hgiven _ hinstalled
  obtain rfl : k = .vector .avx2 :=
    congrArg DispatchReport.backend (Answer.report.inj (hreported.symm.trans hreport))
  exact ⟨hinstalled, hcaps, hreport, hmissing, hsupports.mpr fun hk => nomatch hk⟩

/-- An empty override is reported as it is: no baseline, beside the kernel that needs it. -/
theorem empty_override_hides_baseline :
    let given := Detected.ofCaps Caps.empty
    let p := (fresh .hosted (.ofWords false 0 0 0 0) .empty).run [.setOverride (some given)]
    ((p.step .detected).1 = .detected given ∧ (p.step .capabilities).1 = .caps Caps.empty ∧
        (p.step .describe).1 = .description ⟨given, true⟩ ∧
        (p.step .report).1 = .report ⟨⟨given, true⟩, .vector .sse2⟩) ∧
      ¬ Caps.empty.HoldsBaseline ∧ ¬ Caps.empty.Supports (.vector .sse2) := by
  have hmissing : ¬ Caps.empty.HoldsBaseline := fun h =>
    Caps.not_mem_empty (h 0 (Caps.mem_baseline.mpr rfl))
  -- The narrowest vector kernel requires the baseline and nothing else.
  exact ⟨⟨by decide, by decide, by decide, by decide⟩, hmissing, hmissing⟩

end Session
end AdaptiveAdler
