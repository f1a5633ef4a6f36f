import AdaptiveAdler.Proofs.Requirements
import AdaptiveAdler.Selection.Ladder

/-! The choice of a kernel is sound and as wide as it can be.

Whatever is asked for, the kernel chosen for a capability set is one that the set
supports, or the portable one. A request that can be met is met, for every length
(`resolve_of_canBeMet`); any other counts as none, and then no vector kernel that the
set supports is wider than the one chosen (`isWidest_widest`). A request is clamped, a
kernel forced and a rung found by the same requirements, so a set that holds only part of
a requirement never leads to the kernel. -/
namespace AdaptiveAdler

/-- The size of a vector register in bits. -/
def Extension.width : Extension → Nat
  | sse2 => 128
  | avx2 => 256
  | avx512bw => 512

/-- A set supports a kernel if it holds every capability that the kernel requires. -/
def Caps.Supports (caps : Caps) (k : Kernel) : Prop := ∀ i, i ∈ k.requires → i ∈ caps

/-- The widest vector kernel that a set supports, or the portable kernel if it supports none. -/
def Kernel.IsWidest (caps : Caps) : Kernel → Prop
  | bytewise => False
  | portable => ∀ e, ¬ caps.Supports (vector e)
  | vector e => caps.Supports (vector e) ∧
      ∀ other, caps.Supports (vector other) → other.width ≤ e.width

/-- The request names the portable kernel, or one that the set supports. -/
def Force.CanBeMet (caps : Caps) (f : Force) : Prop :=
  ∃ k, f.kernel? = some k ∧ (k = .portable ∨ caps.Supports k)

/-! ### The ladder -/

theorem Caps.supports_iff {caps : Caps} {k : Kernel} :
    caps.Supports k ↔ caps.has k.requires = true :=
  Caps.has_iff.symm

/-- Every rung is narrower than those before it. -/
theorem ladder_descends :
    Extension.all.reverse.Pairwise fun e other => other.width ≤ e.width := by
  decide

theorem widest?_eq (caps : Caps) :
    widest? caps =
      (Extension.all.reverse.find? fun e => caps.has e.requires).map Kernel.vector := by
  rw [widest?, select, ladder_eq, List.find?_map, Option.map_map, Option.map_map]
  rfl

/-- The first rung that a set supports is the widest one. -/
theorem isWidest_widest (caps : Caps) : ((widest? caps).getD .portable).IsWidest caps := by
  rw [widest?_eq]
  cases h : Extension.all.reverse.find? fun e => caps.has e.requires with
  | none =>
    intro e he
    exact List.find?_eq_none.mp h e (List.mem_reverse.mpr e.mem_all) (Caps.supports_iff.mp he)
  | some e =>
    obtain ⟨he, before, after, hsplit, hbefore⟩ := List.find?_eq_some_iff_append.mp h
    refine ⟨Caps.supports_iff.mpr he, fun other hother => ?_⟩
    have hsorted := ladder_descends
    have hmem := List.mem_reverse.mpr other.mem_all
    rw [hsplit] at hsorted hmem
    rcases List.mem_append.mp hmem with hskipped | hrest
    · -- The rungs above the one found are not supported.
      have hhas : caps.has other.requires = true := Caps.supports_iff.mp hother
      have hnot := hbefore other hskipped
      rw [hhas] at hnot
      exact absurd hnot (by decide)
    · rcases List.mem_cons.mp hrest with rfl | hlower
      · exact Nat.le_refl _
      · exact List.rel_of_pairwise_cons (List.pairwise_append.mp hsorted).2.1 hlower

theorem Kernel.IsWidest.sound {caps : Caps} {k : Kernel} (h : k.IsWidest caps) :
    k = .portable ∨ caps.Supports k := by
  cases k with
  | bytewise => exact h.elim
  | portable => exact .inl rfl
  | vector e => exact .inr h.1

/-! ### Requests -/

theorem Force.kernel?_eq_none_iff {f : Force} : f.kernel? = none ↔ f = .auto := by
  cases f <;> simp [kernel?]

theorem Force.kernel?_eq_portable_iff {f : Force} : f.kernel? = some .portable ↔ f = .portable := by
  cases f <;> simp [kernel?]

/-- A request requires what the kernel it names requires. -/
theorem Force.requires_eq {f : Force} {k : Kernel} (h : f.kernel? = some k) :
    f.requires = k.requires := by
  cases f with
  | auto => cases h
  | portable => cases h; rfl
  | vector e => cases h; exact requires_vector e

theorem Caps.supports_portable (caps : Caps) : caps.Supports .portable :=
  fun _ h => absurd h Caps.not_mem_empty

section Resolve
variable {caps : Caps} {asked : Overrides}

/-- A request that can be met is met, and the kernel it names takes every length. -/
theorem resolve_of_canBeMet (h : asked.force.CanBeMet caps) :
    Config.resolve caps asked = ⟨asked.force, asked.force, 0⟩ := by
  obtain ⟨k, hk, hsupported⟩ := h
  have hsupports : caps.Supports k := by
    rcases hsupported with rfl | hsupports
    · exact caps.supports_portable
    · exact hsupports
  have hclamp : asked.force.clamp caps = asked.force := by
    rw [Force.clamp, Force.requires_eq hk, if_pos (Caps.supports_iff.mp hsupports)]
  have hauto : asked.force ≠ .auto := by
    rw [ne_eq, ← Force.kernel?_eq_none_iff, hk]
    exact Option.some_ne_none k
  simp only [Config.resolve, hclamp, Config.thresholdFor, if_neg hauto]

/-- Any other request counts as none. -/
theorem resolve_of_not_canBeMet (h : ¬ asked.force.CanBeMet caps) :
    Config.resolve caps asked =
      ⟨asked.force, .auto, asked.threshold.getD defaultThreshold⟩ := by
  have hclamp : asked.force.clamp caps = .auto := by
    rw [Force.clamp]
    split
    · next hhas =>
      cases hk : asked.force.kernel? with
      | none => exact Force.kernel?_eq_none_iff.mp hk
      | some k =>
        rw [Force.requires_eq hk] at hhas
        exact absurd ⟨k, hk, .inr (Caps.supports_iff.mpr hhas)⟩ h
    · rfl
  simp only [Config.resolve, hclamp, Config.thresholdFor, if_true]

theorem chooseKernel_of_canBeMet (h : asked.force.CanBeMet caps) :
    asked.force.kernel? = some (chooseKernel caps (Config.resolve caps asked)) := by
  rw [resolve_of_canBeMet h]
  obtain ⟨k, hk, -⟩ := h
  rw [chooseKernel, hk]
  rfl

theorem isWidest_chooseKernel (h : ¬ asked.force.CanBeMet caps) :
    (chooseKernel caps (Config.resolve caps asked)).IsWidest caps := by
  rw [resolve_of_not_canBeMet h]
  exact isWidest_widest caps

theorem sound_chooseKernel (caps : Caps) (asked : Overrides) :
    chooseKernel caps (Config.resolve caps asked) = .portable ∨
      caps.Supports (chooseKernel caps (Config.resolve caps asked)) := by
  by_cases h : asked.force.CanBeMet caps
  · have hchosen := chooseKernel_of_canBeMet h
    obtain ⟨k, hk, hsupported⟩ := h
    rw [hk, Option.some.injEq] at hchosen
    rwa [← hchosen]
  · exact (isWidest_chooseKernel h).sound

end Resolve

/-- **The choice of a kernel is sound and as wide as it can be**, for any capabilities and
any request: the set supports the kernel or it is the portable one; a request that can be
met is met, for every length; any other counts as none, and then the kernel is the widest
that the set supports. So on a set that holds the baseline the portable kernel is never
chosen unless it is asked for. -/
theorem choice_is_sound_and_widest (caps : Caps) (asked : Overrides) :
    let config := Config.resolve caps asked
    let k := chooseKernel caps config
    (k = .portable ∨ caps.Supports k) ∧
      (asked.force.CanBeMet caps →
        config.effective = asked.force ∧ asked.force.kernel? = some k ∧ config.threshold = 0) ∧
      (¬ asked.force.CanBeMet caps →
        config.effective = .auto ∧ k.IsWidest caps ∧
          config.threshold = asked.threshold.getD defaultThreshold) ∧
      ((∀ i, i ∈ Caps.baseline → i ∈ caps) → k = .portable → asked.force = .portable) := by
  intro config k
  refine ⟨sound_chooseKernel caps asked, fun h => ?_, fun h => ?_, fun hbaseline hk => ?_⟩
  · have hresolve : config = ⟨asked.force, asked.force, 0⟩ := resolve_of_canBeMet h
    exact ⟨by rw [hresolve], chooseKernel_of_canBeMet h, by rw [hresolve]⟩
  · have hresolve : config = ⟨asked.force, .auto, asked.threshold.getD defaultThreshold⟩ :=
      resolve_of_not_canBeMet h
    exact ⟨by rw [hresolve], isWidest_chooseKernel h, by rw [hresolve]⟩
  · by_cases h : asked.force.CanBeMet caps
    · have hchosen : asked.force.kernel? = some k := chooseKernel_of_canBeMet h
      rw [hk] at hchosen
      exact Force.kernel?_eq_portable_iff.mp hchosen
    · -- The baseline is what the narrowest vector kernel requires.
      have hwidest : k.IsWidest caps := isWidest_chooseKernel h
      rw [hk] at hwidest
      exact absurd hbaseline (hwidest .sse2)

/-- A set that holds parts of both wider requirements: the widest kernel cannot be forced,
and the one found instead is not portable; the narrowest can be forced. -/
theorem choice_with_partial_requirements :
    let caps : Caps := Caps.sse2 ∪ Caps.avx2 ∪ Caps.avx512f
    let unmet : Overrides := ⟨.vector .avx512bw, some 100⟩
    let met : Overrides := ⟨.vector .sse2, some 100⟩
    (¬ unmet.force.CanBeMet caps ∧ met.force.CanBeMet caps ∧ ∀ i, i ∈ Caps.baseline → i ∈ caps) ∧
      (Config.resolve caps unmet).effective = .auto ∧
      (Config.resolve caps unmet).threshold = 100 ∧
      (chooseKernel caps (Config.resolve caps unmet)).IsWidest caps ∧
      chooseKernel caps (Config.resolve caps unmet) ≠ .portable ∧
      chooseKernel caps (Config.resolve caps met) = .vector .sse2 ∧
      (Config.resolve caps met).threshold = 0 := by
  intro caps unmet met
  have hunmet : ¬ unmet.force.CanBeMet caps := by
    rintro ⟨k, hk, hsupported⟩
    cases hk
    rcases hsupported with hk | hsupports
    · cases hk
    · exact absurd (Caps.supports_iff.mp hsupports) (by decide)
  have hmet : met.force.CanBeMet caps :=
    ⟨.vector .sse2, rfl, .inr (Caps.supports_iff.mpr (by decide))⟩
  have hbaseline : ∀ i, i ∈ Caps.baseline → i ∈ caps := Caps.has_iff.mp (by decide)
  obtain ⟨-, -, hfound, hportable⟩ := choice_is_sound_and_widest caps unmet
  obtain ⟨-, hforced, -, -⟩ := choice_is_sound_and_widest caps met
  obtain ⟨heffective, hwidest, hthreshold⟩ := hfound hunmet
  obtain ⟨-, hkernel, hzero⟩ := hforced hmet
  exact ⟨⟨hunmet, hmet, hbaseline⟩, heffective, hthreshold, hwidest,
    fun hk => absurd (hportable hbaseline hk) (by decide), (Option.some.inj hkernel).symm, hzero⟩

end AdaptiveAdler
