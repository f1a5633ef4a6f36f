import AdaptiveAdler.Proofs.Choice
import AdaptiveAdler.Proofs.Coherence

/-! A diagnosis explains the kernel that runs.

A diagnosis takes its reason from a configuration computed afresh, and its kernel from the
cells of the session. They belong together: the reason given is why the kernel is the one
named (`Diagnosis.Explains`), in whatever state the session is and whichever cells are
filled, and an update of that length runs just this kernel (`diagnosis_explains_update`). -/
namespace AdaptiveAdler

/-- The widest vector kernel of those allowed, or the portable kernel if none is allowed. -/
def Kernel.IsWidestOf (allowed : Extension → Prop) : Kernel → Prop
  | bytewise => False
  | portable => ∀ e, ¬ allowed e
  | vector e => allowed e ∧ ∀ other, allowed other → other.width ≤ e.width

namespace Diagnosis

/-- The flag of the extension says that its kernel can run. -/
def Allows (d : Diagnosis) (e : Extension) : Prop := (e, true) ∈ Extension.all.zip d.runnable

/-- The fields of a diagnosis bear each other out. -/
structure Explains (d : Diagnosis) : Prop where
  effective : d.effective = d.requested ∨ d.effective = .auto
  forced_iff : d.reason = .forced ↔ d.effective ≠ .auto
  forced : d.reason = .forced → d.effective.kernel? = some d.kernel ∧ d.threshold = 0
  below_iff : d.reason = .belowThreshold ↔ d.effective = .auto ∧ d.length < d.threshold
  below : d.reason = .belowThreshold → d.kernel = .portable
  auto_iff : d.reason = .auto ↔ d.effective = .auto ∧ d.threshold ≤ d.length
  auto : d.reason = .auto → d.kernel.IsWidestOf d.Allows
  sound : ∀ e, d.kernel = .vector e → d.Allows e

end Diagnosis

/-! ### Reasons -/

namespace Config
variable {c : Config} {length : Nat}

/-- Each reason has its own condition. -/
theorem reason_cases (c : Config) (length : Nat) :
    (c.reason length = .forced ∧ c.effective ≠ .auto) ∨
      (c.reason length = .belowThreshold ∧ c.effective = .auto ∧ length < c.threshold) ∨
      (c.reason length = .auto ∧ c.effective = .auto ∧ c.threshold ≤ length) := by
  rw [reason]
  split
  · next hforced => exact .inl ⟨rfl, hforced⟩
  · next hnot =>
    have hauto : c.effective = .auto := Decidable.of_not_not hnot
    split
    · next hlt => exact .inr (.inl ⟨rfl, hauto, hlt⟩)
    · next hle => exact .inr (.inr ⟨rfl, hauto, Nat.le_of_not_lt hle⟩)

theorem reason_eq_forced_iff : c.reason length = .forced ↔ c.effective ≠ .auto := by
  rcases c.reason_cases length with ⟨hreason, h⟩ | ⟨hreason, h, -⟩ | ⟨hreason, h, -⟩ <;>
    simp [hreason, h]

theorem reason_eq_belowThreshold_iff :
    c.reason length = .belowThreshold ↔ c.effective = .auto ∧ length < c.threshold := by
  rcases c.reason_cases length with ⟨hreason, h⟩ | ⟨hreason, h⟩ | ⟨hreason, h, hle⟩
  · simp [hreason, h]
  · exact iff_of_true hreason h
  · simp [hreason, Nat.not_lt_of_le hle]

theorem reason_eq_auto_iff :
    c.reason length = .auto ↔ c.effective = .auto ∧ c.threshold ≤ length := by
  rcases c.reason_cases length with ⟨hreason, h⟩ | ⟨hreason, h, hlt⟩ | ⟨hreason, h⟩
  · simp [hreason, h]
  · simp [hreason, Nat.not_le_of_lt hlt]
  · exact iff_of_true hreason h

end Config

namespace Engine
variable (e : Engine) {length : Nat}

theorem kernelFor_of_lt (h : length < e.threshold) : e.kernelFor length = .portable := if_pos h

theorem kernelFor_of_le (h : e.threshold ≤ length) : e.kernelFor length = e.kernel :=
  if_neg (Nat.not_lt_of_le h)

end Engine

/-! ### The diagnosis for a choice -/

section Choice
variable {caps : Caps} {asked : Overrides} {length : Nat}

/-- A request is in effect exactly if it can be met. -/
theorem effective_ne_auto_iff :
    (Config.resolve caps asked).effective ≠ .auto ↔ asked.force.CanBeMet caps := by
  by_cases h : asked.force.CanBeMet caps
  · rw [ne_eq, ← Force.kernel?_eq_none_iff, resolve_of_canBeMet h, chooseKernel_of_canBeMet h]
    exact iff_of_true (Option.some_ne_none _) h
  · rw [resolve_of_not_canBeMet h]
    exact iff_of_false (fun hne => hne rfl) h

theorem kernelFor_choose_of_canBeMet (h : asked.force.CanBeMet caps) :
    (Engine.choose caps asked).kernelFor length = chooseKernel caps (Config.resolve caps asked) := by
  have hzero : (Engine.choose caps asked).threshold = 0 :=
    congrArg Config.threshold (resolve_of_canBeMet h)
  exact Engine.kernelFor_of_le _ (hzero ▸ Nat.zero_le length)

theorem sound_kernelFor_choose : (Engine.choose caps asked).kernelFor length = .portable ∨
    caps.Supports ((Engine.choose caps asked).kernelFor length) := by
  rcases Nat.lt_or_ge length (Engine.choose caps asked).threshold with h | h
  · exact .inl (Engine.kernelFor_of_lt _ h)
  · rw [Engine.kernelFor_of_le _ h]
    exact sound_chooseKernel caps asked

theorem allows_diagnose {config : Config} {engine : Engine} {e : Extension} :
    (diagnose caps config engine length).Allows e ↔ caps.Supports (.vector e) := by
  have hflags : Extension.all.zip (Extension.all.map fun e => caps.has e.requires) =
      Extension.all.map fun e => (e, caps.has e.requires) := rfl
  rw [Diagnosis.Allows, runnable_diagnose, hflags, List.mem_map, Caps.supports_iff]
  constructor
  · rintro ⟨other, -, hflag⟩
    obtain ⟨rfl, hhas⟩ := Prod.mk.inj hflag
    exact hhas
  · intro hhas
    exact ⟨e, e.mem_all, congrArg (Prod.mk e) hhas⟩

theorem isWidestOf_allows_diagnose {config : Config} {engine : Engine} {k : Kernel}
    (h : k.IsWidest caps) : k.IsWidestOf (diagnose caps config engine length).Allows := by
  cases k with
  | bytewise => exact h
  | portable => exact fun e he => h e (allows_diagnose.mp he)
  | vector e =>
    exact ⟨allows_diagnose.mpr h.1, fun other hother => h.2 other (allows_diagnose.mp hother)⟩

/-- The diagnosis for the engine that is chosen for a set and a request explains the choice. -/
theorem explains_diagnose :
    (diagnose caps (Config.resolve caps asked) (Engine.choose caps asked) length).Explains where
  effective := by
    by_cases h : asked.force.CanBeMet caps
    · exact .inl (by rw [resolve_of_canBeMet h]; rfl)
    · exact .inr (by rw [resolve_of_not_canBeMet h]; rfl)
  forced_iff := Config.reason_eq_forced_iff
  forced hreason := by
    have hmet : asked.force.CanBeMet caps :=
      effective_ne_auto_iff.mp (Config.reason_eq_forced_iff.mp hreason)
    have hconfig := resolve_of_canBeMet hmet
    refine ⟨?_, congrArg Config.threshold hconfig⟩
    show (Config.resolve caps asked).effective.kernel? =
      some ((Engine.choose caps asked).kernelFor length)
    rw [kernelFor_choose_of_canBeMet hmet, ← chooseKernel_of_canBeMet hmet, hconfig]
  below_iff := Config.reason_eq_belowThreshold_iff
  below hreason := Engine.kernelFor_of_lt _ (Config.reason_eq_belowThreshold_iff.mp hreason).2
  auto_iff := Config.reason_eq_auto_iff
  auto hreason := by
    obtain ⟨hauto, hle⟩ := Config.reason_eq_auto_iff.mp hreason
    have hunmet : ¬ asked.force.CanBeMet caps := fun h => effective_ne_auto_iff.mpr h hauto
    apply isWidestOf_allows_diagnose
    show ((Engine.choose caps asked).kernelFor length).IsWidest caps
    rw [Engine.kernelFor_of_le _ hle]
    exact isWidest_chooseKernel hunmet
  sound e he := by
    have hkernel : (Engine.choose caps asked).kernelFor length = .vector e := he
    rcases sound_kernelFor_choose with hportable | hsupports
    · rw [hkernel] at hportable
      cases hportable
    · rw [hkernel] at hsupports
      exact allows_diagnose.mpr hsupports

/-- Where a kernel is forced, the length is all that differs between two diagnoses. -/
theorem diagnose_of_canBeMet (h : asked.force.CanBeMet caps) (other : Nat) :
    diagnose caps (Config.resolve caps asked) (Engine.choose caps asked) other =
      { diagnose caps (Config.resolve caps asked) (Engine.choose caps asked) length with
        length := other } := by
  have hforced (n : Nat) : (Config.resolve caps asked).reason n = .forced :=
    Config.reason_eq_forced_iff.mpr (effective_ne_auto_iff.mpr h)
  simp only [diagnose, hforced, kernelFor_choose_of_canBeMet h]

end Choice

namespace Session

/-- A session diagnoses the engine that would be chosen anew. -/
theorem Coherent.diagnose_eq {p : Session} (h : p.Coherent) (length : Nat) :
    (p.step (.diagnose length)).1 = .diagnosis (AdaptiveAdler.diagnose p.effective
      (Config.resolve p.effective p.overrides) (Engine.choose p.effective p.overrides) length) := by
  rw [← h.engine_eq]
  rfl

/-- **A diagnosis explains the kernel that runs**, for any length and in any state of a session
of either build. Its fields bear each other out; a forced kernel is diagnosed for every length
alike; and an update of that length, in the same state, is done by the kernel diagnosed. -/
theorem diagnosis_explains_update (build : Build) (cpu : Cpu) (environment : Environment)
    (steps : List Step) (length : Nat) :
    let p := (fresh build cpu environment).run steps
    ∃ d : Diagnosis, (p.step (.diagnose length)).1 = .diagnosis d ∧ d.length = length ∧
      d.Explains ∧
      (d.reason = .forced → ∀ other,
        (p.step (.diagnose other)).1 = .diagnosis {d with length := other}) ∧
      ∀ digest b, b.size = length →
        ∃ after, (p.step (.update digest b)).1 = .update ⟨d.kernel, after⟩ := by
  intro p
  have hcoherent : p.Coherent := coherent_run (coherent_fresh build cpu environment) steps
  refine ⟨_, hcoherent.diagnose_eq length, rfl, explains_diagnose, fun hreason other => ?_,
    fun digest b hsize => ?_⟩
  · have hmet : p.overrides.force.CanBeMet p.effective :=
      effective_ne_auto_iff.mp (Config.reason_eq_forced_iff.mp hreason)
    rw [hcoherent.diagnose_eq other, diagnose_of_canBeMet hmet other]
  · obtain ⟨after, hupdate⟩ := hcoherent.answersBy.update digest b
    exact ⟨after, hsize ▸ hupdate⟩

/-- A kernel forced by a setting that is read before it is taken back: three bytes and seventy
have the same diagnosis, and the three bytes are summed by that kernel. -/
theorem diagnosis_of_forced_kernel :
    let avx2 : List UInt8 := [0x61, 0x76, 0x78, 0x32]
    let b : Buffer := ⟨[0x61, 0x62, 0x63], 0⟩
    let steps : List Step :=
      [.setVariable Environment.forceVariable (some avx2), .startWith Caps.avx2Ready, .choice,
        .setVariable Environment.forceVariable none]
    let p := (fresh .hosted (.ofWords false 0 0 0 0) .empty).run steps
    let d : Diagnosis := ⟨3, .forced, .vector .avx2, .vector .avx2, .vector .avx2, 0,
      [true, true, false]⟩
    (d.reason = .forced ∧ b.size = 3) ∧ (p.step (.diagnose 3)).1 = .diagnosis d ∧
      (p.step (.diagnose 70)).1 = .diagnosis {d with length := 70} ∧
      ∃ after, (p.step (.update 1 b)).1 = .update ⟨.vector .avx2, after⟩ := by
  intro avx2 b steps p d
  have hdiagnosis : (p.step (.diagnose 3)).1 = .diagnosis d := by decide
  obtain ⟨found, hfound, -, -, hsame, hupdate⟩ :=
    diagnosis_explains_update .hosted (.ofWords false 0 0 0 0) .empty steps 3
  obtain rfl : found = d := Answer.diagnosis.inj (hfound.symm.trans hdiagnosis)
  exact ⟨⟨rfl, rfl⟩, hdiagnosis, hsame rfl 70, hupdate 1 b rfl⟩

end Session
end AdaptiveAdler
