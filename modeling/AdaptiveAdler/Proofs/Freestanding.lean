import AdaptiveAdler.Proofs.Coherence
import AdaptiveAdler.Proofs.Window

/-! A freestanding session has no history.

Without a probe, a slot and an environment nothing is left that could differ between two
freestanding sessions or change in one: every step has the same answer whenever it is taken
(`freestanding_answers_alone`). A hosted session that was given no more than the baseline,
and no settings, has the same capabilities and the same engine; only those steps tell the
two apart that ask where the capabilities come from. -/
namespace AdaptiveAdler

/-- None of the variables that settings are read from is set. -/
def Environment.Unset (environment : Environment) : Prop :=
  environment.lookup Environment.forceVariable = none ∧
    environment.lookup Environment.thresholdVariable = none

theorem Environment.Unset.overrides_eq {environment : Environment} (h : environment.Unset) :
    environment.overrides = {} := by
  obtain ⟨hforce, hthreshold⟩ := h
  simp only [Environment.overrides, Environment.word?, Environment.text?, hforce, hthreshold]
  rfl

namespace Session

/-- The session chooses kernels by the baseline, and nothing is asked of it. -/
structure Plain (p : Session) : Prop where
  coherent : p.Coherent
  effective : p.effective = Caps.baseline
  overrides : p.overrides = {}

/-- Plain sessions give the same answers, whatever their builds and their histories. -/
theorem Plain.answer_eq {p q : Session} (hp : p.Plain) (hq : q.Plain) {s : Step}
    (hs : s.showsOrigin = false) : (p.step s).1 = (q.step s).1 :=
  answer_congr_of_effective hp.coherent hq.coherent hs (hp.effective.trans hq.effective.symm)
    fun _ => hp.overrides.trans hq.overrides.symm

/-! ### Freestanding sessions -/

section Freestanding
variable {p q : Session}

theorem detected_of_freestanding (h : p.build = .freestanding) :
    p.detected = .ofCaps Caps.baseline := by
  rw [detected, h]

theorem overridden_of_freestanding (h : p.build = .freestanding) : p.overridden = false := by
  rw [overridden, h]

theorem step_of_write_of_freestanding {s : Step} {w : Option Detected} (h : p.build = .freestanding)
    (hw : s.write? = some w) : p.step s = (s.refused .unsupported, p) := by
  have hopen : p.isOpen = false := by rw [isOpen, h]
  have hrefusal : p.refusal = .unsupported := by rw [refusal, h]
  rw [step_of_write hw, hopen, hrefusal]
  rfl

theorem plain_of_freestanding (hp : p.Coherent) (h : p.build = .freestanding) : p.Plain where
  coherent := hp
  effective := by
    rw [effective, capabilities, detected_of_freestanding h]
    exact Caps.union_eq_right fun _ => id
  overrides := by rw [overrides, h]

/-- No two states of freestanding sessions can be told apart by an answer. -/
theorem answer_of_freestanding (hp : p.Plain) (hq : q.Plain) (hpbuild : p.build = .freestanding)
    (hqbuild : q.build = .freestanding) (s : Step) : (p.step s).1 = (q.step s).1 := by
  have hdetected : p.detected = q.detected := by
    rw [detected_of_freestanding hpbuild, detected_of_freestanding hqbuild]
  have hdescription : p.description = q.description := by
    rw [description, description, hdetected, overridden_of_freestanding hpbuild,
      overridden_of_freestanding hqbuild]
  cases hw : s.write? with
  | some w =>
    rw [step_of_write_of_freestanding hpbuild hw, step_of_write_of_freestanding hqbuild hw]
  | none =>
    cases hshows : s.showsOrigin with
    | false => exact hp.answer_eq hq hshows
    | true =>
      cases s with
      | tryOverride | setOverride | overrideCaps | startWith | clearOverride => cases hw
      | hasOverride =>
        exact congrArg Answer.flag ((overridden_of_freestanding hpbuild).trans
          (overridden_of_freestanding hqbuild).symm)
      | detected => exact congrArg Answer.detected hdetected
      | architecture => simp only [step, hdetected]
      | capabilities => simp only [step, capabilities, hdetected]
      | describe => exact congrArg Answer.description hdescription
      | report =>
        have hbackend : p.backend = q.backend :=
          Answer.kernel.inj (hp.answer_eq hq (s := .backend) rfl)
        simp only [step, hdescription, hbackend]
      | _ => cases hshows

end Freestanding

/-- What a freestanding session answers to a step, in whatever state it is. -/
def alone (s : Step) : Answer :=
  ((fresh .freestanding (.ofWords false 0 0 0 0) .empty).step s).1

theorem plain_fresh (cpu : Cpu) (environment : Environment) :
    (fresh .freestanding cpu environment).Plain :=
  plain_of_freestanding (coherent_fresh ..) rfl

theorem answers_of_freestanding {p : Session} (hp : p.Plain) (hbuild : p.build = .freestanding)
    (steps : List Step) : p.answers steps = steps.map alone := by
  induction steps generalizing p with
  | nil => rfl
  | cons s rest ih =>
    -- Whatever the step does, what is left is a plain freestanding session.
    have hnext := (build_step p s).trans hbuild
    rw [answers, List.map_cons,
      ih (plain_of_freestanding (coherent_step hp.coherent s) hnext) hnext]
    exact congrArg (· :: rest.map alone)
      (answer_of_freestanding hp (plain_fresh ..) hbuild rfl s)

/-! ### Hosted sessions without settings -/

section Hosted
variable (cpu : Cpu) (environment : Environment) {steps : List Step}

variable {given : Detected}
  (hslot : ((fresh .hosted cpu environment).run steps).slot = some given)

include hslot in
/-- The slot of a hosted session says what is in use. -/
theorem detected_of_slot : ((fresh .hosted cpu environment).run steps).detected = given := by
  rw [slot_run] at hslot
  rw [detected_run, hslot, Option.getD_some]

theorem overrides_of_unset
    (hunset : ∀ n, ((steps.take n).foldl Step.setIn environment).Unset) :
    ((fresh .hosted cpu environment).run steps).overrides = {} := by
  rw [overrides_run, List.prefix_iff_eq_take.mp (List.takeWhile_prefix _)]
  exact (hunset _).overrides_eq

include hslot in
theorem plain_of_hosted
    (hunset : ∀ n, ((steps.take n).foldl Step.setIn environment).Unset)
    (hcaps : ∀ i, i ∈ given.caps → i ∈ Caps.baseline) :
    ((fresh .hosted cpu environment).run steps).Plain where
  coherent := coherent_run (coherent_fresh ..) steps
  effective := by
    rw [effective, capabilities, detected_of_slot cpu environment hslot]
    exact Caps.union_eq_right hcaps
  overrides := overrides_of_unset cpu environment hunset

end Hosted

/-- **A freestanding session answers each step alone**: on any processor, in any environment
and after any steps the answer is the same, so that no step shows in the answer to another.
Overrides are refused, each in its own way, and there never is one. The answers are those of
a hosted session that was given no more than the baseline before it asked its processor, and
in whose environment nothing is set at any time, apart from the answers that show where the
capabilities come from; and the family is the same if it is the one the library is built for. -/
theorem freestanding_answers_alone :
    (∀ cpu environment steps,
        (fresh .freestanding cpu environment).answers steps = steps.map alone) ∧
      (∀ s w, s.write? = some w → alone s = s.refused .unsupported) ∧
      alone .hasOverride = .flag false ∧
      ∀ cpu environment steps (given : Detected),
        let p := (fresh .hosted cpu environment).run steps
        (∀ n, ((steps.take n).foldl Step.setIn environment).Unset) →
          p.slot = some given → (∀ i, i ∈ given.caps → i ∈ Caps.baseline) →
          (∀ s, s.showsOrigin = false → (p.step s).1 = alone s) ∧
            (given.architecture = .current →
              (p.step .architecture).1 = alone .architecture) := by
  refine ⟨fun cpu environment => answers_of_freestanding (plain_fresh cpu environment) rfl,
    fun s w hw => ?_, rfl, fun cpu environment steps given => ?_⟩
  · rw [alone, step_of_write_of_freestanding rfl hw]
  · intro p hunset hslot hcaps
    have hplain : p.Plain := plain_of_hosted cpu environment hslot hunset hcaps
    refine ⟨fun s hs => hplain.answer_eq (plain_fresh ..) hs, fun hcurrent => ?_⟩
    show Answer.architecture p.detected.architecture = .architecture .current
    rw [detected_of_slot cpu environment hslot, hcurrent]

/-- A hosted session on a processor with every feature, told that there is none: it diagnoses
what a freestanding session diagnoses amid overrides and settings. -/
theorem alone_as_with_empty_override :
    let cpu := Cpu.ofWords false 0 0x10000000 0x40010020 0xE7
    let given := Detected.ofCaps Caps.empty
    let steps : List Step := [.overrideCaps (some Caps.empty), .update 1 ⟨[0x61], 0⟩]
    let p := (fresh .hosted cpu .empty).run steps
    let portable : List UInt8 := [0x70, 0x6F, 0x72, 0x74, 0x61, 0x62, 0x6C, 0x65]
    ((∀ n, ((steps.take n).foldl Step.setIn .empty).Unset) ∧ p.slot = some given ∧
        (∀ i, i ∈ given.caps → i ∈ Caps.baseline) ∧ given.architecture = .current ∧
        (Step.diagnose 64).showsOrigin = false ∧ Step.write? .clearOverride = some none) ∧
      (p.step (.diagnose 64)).1 = alone (.diagnose 64) ∧
      (p.step .architecture).1 = alone .architecture ∧
      alone .clearOverride = .fault (.overrideRefused .unsupported) ∧
      (fresh .freestanding cpu .empty).answers
          [.setVariable Environment.forceVariable (some portable), .clearOverride,
            .diagnose 64] =
        [.silence, .fault (.overrideRefused .unsupported), (p.step (.diagnose 64)).1] := by
  intro cpu given steps p portable
  have hunset (n : Nat) : ((steps.take n).foldl Step.setIn .empty).Unset := by
    rcases n with _ | _ | n
    · exact ⟨rfl, rfl⟩
    · exact ⟨rfl, rfl⟩
    · rw [List.take_of_length_le (Nat.le_add_left 2 n)]
      exact ⟨rfl, rfl⟩
  have hslot : p.slot = some given := rfl
  have hcaps : ∀ i, i ∈ given.caps → i ∈ Caps.baseline := fun _ h => absurd h Caps.not_mem_empty
  obtain ⟨hanswers, hrefused, -, hhosted⟩ := freestanding_answers_alone
  obtain ⟨hsteps, hfamily⟩ := hhosted cpu .empty steps given hunset hslot hcaps
  have hsame := hsteps (.diagnose 64) rfl
  have hclear := hrefused .clearOverride none rfl
  refine ⟨⟨hunset, hslot, hcaps, rfl, rfl, rfl⟩, hsame, hfamily rfl, hclear, ?_⟩
  rw [hanswers, hsame]
  exact congrArg (fun a => [.silence, a, alone (.diagnose 64)]) hclear

end Session
end AdaptiveAdler
