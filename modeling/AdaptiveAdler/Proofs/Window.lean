import AdaptiveAdler.Proofs.Effects

/-! The window in which capabilities can be overridden.

A hosted session takes overrides until a step first asks what its processor can run. That
step fixes the capabilities and their family to the last override, or to what is found in the
environment of that moment if there is none; every override after it is refused and changes
nothing. So the slot says for ever where the capabilities in use came from
(`override_window`). -/
namespace AdaptiveAdler.Session

/-- The steps before the first one that consults detection. -/
def window (steps : List Step) : List Step := steps.takeWhile fun s => !s.consults

/-- The last override among the steps, or what the slot held before them. -/
def lastWrite (slot : Option Detected) (steps : List Step) : Option Detected :=
  (steps.filterMap Step.write?).getLast?.getD slot

theorem lastWrite_cons (slot : Option Detected) (s : Step) (rest : List Step) :
    lastWrite slot (s :: rest) = lastWrite (s.written slot) rest := by
  cases h : s.write? with
  | none => rw [lastWrite, List.filterMap_cons_none h, Step.written, h]; rfl
  | some w =>
    rw [lastWrite, List.filterMap_cons_some h, List.getLast?_cons, Step.written, h]
    rfl

theorem not_consults_of_mem_window {steps : List Step} {s : Step} (h : s ∈ window steps) :
    s.consults = false := by
  have hquiet := List.all_eq_true.mp List.all_takeWhile s h
  rwa [Bool.not_eq_true'] at hquiet

/-- Until a step consults detection there is none, and the slot holds the last override. -/
theorem run_of_not_consults {p : Session} {steps : List Step} (hbuild : p.build = .hosted)
    (hempty : p.detection.value? = none) (hquiet : ∀ s ∈ steps, s.consults = false) :
    (p.run steps).detection.value? = none ∧ (p.run steps).slot = lastWrite p.slot steps := by
  induction steps generalizing p with
  | nil => exact ⟨hempty, rfl⟩
  | cons s rest ih =>
    have hs : s.consults = false := hquiet s List.mem_cons_self
    have hnext : (p.step s).2.detection.value? = none := by
      rw [detection_step hbuild, hs]
      exact hempty
    have hslot : (p.step s).2.slot = s.written p.slot := by
      rw [slot_step, isOpen, hbuild, hempty]
      rfl
    rw [lastWrite_cons, ← hslot]
    exact ih ((build_step p s).trans hbuild) hnext
      fun other hother => hquiet other (List.mem_cons_of_mem s hother)

/-- Once what is in use has been asked for, no step changes it or the slot. -/
theorem run_of_consulted {p : Session} (hbuild : p.build = .hosted) (h : p.Consulted)
    (later : List Step) :
    (p.run later).slot = p.slot ∧ (p.run later).detection.value? = some p.detected := by
  obtain ⟨hlater, hsame⟩ := freezes_detected.run_of_frozen h later
  refine ⟨(freezes_slot.run_of_frozen h later).2, ?_⟩
  rw [hlater ((build_run p later).trans hbuild), hsame]

section Fresh
variable (cpu : Cpu) (environment : Environment) (steps : List Step)

theorem run_window :
    let p := (fresh .hosted cpu environment).run (window steps)
    p.detection.value? = none ∧ p.slot = lastWrite none (window steps) :=
  run_of_not_consults rfl rfl fun _ hs => not_consults_of_mem_window hs

theorem slot_run : ((fresh .hosted cpu environment).run steps).slot =
    lastWrite none (window steps) := by
  rw [freezes_slot.view_run]
  exact (run_window cpu environment steps).2

/-- What is in use is the last override in the window, or what was found in the environment
at its end. -/
theorem detected_run : ((fresh .hosted cpu environment).run steps).detected =
    (lastWrite none (window steps)).getD
      (.ofCaps (cpu.detect ((window steps).foldl Step.setIn environment).keepsWide)) := by
  obtain ⟨hempty, hslot⟩ := run_window cpu environment steps
  have hstays : ((fresh .hosted cpu environment).run steps).detected =
      ((fresh .hosted cpu environment).run (window steps)).detected :=
    freezes_detected.view_run _ steps
  rw [hstays, detected_of_hosted (build_run _ _), WriteOnce.deliver, hempty, hslot, probe,
    cpu_run, environment_run]
  rfl

theorem detection_run : ((fresh .hosted cpu environment).run steps).detection.value? =
    if steps.any Step.consults then
      some ((fresh .hosted cpu environment).run steps).detected
    else none :=
  backs_detected.value?_run rfl rfl steps

/-- The step that consults detection is the one that fills the cell. -/
theorem detection_step_run (s : Step) :
    let p := (fresh .hosted cpu environment).run steps
    (p.step s).2.detection.value? =
      if steps.any Step.consults || s.consults then some p.detected else none := by
  intro p
  have hbuild : p.build = .hosted := build_run _ _
  rw [detection_step hbuild]
  cases hs : s.consults with
  | true => rw [if_pos rfl, Bool.or_true, if_pos rfl, fill_detected hbuild]
  | false =>
    rw [Bool.or_false]
    exact detection_run cpu environment steps

theorem overridden_run : ((fresh .hosted cpu environment).run steps).overridden =
    (lastWrite none (window steps)).isSome := by
  rw [overridden, build_run, slot_run]
  rfl

theorem isOpen_run : ((fresh .hosted cpu environment).run steps).isOpen =
    !steps.any Step.consults := by
  rw [isOpen, build_run, detection_run]
  cases steps.any Step.consults <;> rfl

end Fresh

/-! ### Steps that leave the window open -/

/-- Steps that have nothing to ask of the processor, though the last two run a kernel. -/
inductive Step.Quiet : Step → Prop
  | setVariable (name : String) (value : Option (List UInt8)) : Quiet (.setVariable name value)
  | hasOverride : Quiet .hasOverride
  | configFor (caps : Caps) : Quiet (.configFor caps)
  | lookup {k : Kernel} (hk : k = .bytewise ∨ k = .portable) {called : String}
      (hcalled : k.answersTo called = true) (digest : UInt32) (b : Buffer) :
      Quiet (.lookup called digest b)
  | accumulate (s : Sums) (chunk : List UInt8) : Quiet (.accumulate .sse2 s chunk)

theorem consults_lookup (called : String) (digest : UInt32) (b : Buffer) :
    (Step.lookup called digest b).consults = Inventory.asksProcessor called := by
  rw [Step.consults, Step.reading]
  cases Inventory.asksProcessor called <;> rfl

theorem Step.Quiet.consults {s : Step} (h : s.Quiet) : s.consults = false := by
  cases h with
  | lookup hk hcalled =>
    rw [consults_lookup, Inventory.asksProcessor]
    rcases hk with rfl | rfl
    · rw [hcalled]; rfl
    · rw [hcalled, Bool.or_true]; rfl
  | _ => rfl

/-- A name that no kernel answers to is still looked for among those that can run. -/
theorem consults_of_unknown {called : String} (h : Kernel.named? called = none)
    (digest : UInt32) (b : Buffer) : (Step.lookup called digest b).consults = true := by
  have hnone := List.find?_eq_none.mp h
  have hbytewise := hnone .bytewise (by decide)
  have hportable := hnone .portable (by decide)
  rw [consults_lookup, Inventory.asksProcessor]
  simp only [Bool.not_eq_true] at hbytewise hportable
  rw [hbytewise, hportable]
  rfl

/-- **The window for overrides.** In whatever state a hosted session is, its slot holds the
last override before the first step that consulted detection, and in use is that override,
capabilities and family, or what was found in the environment of that step. An override is
taken until then; afterwards it is refused, in its own way, and changes nothing. So the slot
tells at any time where the capabilities come from. -/
theorem override_window (cpu : Cpu) (environment : Environment) (steps : List Step) :
    let p := (fresh .hosted cpu environment).run steps
    let closed := steps.any Step.consults
    let installed := lastWrite none (window steps)
    let found := Detected.ofCaps
      (cpu.detect ((window steps).foldl Step.setIn environment).keepsWide)
    let inUse := installed.getD found
    (p.slot = installed ∧ p.detection.value? = if closed then some inUse else none) ∧
      (∀ s w, s.write? = some w →
        p.step s =
          if closed then (s.refused .alreadyDetected, p) else (.done, {p with slot := w})) ∧
      ((p.step .hasOverride).1 = .flag installed.isSome ∧
        (p.step .describe).1 = .description ⟨inUse, installed.isSome⟩ ∧
        (p.step .detected).1 = .detected inUse ∧
        (p.step .capabilities).1 = .caps inUse.caps ∧
        (p.step .architecture).1 = .architecture inUse.architecture) ∧
      (closed = true → ∀ later, (p.run later).slot = installed ∧
        (p.run later).detection.value? = some inUse) ∧
      (∀ s, (p.step s).2.detection.value? = if closed || s.consults then some inUse else none) ∧
      (∀ s : Step, s.Quiet → s.consults = false) ∧
      ∀ called digest b, Kernel.named? called = none →
        (Step.lookup called digest b).consults = true := by
  intro p closed installed found inUse
  have hbuild : p.build = .hosted := build_run _ _
  have hdetected : p.detected = inUse := detected_run cpu environment steps
  have hdetection : p.detection.value? = if closed then some inUse else none := by
    rw [← hdetected]
    exact detection_run cpu environment steps
  have hslot : p.slot = installed := slot_run cpu environment steps
  have hoverridden : p.overridden = installed.isSome := overridden_run cpu environment steps
  refine ⟨⟨hslot, hdetection⟩, fun s w hw => ?_, ⟨?_, ?_, ?_, ?_, ?_⟩, fun hclosed later => ?_,
    fun s => ?_, fun s hs => hs.consults, fun called digest b hnone =>
      consults_of_unknown hnone digest b⟩
  · have hopen : p.isOpen = !closed := isOpen_run cpu environment steps
    have hrefusal : p.refusal = .alreadyDetected := by rw [refusal, hbuild]
    rw [step_of_write hw, hopen, hrefusal]
    cases closed <;> rfl
  · exact congrArg Answer.flag hoverridden
  · show Answer.description ⟨p.detected, p.overridden⟩ = _
    rw [hdetected, hoverridden]
  · exact congrArg Answer.detected hdetected
  · exact congrArg (fun d : Detected => Answer.caps d.caps) hdetected
  · exact congrArg (fun d : Detected => Answer.architecture d.architecture) hdetected
  · have hconsulted : p.Consulted := freezes_detected.frozen_run _ hclosed
    rw [← hslot, ← hdetected]
    exact run_of_consulted hbuild hconsulted later
  · rw [← hdetected]
    exact detection_step_run cpu environment steps s

/-- Two overrides, the last one of another family, and then two names looked up: the portable
kernel leaves the window open, the name of no kernel closes it. -/
theorem window_closed_by_unknown_name :
    let b : Buffer := ⟨[0x61, 0x62, 0x63], 0⟩
    let foreign : Detected := ⟨Caps.baseline, .x86⟩
    let steps : List Step :=
      [.startWith Caps.avx512All, .lookup "portable" 1 b, .setOverride (some foreign),
        .lookup "neon" 1 b]
    let p := (fresh .hosted (.ofWords false 0 0 0 0) .empty).run steps
    (Step.write? .clearOverride = some none ∧ steps.any Step.consults = true ∧
      (Step.lookup "portable" 1 b).Quiet ∧ Kernel.named? "neon" = none) ∧
      (Step.lookup "portable" 1 b).consults = false ∧ (Step.lookup "neon" 1 b).consults = true ∧
      p.slot = some foreign ∧ p.detection.value? = some foreign ∧
      p.step .clearOverride = (.fault (.overrideRefused .alreadyDetected), p) ∧
      (p.step .describe).1 = .description ⟨foreign, true⟩ ∧
      (p.run [.setOverride none, .setVariable "PATH" none]).slot = some foreign := by
  intro b foreign steps p
  have hclosed : steps.any Step.consults = true := by decide
  have hquiet : (Step.lookup "portable" 1 b).Quiet := .lookup (.inr rfl) (by decide) 1 b
  have hnone : Kernel.named? "neon" = none := by decide
  obtain ⟨⟨hslot, hdetection⟩, hwrite, ⟨-, hdescribe, -⟩, hlater, -, hopens, hcloses⟩ :=
    override_window (.ofWords false 0 0 0 0) .empty steps
  exact ⟨⟨rfl, hclosed, hquiet, hnone⟩, hopens _ hquiet, hcloses "neon" 1 b hnone, hslot,
    hdetection, hwrite .clearOverride none rfl, hdescribe,
    (hlater hclosed [.setOverride none, .setVariable "PATH" none]).1⟩

end AdaptiveAdler.Session
