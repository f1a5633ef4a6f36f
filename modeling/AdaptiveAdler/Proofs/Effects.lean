import AdaptiveAdler.Session.Step

/-! What a step does to a session.

A step does one of three things: it sets a variable, it writes the slot, or it settles the
cells that its answer is read from. Tables list which step does what, and `step_snd` says
that they leave nothing out. All that a run keeps follows from that one equation. In
particular a quantity that is settled by whoever reads it is for ever what the first to
read it found (`Freezes.view_run`). -/
namespace AdaptiveAdler.Session

/-! ### Which step does what -/

/-- What an answer is read from. The last three rest on all that stands before them. -/
inductive Reading
  | nothing
  | detection
  | overrides
  | config
  | backend
  | engine

namespace Reading

def consults : Reading → Bool
  | nothing => false
  | overrides => false
  | detection => true
  | config => true
  | backend => true
  | engine => true

def readsSettings : Reading → Bool
  | nothing => false
  | detection => false
  | overrides => true
  | config => true
  | backend => true
  | engine => true

/-- Is the session bound to a kernel afterwards? -/
def binds : Reading → Bool
  | backend => true
  | engine => true
  | _ => false

/-- Is the length of a buffer compared with the threshold? -/
def measures : Reading → Bool
  | engine => true
  | _ => false

end Reading

namespace Step

def reading : Step → Reading
  | setVariable _ _ => .nothing
  | tryOverride _ => .nothing
  | setOverride _ => .nothing
  | overrideCaps _ => .nothing
  | startWith _ => .nothing
  | clearOverride => .nothing
  | hasOverride => .nothing
  | detected => .detection
  | architecture => .detection
  | capabilities => .detection
  | effective => .detection
  | describe => .detection
  | config => .config
  | configFor _ => .overrides
  | threshold => .config
  | choice => .config
  | backend => .backend
  | kernelFor _ => .engine
  | report => .backend
  | diagnose _ => .engine
  | available => .detection
  | forced => .detection
  | lookup called _ _ => if Inventory.asksProcessor called then .detection else .nothing
  | update _ _ => .engine
  | accumulate .sse2 _ _ => .nothing
  | accumulate .avx2 _ _ => .detection
  | accumulate .avx512bw _ _ => .detection
  | runAll _ _ => .detection
  | runChunks _ _ => .detection
  | verify _ => .detection
  | verifyFrom _ _ => .detection
  | verifyChunks _ _ => .detection

/-- Does the answer depend on what the processor can run? -/
def consults (s : Step) : Bool := s.reading.consults

/-- Does the answer depend on what the environment asks for? -/
def readsSettings (s : Step) : Bool := s.reading.readsSettings

/-- What an override is to put into the slot; other steps put nothing there. -/
def write? : Step → Option (Option Detected)
  | tryOverride value => some value
  | setOverride value => some value
  | overrideCaps caps => some (caps.map .ofCaps)
  | startWith caps => some (some (.ofCaps caps))
  | clearOverride => some none
  | _ => none

/-- The slot after a step, if it can be written. -/
def written (slot : Option Detected) (s : Step) : Option Detected := s.write?.getD slot

/-- The answer to an override that is refused. -/
def refused (reason : Refusal) : Step → Answer
  | tryOverride _ => .refused reason
  | _ => .fault (.overrideRefused reason)

/-- The environment after a step. -/
def setIn (environment : Environment) : Step → Environment
  | setVariable name value => environment.set name value
  | _ => environment

end Step

/-! ### Effects -/

def settle (p : Session) : Reading → Session
  | .nothing => p
  | .detection => p.settleDetection
  | .overrides => p.settleOverrides
  | .config => p.settleConfig
  | .backend => p.settleBackend
  | .engine => p.settleEngine

/-- Settling fills the cells that are read, and does nothing else. -/
theorem settle_eq (p : Session) (r : Reading) :
    p.settle r =
      {p with
        detection := if r.consults then p.settleDetection.detection else p.detection
        asked := if r.readsSettings then p.settleOverrides.asked else p.asked
        bound := if r.binds then p.bound.fill p.backend else p.bound
        threshold := if r.measures then p.threshold.fill p.engine.threshold else p.threshold} := by
  obtain ⟨build, cpu, environment, slot, detection, asked, bound, threshold⟩ := p
  cases build <;> cases r <;> rfl

/-- Can the slot be written? -/
def isOpen (p : Session) : Bool :=
  match p.build with
  | .hosted => p.detection.value?.isNone
  | .freestanding => false

/-- Why the slot cannot be written, where it cannot. -/
def refusal (p : Session) : Refusal :=
  match p.build with
  | .hosted => .alreadyDetected
  | .freestanding => .unsupported

theorem override_eq (p : Session) (w : Option Detected) :
    p.override w = if p.isOpen then .ok {p with slot := w} else .error p.refusal := by
  unfold override isOpen refusal
  cases p.build with
  | hosted => cases p.detection.value? <;> rfl
  | freestanding => rfl

/-- An override writes the slot if that can be written, and does nothing if it cannot. -/
theorem step_of_write {s : Step} {w : Option Detected} (h : s.write? = some w) (p : Session) :
    p.step s =
      if p.isOpen then (.done, {p with slot := w}) else (s.refused p.refusal, p) := by
  cases s with
  | tryOverride | setOverride | overrideCaps | startWith | clearOverride =>
    cases h
    simp only [step, attempt, insist, override_eq]
    cases p.isOpen <;> rfl
  | _ => cases h

theorem reading_of_write {s : Step} {w : Option Detected} (h : s.write? = some w)
    (environment : Environment) : s.reading = .nothing ∧ s.setIn environment = environment := by
  cases s with
  | tryOverride | setOverride | overrideCaps | startWith | clearOverride => exact ⟨rfl, rfl⟩
  | _ => cases h

/-- **All that a step does to a session**: it sets its variable, writes the slot if that
can be written, and settles what it reads. -/
theorem step_snd (p : Session) (s : Step) :
    (p.step s).2 =
      {p.settle s.reading with
        environment := s.setIn p.environment
        slot := if p.isOpen then s.written p.slot else p.slot} := by
  -- An override does one of two things; any other step does the same in every state.
  cases hw : s.write? with
  | some w =>
    obtain ⟨hreading, hset⟩ := reading_of_write hw p.environment
    rw [step_of_write hw, hreading, hset, Step.written, hw]
    cases p.isOpen <;> rfl
  | none =>
    have hkept : s.written p.slot = p.slot := by rw [Step.written, hw]; rfl
    have hsettle : p.settle s.reading =
        {p.settle s.reading with environment := p.environment, slot := p.slot} := by
      rw [settle_eq]
    rw [hkept, ite_self]
    cases s with
    | setVariable name value => rfl
    | tryOverride | setOverride | overrideCaps | startWith | clearOverride => cases hw
    | lookup called digest b =>
      exact (apply_ite p.settle (Inventory.asksProcessor called = true) _ _).symm.trans hsettle
    | accumulate e s chunk => cases e <;> exact hsettle
    | _ => exact hsettle

/-! ### What runs keep -/

theorem build_step (p : Session) (s : Step) : (p.step s).2.build = p.build := by
  rw [step_snd, settle_eq]

theorem slot_step (p : Session) (s : Step) :
    (p.step s).2.slot = if p.isOpen then s.written p.slot else p.slot := by
  rw [step_snd]

theorem build_run (p : Session) (steps : List Step) : (p.run steps).build = p.build := by
  induction steps generalizing p with
  | nil => rfl
  | cons s rest ih => exact (ih _).trans (build_step p s)

theorem cpu_run (p : Session) (steps : List Step) : (p.run steps).cpu = p.cpu := by
  induction steps generalizing p with
  | nil => rfl
  | cons s rest ih => exact (ih _).trans (by rw [step_snd, settle_eq])

theorem environment_run (p : Session) (steps : List Step) :
    (p.run steps).environment = steps.foldl Step.setIn p.environment := by
  induction steps generalizing p with
  | nil => rfl
  | cons s rest ih => exact (ih _).trans (by rw [step_snd, List.foldl_cons])

/-! ### Freezing

Some steps read a quantity, and whoever reads it settles it. Such a quantity is frozen
from the first of these steps on. -/

/-- Whatever is done to a session in which the view is frozen, and whenever a step reads
it, the view stays and is frozen afterwards. -/
structure Freezes {α : Type} (reads : Step → Bool) (view : Session → α)
    (frozen : Session → Prop) : Prop where
  step : ∀ (p : Session) (s : Step), frozen p ∨ reads s = true →
    frozen (p.step s).2 ∧ view (p.step s).2 = view p

namespace Freezes
variable {α : Type} {reads : Step → Bool} {view : Session → α} {frozen : Session → Prop}

theorem run_of_frozen (h : Freezes reads view frozen) {p : Session} (hp : frozen p)
    (steps : List Step) : frozen (p.run steps) ∧ view (p.run steps) = view p := by
  induction steps generalizing p with
  | nil => exact ⟨hp, rfl⟩
  | cons s rest ih =>
    obtain ⟨hnext, hview⟩ := h.step p s (.inl hp)
    exact ⟨(ih hnext).1, (ih hnext).2.trans hview⟩

theorem run_of_reads (h : Freezes reads view frozen) (p : Session) {s : Step}
    (hs : reads s = true) (rest : List Step) :
    frozen (p.run (s :: rest)) ∧ view (p.run (s :: rest)) = view p := by
  obtain ⟨hnext, hview⟩ := h.step p s (.inr hs)
  exact ⟨(h.run_of_frozen hnext rest).1, (h.run_of_frozen hnext rest).2.trans hview⟩

/-- **What is read first stays**: no step after the first reading one shows in the view. -/
theorem view_run (h : Freezes reads view frozen) (p : Session) (steps : List Step) :
    view (p.run steps) = view (p.run (steps.takeWhile fun s => !reads s)) := by
  induction steps generalizing p with
  | nil => rfl
  | cons s rest ih =>
    cases hs : reads s with
    | true =>
      rw [List.takeWhile_cons_of_neg (by rw [hs]; decide)]
      exact (h.run_of_reads p hs rest).2
    | false =>
      rw [List.takeWhile_cons_of_pos (by rw [hs]; rfl)]
      exact ih _

theorem frozen_run (h : Freezes reads view frozen) (p : Session) {steps : List Step}
    (hany : steps.any reads = true) : frozen (p.run steps) := by
  induction steps generalizing p with
  | nil => cases hany
  | cons s rest ih =>
    cases hs : reads s with
    | true => exact (h.run_of_reads p hs rest).1
    | false =>
      rw [List.any_cons, hs, Bool.false_or] at hany
      exact ih _ hany

/-- Every reading step reads the same. -/
theorem view_take (h : Freezes reads view frozen) (p : Session) {steps : List Step} {i : Nat}
    {s : Step} (hget : steps[i]? = some s) (hs : reads s = true) :
    view (p.run (steps.take i)) = view (p.run steps) := by
  obtain ⟨hi, rfl⟩ := List.getElem?_eq_some_iff.mp hget
  have hsplit := List.take_append_drop i steps
  rw [List.drop_eq_getElem_cons hi] at hsplit
  conv => rhs; rw [← hsplit, run_append]
  exact (h.run_of_reads _ hs _).2.symm

end Freezes

/-! ### Cells that freeze a view -/

section Cells
variable {α : Type} {p : Session}

/-- In a hosted session, the cell holds what the view shows. -/
def Shows (cell : Session → WriteOnce α) (view : Session → α) (p : Session) : Prop :=
  p.build = .hosted → (cell p).value? = some (view p)

/-- A hosted session takes the view from the cell, which is filled by the steps that read
it; a freestanding session has the same view whatever it does. -/
structure Backs (reads : Step → Bool) (cell : Session → WriteOnce α) (view : Session → α) :
    Prop where
  hosted : ∀ p, p.build = .hosted → ∃ offered, view p = (cell p).deliver offered
  freestanding : ∃ fixed, ∀ p, p.build = .freestanding → view p = fixed
  fills : ∀ p s, p.build = .hosted →
    cell (p.step s).2 = if reads s then (cell p).fill (view p) else cell p

namespace Backs
variable {reads : Step → Bool} {cell : Session → WriteOnce α} {view : Session → α}

theorem freezes (h : Backs reads cell view) : Freezes reads view (Shows cell view) := by
  refine ⟨fun p s hreads => ?_⟩
  have hbuild := build_step p s
  cases hb : p.build with
  | freestanding =>
    rw [hb] at hbuild
    obtain ⟨fixed, hfixed⟩ := h.freestanding
    refine ⟨fun hhosted => ?_, by rw [hfixed _ hbuild, hfixed p hb]⟩
    rw [hbuild] at hhosted
    cases hhosted
  | hosted =>
    rw [hb] at hbuild
    have hvalue : (cell (p.step s).2).value? = some (view p) := by
      rw [h.fills p s hb]
      split
      · obtain ⟨offered, hview⟩ := h.hosted p hb
        rw [hview, WriteOnce.fill_deliver]
      · next hnot => exact hreads.resolve_right hnot hb
    have hview : view (p.step s).2 = view p := by
      obtain ⟨offered, hview⟩ := h.hosted _ hbuild
      rw [hview, WriteOnce.deliver_of_value hvalue]
    exact ⟨fun _ => hvalue.trans (congrArg some hview.symm), hview⟩

/-- A cell that is empty at first is filled by the first step that reads it. -/
theorem value?_run (h : Backs reads cell view) (hb : p.build = .hosted)
    (hempty : (cell p).value? = none) (steps : List Step) :
    (cell (p.run steps)).value? =
      if steps.any reads then some (view (p.run steps)) else none := by
  induction steps generalizing p with
  | nil => exact hempty
  | cons s rest ih =>
    have hbuild := (build_step p s).trans hb
    cases hs : reads s with
    | true =>
      rw [List.any_cons, hs, Bool.true_or, if_pos rfl]
      exact (h.freezes.run_of_reads p hs rest).1 ((build_run _ _).trans hb)
    | false =>
      rw [List.any_cons, hs, Bool.false_or]
      refine ih hbuild ?_
      rw [h.fills p s hb, hs]
      exact hempty

end Backs

theorem detected_of_hosted (h : p.build = .hosted) :
    p.detected = p.detection.deliver (p.slot.getD p.probe) := by
  rw [detected, h]

theorem fill_detected (h : p.build = .hosted) :
    (p.detection.fill p.detected).value? = some p.detected := by
  rw [detected_of_hosted h, WriteOnce.fill_deliver]

theorem overrides_of_hosted (h : p.build = .hosted) :
    p.overrides = p.asked.deliver p.environment.overrides := by
  rw [overrides, h]

theorem detection_step (h : p.build = .hosted) (s : Step) :
    (p.step s).2.detection =
      if s.consults then p.detection.fill p.detected else p.detection := by
  rw [step_snd, settle_eq]
  simp only [settleDetection, h]
  rfl

theorem asked_step (h : p.build = .hosted) (s : Step) :
    (p.step s).2.asked = if s.readsSettings then p.asked.fill p.overrides else p.asked := by
  rw [step_snd, settle_eq]
  simp only [settleOverrides, h]
  rfl

/-- What is in use has been asked for. -/
def Consulted (p : Session) : Prop := Shows detection detected p

/-- What the environment asks for has been read. -/
def Configured (p : Session) : Prop := Shows asked overrides p

theorem backs_detected : Backs Step.consults detection detected where
  hosted _ h := ⟨_, detected_of_hosted h⟩
  freestanding := ⟨.ofCaps Caps.baseline, fun p h => by rw [detected, h]⟩
  fills _ s h := detection_step h s

theorem backs_overrides : Backs Step.readsSettings asked overrides where
  hosted _ h := ⟨_, overrides_of_hosted h⟩
  freestanding := ⟨{}, fun p h => by rw [overrides, h]⟩
  fills _ s h := asked_step h s

/-- Whoever consults detection freezes what is in use. -/
theorem freezes_detected : Freezes Step.consults detected Consulted :=
  backs_detected.freezes

/-- Whoever reads the settings freezes what the environment asks for. -/
theorem freezes_overrides : Freezes Step.readsSettings overrides Configured :=
  backs_overrides.freezes

theorem Consulted.isOpen (h : p.Consulted) : p.isOpen = false := by
  unfold Session.isOpen
  cases hb : p.build with
  | hosted => rw [h hb]; rfl
  | freestanding => rfl

theorem written_of_consults {s : Step} (h : s.consults = true) (slot : Option Detected) :
    s.written slot = slot := by
  cases s with
  | tryOverride | setOverride | overrideCaps | startWith | clearOverride => cases h
  | _ => rfl

/-- The slot is frozen with what is in use: no override is a reading step. -/
theorem freezes_slot : Freezes Step.consults slot Consulted := by
  refine ⟨fun p s h => ⟨(freezes_detected.step p s h).1, ?_⟩⟩
  rw [slot_step]
  rcases h with hconsulted | hconsults
  · rw [hconsulted.isOpen]; rfl
  · rw [written_of_consults hconsults, ite_self]

end Cells

end AdaptiveAdler.Session
