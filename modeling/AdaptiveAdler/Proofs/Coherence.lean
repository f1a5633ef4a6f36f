import AdaptiveAdler.Proofs.Effects

/-! The caches of a session agree.

A session has four cells, each filled by other steps than the next, and half of its answers
are computed afresh. Still they agree: a kernel is bound and a threshold stored only once
the capabilities and the settings are frozen, and the value stored is the one that those
lead to (`Coherent`). So the engine of a session is at any time the one that would be
chosen anew, and a question asked twice is answered twice the same. -/
namespace AdaptiveAdler.Session

/-! ### Frozen sources -/

/-- All that an engine is chosen by is frozen. -/
def Settled (p : Session) : Prop := p.Consulted ∧ p.Configured

/-- Does a step read all that an engine is chosen by? -/
def Step.readsAll (s : Step) : Bool := s.consults && s.readsSettings

theorem freezes_sources :
    Freezes Step.readsAll (fun p => (p.capabilities, p.overrides)) Settled := by
  refine ⟨fun p s h => ?_⟩
  have hsources : (p.Consulted ∨ s.consults = true) ∧ (p.Configured ∨ s.readsSettings = true) := by
    rcases h with ⟨hconsulted, hconfigured⟩ | hreads
    · exact ⟨.inl hconsulted, .inl hconfigured⟩
    · obtain ⟨hconsults, hsettings⟩ := Bool.and_eq_true_iff.mp hreads
      exact ⟨.inr hconsults, .inr hsettings⟩
  obtain ⟨hconsulted, hdetected⟩ := freezes_detected.step p s hsources.1
  obtain ⟨hconfigured, hasked⟩ := freezes_overrides.step p s hsources.2
  exact ⟨⟨hconsulted, hconfigured⟩, by rw [capabilities, capabilities, hdetected, hasked]⟩

/-! ### Cells that follow a view -/

section Follows
variable {α : Type} {cell : Session → WriteOnce α} {view : Session → α}

/-- The cell is filled, if it is still empty, by steps of certain readings. -/
def FilledBy (fills : Reading → Bool) (cell : Session → WriteOnce α) (view : Session → α) :
    Prop :=
  ∀ p s, cell (p.step s).2 =
    if fills s.reading then (cell p).fill ((cell p).deliver (view p)) else cell p

theorem FilledBy.isSome_run {fills : Reading → Bool} (h : FilledBy fills cell view) (p : Session)
    (steps : List Step) : (cell (p.run steps)).value?.isSome =
      ((cell p).value?.isSome || steps.any fun s => fills s.reading) := by
  induction steps generalizing p with
  | nil => exact (Bool.or_false _).symm
  | cons s rest ih =>
    rw [run, ih, h p s, List.any_cons]
    cases fills s.reading with
    | true => rw [if_pos rfl, Bool.true_or, Bool.or_true]; rfl
    | false => rw [Bool.false_or]; rfl

/-- The cell is empty, or it holds what the view shows and will go on to show. -/
def Follows (cell : Session → WriteOnce α) (view : Session → α) (p : Session) : Prop :=
  ∀ a, (cell p).value? = some a → p.Settled ∧ a = view p

theorem Follows.deliver_eq {p : Session} (h : Follows cell view p) :
    (cell p).deliver (view p) = view p := by
  cases hcell : (cell p).value? with
  | none => rw [WriteOnce.deliver, hcell, Option.getD_none]
  | some a => rw [WriteOnce.deliver_of_value hcell, (h a hcell).2]

theorem Follows.value?_eq {p : Session} (h : Follows cell view p) :
    (cell p).value? = if (cell p).value?.isSome then some (view p) else none := by
  cases hcell : (cell p).value? with
  | none => rfl
  | some a => exact congrArg some (h a hcell).2

theorem Follows.step {fills : Reading → Bool}
    (hreads : ∀ r, fills r = true → (r.consults && r.readsSettings) = true)
    (hview : ∀ p q : Session, p.capabilities = q.capabilities → p.overrides = q.overrides →
      view p = view q)
    (hfill : FilledBy fills cell view) {p : Session} (h : Follows cell view p) (s : Step) :
    Follows cell view (p.step s).2 := by
  intro a ha
  -- The value is the view of now, and whether the step stored it or not, its sources are frozen.
  have hnow : (p.Settled ∨ s.readsAll = true) ∧ a = view p := by
    rw [hfill p s] at ha
    cases hs : fills s.reading with
    | true =>
      rw [hs, if_pos rfl, WriteOnce.fill_deliver, h.deliver_eq] at ha
      exact ⟨.inr (hreads _ hs), (Option.some.inj ha).symm⟩
    | false =>
      rw [hs] at ha
      exact ⟨.inl (h a ha).1, (h a ha).2⟩
  obtain ⟨hsettled, hsame⟩ := freezes_sources.step p s hnow.1
  obtain ⟨hcaps, hasked⟩ := Prod.mk.inj hsame
  exact ⟨hsettled, hnow.2.trans (hview _ _ hcaps hasked).symm⟩

end Follows

theorem config_congr {p q : Session} (hcaps : p.capabilities = q.capabilities)
    (hasked : p.overrides = q.overrides) : p.config = q.config := by
  rw [config, config, effective, effective, hcaps, hasked]

theorem choice_congr {p q : Session} (hcaps : p.capabilities = q.capabilities)
    (hasked : p.overrides = q.overrides) : p.choice = q.choice := by
  rw [choice, choice, config_congr hcaps hasked, effective, effective, hcaps]

/-! ### Coherence -/

/-- What a session has stored is what it would compute. -/
structure Coherent (p : Session) : Prop where
  bound : Follows bound choice p
  threshold : Follows threshold (fun p => p.config.threshold) p

theorem coherent_fresh (build : Build) (cpu : Cpu) (environment : Environment) :
    (fresh build cpu environment).Coherent :=
  ⟨fun _ h => (nomatch h), fun _ h => (nomatch h)⟩

theorem readsAll_of_binds (r : Reading) (h : r.binds = true) :
    (r.consults && r.readsSettings) = true := by
  cases r with
  | backend | engine => rfl
  | _ => cases h

theorem readsAll_of_measures (r : Reading) (h : r.measures = true) :
    (r.consults && r.readsSettings) = true := by
  cases r with
  | engine => rfl
  | _ => cases h

theorem bound_filled : FilledBy Reading.binds bound choice := by
  intro p s
  rw [step_snd, settle_eq]
  rfl

theorem threshold_filled : FilledBy Reading.measures threshold fun p => p.config.threshold := by
  intro p s
  rw [step_snd, settle_eq]
  rfl

theorem coherent_step {p : Session} (h : p.Coherent) (s : Step) : (p.step s).2.Coherent where
  bound := h.bound.step readsAll_of_binds (fun _ _ => choice_congr) bound_filled s
  threshold := h.threshold.step readsAll_of_measures
    (fun _ _ hcaps hasked => by rw [config_congr hcaps hasked]) threshold_filled s

theorem coherent_run {p : Session} (h : p.Coherent) (steps : List Step) :
    (p.run steps).Coherent := by
  induction steps generalizing p with
  | nil => exact h
  | cons s rest ih => exact ih (coherent_step h s)

/-- The engine in use is the one that would be chosen anew. -/
theorem Coherent.engine_eq {p : Session} (h : p.Coherent) :
    p.engine = Engine.choose p.effective p.overrides := by
  rw [engine, backend, h.bound.deliver_eq, h.threshold.deliver_eq]
  rfl

/-! ### Answers -/

/-- The session answers by the capabilities and the settings given, whether from its cells
or afresh. -/
structure AnswersBy (p : Session) (caps : Caps) (asked : Overrides) : Prop where
  effective : (p.step .effective).1 = .caps caps
  config : (p.step .config).1 = .config (Config.resolve caps asked)
  configFor : ∀ other, (p.step (.configFor other)).1 = .config (Config.resolve other asked)
  threshold : (p.step .threshold).1 = .threshold (Engine.choose caps asked).threshold
  choice : (p.step .choice).1 = .kernel (Engine.choose caps asked).kernel
  backend : (p.step .backend).1 = .kernel (Engine.choose caps asked).kernel
  report : ∃ platform, (p.step .report).1 = .report ⟨platform, (Engine.choose caps asked).kernel⟩
  kernelFor : ∀ n, (p.step (.kernelFor n)).1 = .kernel ((Engine.choose caps asked).kernelFor n)
  diagnose : ∀ n, ∃ d, (p.step (.diagnose n)).1 = .diagnosis d ∧
    d.kernel = (Engine.choose caps asked).kernelFor n ∧
    d.threshold = (Engine.choose caps asked).threshold
  update : ∀ digest b, ∃ after, (p.step (.update digest b)).1 =
    .update ⟨(Engine.choose caps asked).kernelFor b.size, after⟩

theorem Coherent.answersBy {p : Session} (h : p.Coherent) :
    p.AnswersBy p.effective p.overrides where
  effective := rfl
  config := rfl
  configFor _ := rfl
  threshold := rfl
  choice := rfl
  backend := congrArg (fun e : Engine => Answer.kernel e.kernel) h.engine_eq
  report := ⟨p.description, congrArg (fun e : Engine => Answer.report ⟨_, e.kernel⟩) h.engine_eq⟩
  kernelFor n := congrArg (fun e : Engine => Answer.kernel (e.kernelFor n)) h.engine_eq
  diagnose n := ⟨_, rfl, congrArg (fun e : Engine => e.kernelFor n) h.engine_eq, rfl⟩
  update digest b := by
    refine ⟨p.engine.update digest b, ?_⟩
    rw [← h.engine_eq]
    rfl

/-- Does the answer tell more of the capabilities in use than what they lead to: where they
come from, which family they belong to, or which they are before the baseline is added? -/
def Step.showsOrigin : Step → Bool
  | tryOverride _ => true
  | setOverride _ => true
  | overrideCaps _ => true
  | startWith _ => true
  | clearOverride => true
  | hasOverride => true
  | detected => true
  | architecture => true
  | capabilities => true
  | describe => true
  | report => true
  | _ => false

/-- All other answers are functions of the capabilities that kernels are chosen by and, where
they read them, of the settings. -/
theorem answer_congr_of_effective {p q : Session} (hp : p.Coherent) (hq : q.Coherent) {s : Step}
    (hs : s.showsOrigin = false) (heffective : p.effective = q.effective)
    (hasked : s.readsSettings = true → p.overrides = q.overrides) :
    (p.step s).1 = (q.step s).1 := by
  have hconfig (h : s.readsSettings = true) : p.config = q.config := by
    rw [config, config, heffective, hasked h]
  have hengine (h : s.readsSettings = true) : p.engine = q.engine := by
    rw [hp.engine_eq, hq.engine_eq, heffective, hasked h]
  cases s with
  | tryOverride | setOverride | overrideCaps | startWith | clearOverride | hasOverride | detected
  | architecture | capabilities | describe | report => cases hs
  | config => exact congrArg Answer.config (hconfig rfl)
  | configFor caps => simp only [step, hasked rfl]
  | threshold => simp only [step, hconfig rfl]
  | choice => simp only [step, choice, heffective, hconfig rfl]
  | backend => exact congrArg (fun e : Engine => Answer.kernel e.kernel) (hengine rfl)
  | kernelFor => simp only [step, hengine rfl]
  | diagnose => simp only [step, heffective, hconfig rfl, hengine rfl]
  | update => simp only [step, updated, hengine rfl]
  | lookup => simp only [step, lookedUp, heffective]
  | _ => simp only [step, heffective]

/-- An answer that rests on detection is a function of the frozen quantities. -/
theorem answer_congr {p q : Session} (hp : p.Coherent) (hq : q.Coherent) {s : Step}
    (hs : s.consults = true) (hbuild : p.build = q.build) (hslot : p.slot = q.slot)
    (hdetected : p.detected = q.detected)
    (hasked : s.readsSettings = true → p.overrides = q.overrides) :
    (p.step s).1 = (q.step s).1 := by
  have heffective : p.effective = q.effective := by
    rw [effective, effective, capabilities, capabilities, hdetected]
  have hdescription : p.description = q.description := by
    rw [description, description, overridden, overridden, hbuild, hslot, hdetected]
  cases hshows : s.showsOrigin with
  | false => exact answer_congr_of_effective hp hq hshows heffective hasked
  | true =>
    cases s with
    | tryOverride | setOverride | overrideCaps | startWith | clearOverride | hasOverride => cases hs
    | detected => exact congrArg Answer.detected hdetected
    | architecture => simp only [step, hdetected]
    | capabilities => simp only [step, capabilities, hdetected]
    | describe => exact congrArg Answer.description hdescription
    | report =>
      have hengine : p.engine = q.engine := by
        rw [hp.engine_eq, hq.engine_eq, heffective, hasked rfl]
      have hbackend : p.backend = q.backend := congrArg Engine.kernel hengine
      simp only [step, hdescription, hbackend]
    | _ => cases hshows

/-- The settings are those of the environment when they were first read. -/
theorem overrides_run (cpu : Cpu) (environment : Environment) (steps : List Step) :
    ((fresh .hosted cpu environment).run steps).overrides =
      ((steps.takeWhile fun s => !s.readsSettings).foldl Step.setIn environment).overrides := by
  have hany : (steps.takeWhile fun s => !s.readsSettings).any Step.readsSettings = false := by
    rw [← Bool.not_eq_true', List.not_any_eq_all_not, List.all_takeWhile]
  rw [freezes_overrides.view_run, overrides_of_hosted (build_run _ _), WriteOnce.deliver,
    backs_overrides.value?_run rfl rfl, hany, environment_run]
  rfl

/-- **The caches of a session agree**, whatever it has done. Its answers, taken from a cell
or computed afresh, go by the capabilities in use when a step first consulted detection and
by the settings of the environment when a step first read them; the cells hold what these
lead to; and a question that rests on detection has the same answer whenever it is asked. -/
theorem caches_are_coherent (cpu : Cpu) (environment : Environment) (steps : List Step) :
    let start := fresh .hosted cpu environment
    let p := start.run steps
    let caps := (start.run (steps.takeWhile fun s => !s.consults)).effective
    let asked :=
      ((steps.takeWhile fun s => !s.readsSettings).foldl Step.setIn environment).overrides
    p.AnswersBy caps asked ∧
      (p.asked.value? = if steps.any Step.readsSettings then some asked else none) ∧
      (p.bound.value? = if steps.any (·.reading.binds) then
        some (Engine.choose caps asked).kernel else none) ∧
      (p.threshold.value? = if steps.any (·.reading.measures) then
        some (Engine.choose caps asked).threshold else none) ∧
      ∀ (i j : Nat) (s : Step), steps[i]? = some s → steps[j]? = some s → s.consults = true →
        ∃ a, (start.answers steps)[i]? = some a ∧ (start.answers steps)[j]? = some a := by
  intro start p caps asked
  have hcoherent (others : List Step) : (start.run others).Coherent :=
    coherent_run (coherent_fresh .hosted cpu environment) others
  have hcaps : p.effective = caps := by
    show p.capabilities ∪ _ = Session.capabilities _ ∪ _
    rw [capabilities, capabilities, freezes_detected.view_run start steps]
  have hasked : p.overrides = asked := overrides_run cpu environment steps
  have hanswers : p.AnswersBy caps asked := by
    rw [← hcaps, ← hasked]
    exact (hcoherent steps).answersBy
  refine ⟨hanswers, ?_, ?_, ?_, fun i j s hi hj hs => ?_⟩
  · rw [← hasked]
    exact backs_overrides.value?_run rfl rfl steps
  · rw [(hcoherent steps).bound.value?_eq, bound_filled.isSome_run, ← hcaps, ← hasked]
    rfl
  · rw [(hcoherent steps).threshold.value?_eq, threshold_filled.isSome_run, ← hcaps, ← hasked]
    rfl
  · refine ⟨_, by rw [getElem?_answers, hi, Option.map_some], ?_⟩
    rw [getElem?_answers, hj, Option.map_some, Option.some.injEq]
    refine answer_congr (hcoherent _) (hcoherent _) hs ?_ ?_ ?_ fun hreads => ?_
    · rw [build_run, build_run]
    · rw [freezes_slot.view_take _ hj hs, freezes_slot.view_take _ hi hs]
    · rw [freezes_detected.view_take _ hj hs, freezes_detected.view_take _ hi hs]
    · rw [freezes_overrides.view_take _ hj hreads, freezes_overrides.view_take _ hi hreads]

/-- The portable kernel is asked for until the settings are first read, through a step that
gives its own capabilities; it is then bound, and named twice. -/
theorem coherent_after_change_of_setting :
    let portable : List UInt8 := [0x70, 0x6F, 0x72, 0x74, 0x61, 0x62, 0x6C, 0x65]
    let steps : List Step :=
      [.setVariable Environment.forceVariable (some portable), .configFor Caps.empty,
        .setVariable Environment.forceVariable none, .kernelFor 100, .choice, .kernelFor 100]
    let start := fresh .hosted (.ofWords false 0 0 0 0) .empty
    let p := start.run steps
    (steps[3]? = some (.kernelFor 100) ∧ steps[5]? = some (.kernelFor 100) ∧
      (Step.kernelFor 100).consults = true) ∧
      p.asked.value? = some ⟨.portable, none⟩ ∧ p.bound.value? = some .portable ∧
      p.threshold.value? = some 0 ∧ (p.step .choice).1 = .kernel .portable ∧
      ∃ a, (start.answers steps)[3]? = some a ∧ (start.answers steps)[5]? = some a := by
  intro portable steps start p
  have hread : ((steps.takeWhile fun s => !s.readsSettings).foldl Step.setIn .empty).overrides =
      ⟨.portable, none⟩ := by decide
  have hfound : (start.run (steps.takeWhile fun s => !s.consults)).effective = Caps.baseline := by
    decide
  obtain ⟨hanswers, hasked, hbound, hthreshold, hagain⟩ :=
    caches_are_coherent (.ofWords false 0 0 0 0) .empty steps
  rw [hread] at hasked
  rw [hread, hfound] at hanswers hbound hthreshold
  exact ⟨⟨rfl, rfl, rfl⟩, hasked, hbound, hthreshold, hanswers.choice, hagain 3 5 _ rfl rfl rfl⟩

end AdaptiveAdler.Session
