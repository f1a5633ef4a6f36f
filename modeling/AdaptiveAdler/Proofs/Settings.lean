import AdaptiveAdler.Proofs.Coherence
import AdaptiveAdler.Proofs.Grammar

/-! What the environment asks for.

The value of a variable is a byte string, or nothing. It asks for a kernel or a threshold if it is
the UTF-8 of a text whose core is written so (`Environment.AsksForForce`,
`Environment.AsksForThreshold`), and all else that it may be counts as nothing. Two environments
that ask for the same lead to the same answers, step by step (`Session.answers_of_askAlike`). So
the configuration of a session follows from the values when they were first read, and a value that
is not written by the grammar shows no more than one that is not there
(`Session.environment_asks_by_grammar`). -/
namespace AdaptiveAdler

/-! ### Values -/

namespace Environment
variable {env a b : Environment} {name : String}

theorem decode?_eq_some_iff {bytes : List UInt8} {text : List Char} :
    decode? bytes = some text ↔ bytes = text.flatMap String.utf8EncodeChar := by
  rw [decode?, Option.map_eq_some_iff, ← List.toByteArray_inj]
  constructor
  · rintro ⟨s, hs, rfl⟩
    rw [String.fromUTF8?, Option.dite_none_right_eq_some] at hs
    obtain ⟨hvalid, hs⟩ := hs
    show _ = s.toList.utf8Encode
    rw [← String.toByteArray_ofList, String.ofList_toList, ← Option.some.inj hs]
    rfl
  · intro h
    have hvalid : bytes.toByteArray.IsValidUTF8 := .intro text h
    refine ⟨String.ofList text, ?_, String.toList_ofList⟩
    rw [String.fromUTF8?, dif_pos hvalid, Option.some.injEq, ← String.toByteArray_inj,
      String.toByteArray_ofList]
    exact h

/-- The value of a variable is the UTF-8 of a text with this core. -/
def Holds (value : Option (List UInt8)) (core : List Char) : Prop :=
  ∃ text : List Char, value = some (text.flatMap String.utf8EncodeChar) ∧ IsCore core text

theorem not_holds_none (core : List Char) : ¬ Holds none core := by
  rintro ⟨text, htext, -⟩
  cases htext

/-- The value asks for a kernel, or for none in particular. -/
def AsksForForce (value : Option (List UInt8)) (f : Force) : Prop :=
  ∃ core, Holds value core ∧ f.IsNamed core

/-- The value asks for a length that a 64-bit word holds. -/
def AsksForThreshold (value : Option (List UInt8)) (n : Nat) : Prop :=
  ∃ core, Holds value core ∧ Number.Denotes core n ∧ n < 2 ^ 64

/-- What is read from a word depends on its core, and nothing is read from blanks. -/
theorem bind_word?_eq_some_iff {β : Type} {read : List Char → Option β}
    {P : List Char → β → Prop} (hread : ∀ text b, read text = some b ↔ P (trim text) b)
    (hblank : ∀ b, ¬ P [] b) {b : β} :
    (env.word? name).bind read = some b ↔ ∃ core, Holds (env.lookup name) core ∧ P core b := by
  rw [Option.bind_eq_some_iff]
  constructor
  · rintro ⟨text, hword, hb⟩
    obtain ⟨htext, -⟩ := Option.filter_eq_some_iff.mp hword
    obtain ⟨bytes, hbytes, hdecode⟩ := Option.bind_eq_some_iff.mp htext
    rw [decode?_eq_some_iff.mp hdecode] at hbytes
    exact ⟨trim text, ⟨text, hbytes, isCore_iff.mpr rfl⟩, (hread text b).mp hb⟩
  · rintro ⟨core, ⟨text, htext, hcore⟩, hb⟩
    rw [← isCore_iff.mp hcore] at hb
    have hne : trim text ≠ [] := by
      intro h
      rw [h] at hb
      exact hblank b hb
    refine ⟨text, Option.filter_eq_some_iff.mpr ⟨?_, ?_⟩, (hread text b).mpr hb⟩
    · rw [text?, htext]
      exact decode?_eq_some_iff.mpr rfl
    · rw [Bool.not_eq_true', List.isEmpty_eq_false_iff]
      exact hne

theorem force?_eq_some_iff {f : Force} :
    (env.word? forceVariable).bind Force.ofText? = some f ↔
      AsksForForce (env.lookup forceVariable) f :=
  bind_word?_eq_some_iff (P := fun core f => Force.IsNamed f core)
    (fun _ _ => Force.ofText?_eq_some_iff) Force.not_isNamed_nil

theorem overrides_force_eq_iff {f : Force} : env.overrides.force = f ↔
    AsksForForce (env.lookup forceVariable) f ∨
      f = .auto ∧ ∀ g, ¬ AsksForForce (env.lookup forceVariable) g := by
  simp only [← force?_eq_some_iff, overrides]
  cases (env.word? forceVariable).bind Force.ofText? with
  | none => simp [eq_comm]
  | some g => simp

theorem overrides_threshold_eq_some_iff {n : Nat} : env.overrides.threshold = some n ↔
    AsksForThreshold (env.lookup thresholdVariable) n :=
  bind_word?_eq_some_iff (P := fun core n => Number.Denotes core n ∧ n < 2 ^ 64)
    (fun _ _ => Number.read?_eq_some_iff) fun _ h => (Number.denotes_iff.mp h.1).1 rfl

/-- A number is asked for in all its notations. -/
theorem asksForThreshold_toDigits {sign : List Char} (hsign : sign = [] ∨ sign = ['+'])
    (zeros : Nat) {n : Nat} (hn : n < 2 ^ 64) :
    AsksForThreshold (some ((sign ++ (List.replicate zeros '0' ++ Nat.toDigits 10 n)).flatMap
      String.utf8EncodeChar)) n :=
  have hdenotes := Number.denotes_toDigits hsign zeros n
  ⟨_, ⟨_, rfl, hdenotes.isCore⟩, hdenotes, hn⟩

/-! ### Environments that ask for the same -/

/-- Nothing that is read from the two tells them apart. -/
structure AskAlike (a b : Environment) : Prop where
  keepsWide : a.keepsWide = b.keepsWide
  overrides : a.overrides = b.overrides

theorem keepsWide_congr (a b : Environment)
    (h : a.lookup keepWideVariable = b.lookup keepWideVariable) : a.keepsWide = b.keepsWide := by
  rw [keepsWide, text?, h]
  rfl

theorem force_congr (a b : Environment) (h : a.lookup forceVariable = b.lookup forceVariable) :
    a.overrides.force = b.overrides.force := by
  simp only [overrides, word?, text?, h]

theorem threshold_congr (a b : Environment)
    (h : a.lookup thresholdVariable = b.lookup thresholdVariable) :
    a.overrides.threshold = b.overrides.threshold := by
  simp only [overrides, word?, text?, h]

/-- What is read from one variable stays alike when any is set. -/
theorem view_set {β : Type} {view : Environment → β} {source : String}
    (hview : ∀ a b : Environment, a.lookup source = b.lookup source → view a = view b)
    (h : view a = view b) (value : Option (List UInt8)) :
    view (a.set name value) = view (b.set name value) := by
  by_cases hname : source = name
  · exact hview _ _ ((if_pos hname).trans (if_pos hname).symm)
  · rw [hview (a.set name value) a (if_neg hname), hview (b.set name value) b (if_neg hname), h]

theorem AskAlike.set (h : AskAlike a b) (name : String) (value : Option (List UInt8)) :
    AskAlike (a.set name value) (b.set name value) where
  keepsWide := view_set keepsWide_congr h.keepsWide value
  overrides := congrArg₂ Overrides.mk
    (view_set force_congr (congrArg Overrides.force h.overrides) value)
    (view_set threshold_congr (congrArg Overrides.threshold h.overrides) value)

/-- A value that asks for no kernel counts as none. -/
theorem askAlike_unset_force (h : ∀ f, ¬ AsksForForce (env.lookup forceVariable) f) :
    AskAlike env (env.set forceVariable none) where
  keepsWide := keepsWide_congr _ _ rfl
  overrides := by
    have hunset : ∀ f, ¬ AsksForForce ((env.set forceVariable none).lookup forceVariable) f :=
      fun f ⟨core, hcore, _⟩ => not_holds_none core hcore
    have hauto : env.overrides.force = .auto := overrides_force_eq_iff.mpr (.inr ⟨rfl, h⟩)
    have hunset' := overrides_force_eq_iff.mpr (.inr ⟨rfl, hunset⟩)
    exact congrArg₂ Overrides.mk (hauto.trans hunset'.symm) (threshold_congr _ _ rfl)

/-- A value that asks for no threshold counts as none. -/
theorem askAlike_unset_threshold (h : ∀ n, ¬ AsksForThreshold (env.lookup thresholdVariable) n) :
    AskAlike env (env.set thresholdVariable none) where
  keepsWide := keepsWide_congr _ _ rfl
  overrides := by
    have hnone : env.overrides.threshold = none :=
      Option.eq_none_iff_forall_ne_some.mpr fun n hn => h n (overrides_threshold_eq_some_iff.mp hn)
    exact congrArg₂ Overrides.mk (force_congr _ _ rfl) hnone

end Environment

namespace Session

/-! ### Sessions in environments that ask for the same -/

section Alike
variable {p : Session} {env : Environment} (h : p.environment.AskAlike env)
include h

theorem detected_of_askAlike :
    ({p with environment := env} : Session).detected = p.detected := by
  simp only [detected, probe, h.keepsWide]

theorem capabilities_of_askAlike :
    ({p with environment := env} : Session).capabilities = p.capabilities :=
  congrArg Detected.caps (detected_of_askAlike h)

theorem overrides_of_askAlike :
    ({p with environment := env} : Session).overrides = p.overrides := by
  simp only [Session.overrides, h.overrides]

theorem config_of_askAlike : ({p with environment := env} : Session).config = p.config :=
  config_congr (capabilities_of_askAlike h) (overrides_of_askAlike h)

theorem engine_of_askAlike : ({p with environment := env} : Session).engine = p.engine := by
  have hchoice : ({p with environment := env} : Session).choice = p.choice :=
    choice_congr (capabilities_of_askAlike h) (overrides_of_askAlike h)
  simp only [engine, backend, hchoice, config_of_askAlike h]

theorem backend_of_askAlike : ({p with environment := env} : Session).backend = p.backend :=
  congrArg Engine.kernel (engine_of_askAlike h)

theorem setIn_askAlike (s : Step) : (s.setIn p.environment).AskAlike (s.setIn env) := by
  cases s with
  | setVariable name value => exact h.set name value
  | _ => exact h

/-- A step has the same answer. -/
theorem step_fst_of_askAlike (s : Step) :
    (({p with environment := env} : Session).step s).1 = (p.step s).1 := by
  cases hw : s.write? with
  | some w =>
    have hopen : ({p with environment := env} : Session).isOpen = p.isOpen := rfl
    rw [step_of_write hw, step_of_write hw, hopen]
    cases p.isOpen <;> rfl
  | none =>
    cases s with
    | tryOverride | setOverride | overrideCaps | startWith | clearOverride => cases hw
    | _ =>
      simp only [step, effective, description, overridden, choice, updated, lookedUp,
        detected_of_askAlike h, capabilities_of_askAlike h, overrides_of_askAlike h,
        config_of_askAlike h, engine_of_askAlike h, backend_of_askAlike h]

/-- A step leads to the same session, apart from the environment. -/
theorem step_snd_of_askAlike (s : Step) :
    (({p with environment := env} : Session).step s).2 =
      {(p.step s).2 with environment := s.setIn env} := by
  have hdetected := detected_of_askAlike h
  have hasked := overrides_of_askAlike h
  rw [step_snd, step_snd, settle_eq, settle_eq]
  simp only [engine_of_askAlike h, backend_of_askAlike h]
  obtain ⟨build, cpu, environment, slot, detection, asked, bound, threshold⟩ := p
  cases build with
  | hosted =>
    simp only [settleDetection, settleOverrides, isOpen, hdetected, hasked]
    rfl
  | freestanding => rfl

end Alike

/-- Environments that ask for the same are never told apart. -/
theorem answers_of_askAlike {p : Session} {env : Environment} (h : p.environment.AskAlike env)
    (steps : List Step) :
    ({p with environment := env} : Session).answers steps = p.answers steps := by
  induction steps generalizing p env with
  | nil => rfl
  | cons s rest ih =>
    have hnext : (p.step s).2.environment.AskAlike (s.setIn env) := by
      rw [step_snd]
      exact setIn_askAlike h s
    rw [answers, answers, step_fst_of_askAlike h, step_snd_of_askAlike h, ih hnext]

open Environment in
/-- **The environment asks by its grammar**, in any hosted session. What counts is its values when
a step first read them, be they texts or not. A kernel is forced just if what stands between the
blanks of its text is a word for it, and a threshold is set just if there it denotes a number below
2^64, which every number does with a sign or without and with any zeros in front; the configuration
for any capabilities follows from these two. At any time, unsetting a variable whose value asks for
nothing shows in no later answer. -/
theorem environment_asks_by_grammar (cpu : Cpu) (environment : Environment) (steps : List Step) :
    let p := (fresh .hosted cpu environment).run steps
    let found := (steps.takeWhile fun s => !s.readsSettings).foldl Step.setIn environment
    (∃ asked : Overrides,
        (∀ f, asked.force = f ↔ AsksForForce (found.lookup forceVariable) f ∨
          f = .auto ∧ ∀ g, ¬ AsksForForce (found.lookup forceVariable) g) ∧
        (∀ n, asked.threshold = some n ↔ AsksForThreshold (found.lookup thresholdVariable) n) ∧
        ∀ caps, (p.step (.configFor caps)).1 = .config (Config.resolve caps asked)) ∧
      (∀ sign zeros n, sign = [] ∨ sign = ['+'] → n < 2 ^ 64 →
        AsksForThreshold (some ((sign ++ (List.replicate zeros '0' ++ Nat.toDigits 10 n)).flatMap
          String.utf8EncodeChar)) n) ∧
      ((∀ f, ¬ AsksForForce (p.environment.lookup forceVariable) f) → ∀ later,
        (p.step (.setVariable forceVariable none)).2.answers later = p.answers later) ∧
      ((∀ n, ¬ AsksForThreshold (p.environment.lookup thresholdVariable) n) → ∀ later,
        (p.step (.setVariable thresholdVariable none)).2.answers later = p.answers later) := by
  intro p found
  refine ⟨⟨found.overrides, fun f => overrides_force_eq_iff,
    fun n => overrides_threshold_eq_some_iff, fun caps => ?_⟩,
    fun sign zeros n hsign => asksForThreshold_toDigits hsign zeros, fun h later => ?_,
    fun h later => ?_⟩
  · rw [← overrides_run cpu environment steps]
    rfl
  · exact answers_of_askAlike (askAlike_unset_force h) later
  · exact answers_of_askAlike (askAlike_unset_threshold h) later

open Environment in
/-- A kernel is asked for between an ideographic space and a line feed, and a threshold with a sign
and two zeros. Once both are read, the one variable is set to a byte that is no UTF-8 and the other
to a negative number: from then on they may as well be unset. -/
theorem environment_with_blanks_and_zeros :
    let wide : List UInt8 := [0xE3, 0x80, 0x80, 0x41, 0x76, 0x58, 0x2D, 0x35, 0x31, 0x32, 0x0A]
    let padded : List UInt8 := [0x2B, 0x30, 0x30, 0x31, 0x32, 0x38]
    let steps : List Step :=
      [.setVariable forceVariable (some wide), .setVariable thresholdVariable (some padded),
        .configFor Caps.empty, .setVariable forceVariable (some [0xFF]),
        .setVariable thresholdVariable (some [0x2D, 0x31])]
    let p := (fresh .hosted (.ofWords false 0 0 0 0) .empty).run steps
    (p.step (.configFor Caps.empty)).1 = .config ⟨.vector .avx512bw, .auto, 128⟩ ∧
      (∀ f, ¬ AsksForForce (p.environment.lookup forceVariable) f) ∧
      (∀ n, ¬ AsksForThreshold (p.environment.lookup thresholdVariable) n) ∧
      (p.step (.setVariable forceVariable none)).2.answers [.config, .diagnose 100] =
        p.answers [.config, .diagnose 100] ∧
      (p.step (.setVariable thresholdVariable none)).2.answers [.config, .diagnose 100] =
        p.answers [.config, .diagnose 100] := by
  intro wide padded steps p
  let found := (steps.takeWhile fun s => !s.readsSettings).foldl Step.setIn .empty
  have hwide : (found.word? forceVariable).bind Force.ofText? = some (.vector .avx512bw) := by
    decide
  have hbytes : (['+'] ++ (List.replicate 2 '0' ++ Nat.toDigits 10 128)).flatMap
      String.utf8EncodeChar = padded := by decide
  have hforced : ∀ f, ¬ AsksForForce (p.environment.lookup forceVariable) f := by
    intro f hf
    have hnone : (p.environment.word? forceVariable).bind Force.ofText? = none := by decide
    rw [force?_eq_some_iff.mpr hf] at hnone
    cases hnone
  have hset : ∀ n, ¬ AsksForThreshold (p.environment.lookup thresholdVariable) n := by
    intro n hn
    have hnone : p.environment.overrides.threshold = none := by decide
    rw [overrides_threshold_eq_some_iff.mpr hn] at hnone
    cases hnone
  obtain ⟨⟨asked, hforce, hthreshold, hconfig⟩, hnumbers, hunforced, hunset⟩ :=
    environment_asks_by_grammar (.ofWords false 0 0 0 0) .empty steps
  have hpadded := hnumbers ['+'] 2 128 (.inr rfl) (by decide)
  rw [hbytes] at hpadded
  have haskedForce := (hforce _).mpr (.inl (force?_eq_some_iff.mp hwide))
  have haskedThreshold := (hthreshold 128).mpr hpadded
  refine ⟨(hconfig Caps.empty).trans ?_, hforced, hset, hunforced hforced _, hunset hset _⟩
  obtain ⟨force, threshold⟩ := asked
  cases haskedForce
  cases haskedThreshold
  rfl

end Session
end AdaptiveAdler
