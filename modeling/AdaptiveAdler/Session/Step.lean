import AdaptiveAdler.Diagnosis
import AdaptiveAdler.SelfCheck
import AdaptiveAdler.Session.Report
import AdaptiveAdler.Session.State

/-! What a session can be asked.

Every step has an answer and an effect. The answer is read off the views of the
state; the effect is to settle the cells that the answer was read from. Only a
change of the environment and a successful override do more. -/
namespace AdaptiveAdler.Session

inductive Step
  | setVariable (name : String) (value : Option (List UInt8))
  /-- An override that may be refused. -/
  | tryOverride (value : Option Detected)
  /-- An override that must not be refused. -/
  | setOverride (value : Option Detected)
  /-- The same, by capabilities of the family that the library is built for. -/
  | overrideCaps (caps : Option Caps)
  /-- The same again, for a session that never probes. -/
  | startWith (caps : Caps)
  | clearOverride
  | hasOverride
  /-- The capabilities in use and their family. -/
  | detected
  | architecture
  | capabilities
  | effective
  | describe
  | config
  | configFor (caps : Caps)
  | threshold
  | choice
  | backend
  | kernelFor (length : Nat)
  | report
  | diagnose (length : Nat)
  | available
  | forced
  /-- The kernel that answers to a name, run once. -/
  | lookup (called : String) (digest : UInt32) (b : Buffer)
  /-- An update from any checksum, and the kernel that does it, in this order. The update
  alone binds the session only where the chosen kernel does it; to name the kernel binds the
  session for every length. -/
  | update (digest : UInt32) (b : Buffer)
  | accumulate (e : Extension) (s : Sums) (chunk : List UInt8)
  | runAll (digest : UInt32) (b : Buffer)
  | runChunks (digest : UInt32) (b : Buffer)
  | verify (b : Buffer)
  | verifyFrom (digest : UInt32) (b : Buffer)
  | verifyChunks (digest : UInt32) (b : Buffer)

inductive Answer
  | silence
  | done
  | refused (reason : Refusal)
  | fault (fault : Fault)
  | flag (value : Bool)
  | detected (d : Detected)
  | architecture (family : Architecture)
  | caps (caps : Caps)
  | description (d : Description)
  | config (c : Config)
  | threshold (threshold : Nat)
  | kernel (k : Kernel)
  | report (r : DispatchReport)
  | diagnosis (d : Diagnosis)
  | names (names : List String)
  | kernels (kernels : List Kernel)
  | lookup (found : Option SelfCheck.Outcome)
  | update (o : SelfCheck.Outcome)
  | sums (s : Sums)
  | outcomes (outcomes : List SelfCheck.Outcome)
  | chunkOutcomes (outcomes : List SelfCheck.ChunkOutcome)
  | agreement (digest : UInt32)
  | disagreement (d : SelfCheck.Disagreement)
  | chunkDisagreement (o : SelfCheck.ChunkOutcome)
deriving DecidableEq

/-! ### Overrides as steps -/

/-- A refused override is an answer, and changes nothing. -/
def attempt (p : Session) (value : Option Detected) : Answer × Session :=
  match p.override value with
  | .ok next => (.done, next)
  | .error reason => (.refused reason, p)

/-- A refused override is a fault, and changes nothing. -/
def insist (p : Session) (value : Option Detected) : Answer × Session :=
  match p.override value with
  | .ok next => (.done, next)
  | .error reason => (.fault (.overrideRefused reason), p)

/-! ### Answers with two outcomes -/

def Answer.ofSums : Except Fault Sums → Answer
  | .ok s => .sums s
  | .error f => .fault f

def Answer.ofChunks : Except Fault (List SelfCheck.ChunkOutcome) → Answer
  | .ok results => .chunkOutcomes results
  | .error f => .fault f

def Answer.ofAgreement : Except SelfCheck.Disagreement UInt32 → Answer
  | .ok digest => .agreement digest
  | .error d => .disagreement d

def Answer.ofChunkAgreement : Except Fault (Option SelfCheck.ChunkOutcome) → Answer
  | .ok none => .done
  | .ok (some o) => .chunkDisagreement o
  | .error f => .fault f

/-- An update by the engine of the session, and the kernel that does it. -/
def updated (p : Session) (digest : UInt32) (b : Buffer) : SelfCheck.Outcome :=
  ⟨p.engine.kernelFor b.size, p.engine.update digest b⟩

/-- The kernel that answers to a name and can run, with what it makes of a buffer. -/
def lookedUp (p : Session) (called : String) (digest : UInt32) (b : Buffer) :
    Option SelfCheck.Outcome :=
  (Inventory.lookup p.effective called).map fun k => ⟨k, k.update digest b⟩

def description (p : Session) : Description := ⟨p.detected, p.overridden⟩

/-- The narrowest vector kernel is called without asking what the processor can run. -/
def settleFor (p : Session) : Extension → Session
  | .sse2 => p
  | .avx2 => p.settleDetection
  | .avx512bw => p.settleDetection

def step (p : Session) : Step → Answer × Session
  | .setVariable name value => (.silence, {p with environment := p.environment.set name value})
  | .tryOverride value => p.attempt value
  | .setOverride value => p.insist value
  | .overrideCaps caps => p.insist (caps.map .ofCaps)
  | .startWith caps => p.insist (some (.ofCaps caps))
  | .clearOverride => p.insist none
  | .hasOverride => (.flag p.overridden, p)
  | .detected => (.detected p.detected, p.settleDetection)
  | .architecture => (.architecture p.detected.architecture, p.settleDetection)
  | .capabilities => (.caps p.capabilities, p.settleDetection)
  | .effective => (.caps p.effective, p.settleDetection)
  | .describe => (.description p.description, p.settleDetection)
  | .config => (.config p.config, p.settleConfig)
  | .configFor caps => (.config (Config.resolve caps p.overrides), p.settleOverrides)
  | .threshold => (.threshold p.config.threshold, p.settleConfig)
  | .choice => (.kernel p.choice, p.settleConfig)
  | .backend => (.kernel p.backend, p.settleBackend)
  | .kernelFor length => (.kernel (p.engine.kernelFor length), p.settleEngine)
  | .report => (.report ⟨p.description, p.backend⟩, p.settleBackend)
  | .diagnose length =>
    (.diagnosis (AdaptiveAdler.diagnose p.effective p.config p.engine length), p.settleEngine)
  | .available => (.names (Inventory.available p.effective), p.settleDetection)
  | .forced => (.kernels (Inventory.forced p.effective), p.settleDetection)
  | .lookup called digest b =>
    (.lookup (p.lookedUp called digest b),
      if Inventory.asksProcessor called then p.settleDetection else p)
  | .update digest b => (.update (p.updated digest b), p.settleEngine)
  | .accumulate e s chunk => (.ofSums (e.accumulateOn p.effective s chunk), p.settleFor e)
  | .runAll digest b => (.outcomes (SelfCheck.runAll p.effective digest b), p.settleDetection)
  | .runChunks digest b => (.ofChunks (SelfCheck.runChunks p.effective digest b), p.settleDetection)
  | .verify b => (.ofAgreement (SelfCheck.verify p.effective b), p.settleDetection)
  | .verifyFrom digest b =>
    (.ofAgreement (SelfCheck.verifyFrom p.effective digest b), p.settleDetection)
  | .verifyChunks digest b =>
    (.ofChunkAgreement (SelfCheck.verifyChunks p.effective digest b), p.settleDetection)

def run (p : Session) : List Step → Session
  | [] => p
  | s :: rest => run (p.step s).2 rest

def answers (p : Session) : List Step → List Answer
  | [] => []
  | s :: rest => (p.step s).1 :: answers (p.step s).2 rest

theorem run_append (p : Session) (a b : List Step) : p.run (a ++ b) = (p.run a).run b := by
  induction a generalizing p with
  | nil => rfl
  | cons s rest ih => exact ih _

theorem length_answers (p : Session) (steps : List Step) :
    (p.answers steps).length = steps.length := by
  induction steps generalizing p with
  | nil => rfl
  | cons s rest ih => simp only [answers, List.length_cons, ih]

theorem answers_append (p : Session) (a b : List Step) :
    p.answers (a ++ b) = p.answers a ++ (p.run a).answers b := by
  induction a generalizing p with
  | nil => rfl
  | cons s rest ih => simp only [List.cons_append, answers, run, ih]

theorem getElem?_answers (p : Session) (steps : List Step) (i : Nat) :
    (p.answers steps)[i]? = steps[i]?.map fun s => ((p.run (steps.take i)).step s).1 := by
  induction steps generalizing p i with
  | nil => rfl
  | cons s rest ih =>
    cases i with
    | zero => rfl
    | succ i => exact ih _ i

end AdaptiveAdler.Session
