import AdaptiveAdler.Capability.Text
import AdaptiveAdler.Cell.Once
import AdaptiveAdler.Cpu.Detection
import AdaptiveAdler.Selection.Ladder

/-! What a session remembers.

A session is the life of the library inside one process. A hosted session asks its
processor and its environment once each, on first use, and stays with the answers:
the capabilities, what the environment asks for, the kernel it is bound to and the
threshold each have a cell. Before the capabilities are first used they may be
overridden through a slot, together with the processor family they are said to belong
to. A freestanding session has neither a probe, nor a slot, nor an environment: its
capabilities are the baseline.

The value a cell has or would take is a function of the state; asking for it only
fills the cell. So each quantity has a view, and each cell a function that settles
it at its view. -/
namespace AdaptiveAdler

/-- Two ways the library is built. -/
inductive Build
  /-- With an operating system below it. -/
  | hosted
  | freestanding
deriving DecidableEq

structure Session where
  build : Build
  cpu : Cpu
  environment : Environment
  /-- What to use instead of what is found. -/
  slot : Option Detected := none
  /-- What is in use, once it has been asked for. -/
  detection : WriteOnce Detected := .empty
  /-- What the environment asks for, once it has been read. -/
  asked : WriteOnce Overrides := .empty
  /-- The kernel that long buffers are summed with, once it has been chosen. -/
  bound : WriteOnce Kernel := .empty
  /-- The length from which buffers count as long. -/
  threshold : WriteOnce Nat := .empty

namespace Session

def fresh (build : Build) (cpu : Cpu) (environment : Environment) : Session where
  build := build
  cpu := cpu
  environment := environment

/-! ### Views -/

/-- What the processor can run, as it would be found now. -/
def probe (p : Session) : Detected := .ofCaps (p.cpu.detect p.environment.keepsWide)

/-- What is in use: what the slot holds if it holds anything, otherwise what is found. -/
def detected (p : Session) : Detected :=
  match p.build with
  | .hosted => p.detection.deliver (p.slot.getD p.probe)
  | .freestanding => .ofCaps Caps.baseline

/-- The capabilities in use. -/
def capabilities (p : Session) : Caps := p.detected.caps

/-- The capabilities that kernels are chosen by; the baseline always counts. -/
def effective (p : Session) : Caps := p.capabilities ∪ Caps.baseline

def overrides (p : Session) : Overrides :=
  match p.build with
  | .hosted => p.asked.deliver p.environment.overrides
  | .freestanding => {}

def config (p : Session) : Config := Config.resolve p.effective p.overrides

def choice (p : Session) : Kernel := chooseKernel p.effective p.config

def backend (p : Session) : Kernel := p.bound.deliver p.choice

def engine (p : Session) : Engine := ⟨p.threshold.deliver p.config.threshold, p.backend⟩

/-- Does the slot hold a value? A freestanding session has no slot. -/
def overridden (p : Session) : Bool :=
  match p.build with
  | .hosted => p.slot.isSome
  | .freestanding => false

/-! ### Settling -/

def settleDetection (p : Session) : Session :=
  match p.build with
  | .hosted => {p with detection := p.detection.fill p.detected}
  | .freestanding => p

def settleOverrides (p : Session) : Session :=
  match p.build with
  | .hosted => {p with asked := p.asked.fill p.overrides}
  | .freestanding => p

/-- The configuration rests on the capabilities and on what the environment asks for. -/
def settleConfig (p : Session) : Session := p.settleDetection.settleOverrides

def settleBackend (p : Session) : Session :=
  {p.settleConfig with bound := p.bound.fill p.backend}

def settleEngine (p : Session) : Session :=
  {p.settleBackend with threshold := p.threshold.fill p.engine.threshold}

/-! ### Overriding the capabilities -/

/-- Puts a value into the slot, or empties it, as long as nothing has been detected. -/
def override (p : Session) (value : Option Detected) : Except Refusal Session :=
  match p.build with
  | .freestanding => .error .unsupported
  | .hosted =>
    if p.detection.value?.isSome then .error .alreadyDetected else .ok {p with slot := value}

end Session
end AdaptiveAdler
