import AdaptiveAdler.Selection.Ladder

/-! Why a kernel is chosen.

For a buffer of a given length: the kernel that would sum it, the configuration
behind the choice, and the reason in one word. -/
namespace AdaptiveAdler

/-- Why a kernel is chosen at run time. A build for processors known to have AVX-512 makes
no choice, calls the widest kernel for every length and has a reason of its own to give;
that build is not covered here. -/
inductive Reason
  | forced
  | belowThreshold
  /-- It is the widest kernel that can run. -/
  | auto
deriving DecidableEq

def Reason.tag : Reason → String
  | forced => "Forced"
  | belowThreshold => "BelowSimdThreshold"
  | auto => "Auto"

def Config.reason (c : Config) (length : Nat) : Reason :=
  if c.effective ≠ .auto then .forced
  else if length < c.threshold then .belowThreshold
  else .auto

structure Diagnosis where
  length : Nat
  reason : Reason
  requested : Force
  effective : Force
  kernel : Kernel
  threshold : Nat
  /-- For each extension, narrowest first: can its kernel run? -/
  runnable : List Bool
deriving DecidableEq

/-- The diagnosis for an engine in use, beside the configuration it should follow. -/
def diagnose (caps : Caps) (config : Config) (engine : Engine) (length : Nat) : Diagnosis where
  length := length
  reason := config.reason length
  requested := config.requested
  effective := config.effective
  kernel := engine.kernelFor length
  threshold := config.threshold
  runnable := [caps.has Caps.sse2, caps.has Caps.avx2Ready, caps.has Caps.avx512bwReady]

end AdaptiveAdler
