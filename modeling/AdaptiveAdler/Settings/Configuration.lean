import AdaptiveAdler.Settings.Environment

/-! The configuration in force.

What was asked for, what of it the processor can do, and the threshold that goes
with it. A forced kernel sums every length, so its threshold is zero. -/
namespace AdaptiveAdler

/-- The threshold where nothing else is asked for. -/
def defaultThreshold : Nat := 64

structure Config where
  requested : Force
  effective : Force
  threshold : Nat
deriving DecidableEq

namespace Config

/-- The threshold that goes with an effective request. -/
def thresholdFor (effective : Force) (asked : Option Nat) : Nat :=
  if effective = .auto then asked.getD defaultThreshold else 0

def resolve (caps : Caps) (asked : Overrides) : Config :=
  let effective := asked.force.clamp caps
  ⟨asked.force, effective, thresholdFor effective asked.threshold⟩

def text (c : Config) : String :=
  "Adler32Config \x7b requested_force: " ++ c.requested.tag ++ ", effective_force: "
    ++ c.effective.tag ++ ", tunables: Adler32Tunables \x7b portable_to_simd: "
    ++ toString c.threshold ++ " \x7d \x7d"

end Config
end AdaptiveAdler
