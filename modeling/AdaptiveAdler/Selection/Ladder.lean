import AdaptiveAdler.Engine
import AdaptiveAdler.Selection.Candidate
import AdaptiveAdler.Settings.Configuration

/-! Choosing a kernel.

The vector kernels form a ladder, widest first. Where the configuration forces a
kernel that one is taken; otherwise the widest that can run, and the portable
kernel if none can. -/
namespace AdaptiveAdler

/-- A rung of the ladder, with what it asks for. -/
def Extension.candidate (e : Extension) (requires : Caps) : Candidate Kernel :=
  ⟨e.kernelName, requires, .vector e⟩

/-- The vector kernels, widest first. -/
def ladder : List (Candidate Kernel) :=
  [Extension.candidate .avx512bw Caps.avx512bwReady, Extension.candidate .avx2 Caps.avx2Ready,
    Extension.candidate .sse2 Caps.sse2]

/-- The widest vector kernel that can run. -/
def widest? (caps : Caps) : Option Kernel := (select caps ladder).map Selected.target

def Force.kernel? : Force → Option Kernel
  | auto => none
  | portable => some .portable
  | vector e => some (.vector e)

def chooseKernel (caps : Caps) (config : Config) : Kernel :=
  (config.effective.kernel?.or (widest? caps)).getD .portable

/-- The engine for a processor and what the environment asks for. -/
def Engine.choose (caps : Caps) (asked : Overrides) : Engine :=
  let config := Config.resolve caps asked
  ⟨config.threshold, chooseKernel caps config⟩

end AdaptiveAdler
