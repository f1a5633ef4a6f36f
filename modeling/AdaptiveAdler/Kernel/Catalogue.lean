import AdaptiveAdler.Digest.Blocked
import AdaptiveAdler.Digest.Bytewise
import AdaptiveAdler.Kernel.Extension

/-! The kernels.

Five ways to compute the same checksum: by definition, by blocks, and by one of
the three vector kernels. Each has a name and answers to some others. -/
namespace AdaptiveAdler

inductive Kernel
  /-- The definition, kept to check the others by. -/
  | bytewise
  /-- By blocks, on any processor. -/
  | portable
  | vector (e : Extension)
deriving DecidableEq

namespace Kernel

/-- Every kernel: the definition, the portable one, then the vector kernels, narrowest first. -/
def all : List Kernel := bytewise :: portable :: Extension.all.map vector

def name : Kernel → String
  | bytewise => "reference"
  | portable => "portable/unroll16"
  | vector e => e.kernelName

/-- What a kernel needs; the vector kernels declare it. -/
def requires : Kernel → Caps
  | bytewise => Caps.empty
  | portable => Caps.empty
  | vector e => e.requires

def update : Kernel → UInt32 → Buffer → UInt32
  | bytewise, digest, b => Bytewise.update digest b.bytes
  | portable, digest, b => Blocked.update digest b
  | vector e, digest, b => e.update digest b

/-- The other names a kernel answers to. -/
def aliases : Kernel → List String
  | bytewise => ["reference/bytewise"]
  | portable => ["portable"]
  | vector .sse2 => ["sse2"]
  | vector .avx2 => ["avx2"]
  | vector .avx512bw => ["avx512", "avx512bw"]

def answersTo (k : Kernel) (called : String) : Bool := called == k.name || k.aliases.contains called

/-- The kernel that answers to a name, whether or not it can run. -/
def named? (called : String) : Option Kernel := all.find? (·.answersTo called)

end Kernel
end AdaptiveAdler
