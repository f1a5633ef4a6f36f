import AdaptiveAdler.Capability.Set
import AdaptiveAdler.Kernel.Columns
import AdaptiveAdler.Kernel.Counters

/-! The vector kernels.

There is one for each of three instruction-set extensions. An extension says
which capabilities its kernel needs, what chunks it wants and how it sums them.
Whoever guards a kernel writes down for himself what it needs, the guard of single
chunks here included; that all of them write the same is proved elsewhere. -/
namespace AdaptiveAdler

/-- The instruction-set extensions that have a kernel, narrowest first. -/
inductive Extension
  | sse2
  | avx2
  | avx512bw
deriving DecidableEq

namespace Extension

def all : List Extension := [sse2, avx2, avx512bw]

def kernelName : Extension → String
  | sse2 => "x86_64/sse2"
  | avx2 => "x86_64/avx2"
  | avx512bw => "x86_64/avx512bw"

/-- What the kernel of an extension declares that it needs. -/
def requires : Extension → Caps
  | sse2 => Caps.sse2
  | avx2 => Caps.avx2Ready
  | avx512bw => Caps.avx512bwReady

def geometry : Extension → Geometry
  | sse2 => ⟨16, 32, 4096⟩
  | avx2 => ⟨32, 32, 5536⟩
  | avx512bw => ⟨64, 64, 5504⟩

def accumulate : Extension → Sums → List UInt8 → Sums
  | sse2 => Counters.accumulate
  | avx2 => Columns.accumulateEight
  | avx512bw => Columns.accumulateSixteen

def chunkKernel (e : Extension) : ChunkKernel := ⟨e.geometry, e.accumulate⟩

theorem room (e : Extension) : 0 < e.chunkKernel.geometry.pieceSize := by
  cases e <;> decide

/-- The kernel of an extension never faults. -/
def update (e : Extension) (digest : UInt32) (b : Buffer) : UInt32 :=
  e.chunkKernel.sum e.room digest b

/-- What is missing where the kernel of an extension is asked for and cannot run.
The narrowest one is part of every processor and is not checked. -/
def missing (e : Extension) (caps : Caps) : Option Fault :=
  match e with
  | sse2 => none
  | avx2 => if caps.has Caps.avx2Ready then none else some .avx2Missing
  | avx512bw => if caps.has Caps.avx512bwReady then none else some .avx512bwMissing

/-- The extensions of a list whose entries are allowed, in the order of the list. An entry
has what it asks for in front. -/
def allowed (caps : Caps) (entries : List (Caps × Extension)) : List Extension :=
  (entries.filter fun entry => caps.has entry.1).map Prod.snd

/-- One chunk under given capabilities. Missing capabilities are noticed before an illegal
length. -/
def accumulateOn (e : Extension) (caps : Caps) (s : Sums) (chunk : List UInt8) :
    Except Fault Sums :=
  match e.missing caps with
  | some fault => .error fault
  | none => e.chunkKernel.accumulateChecked s chunk

end Extension
end AdaptiveAdler
