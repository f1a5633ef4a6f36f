import AdaptiveAdler.Capability.Set
import AdaptiveAdler.Cpu.Signature

/-! What a processor can run.

A feature counts only if the processor reports it and the operating system saves
the registers it uses. Some processors have unlike cores, of which only the large
ones execute AVX-512; a thread that moves to a small core would stop, so on those
models the AVX-512 capabilities are left out unless they are asked for. -/
namespace AdaptiveAdler

/-- The words in which a processor and its operating system report what they offer. -/
structure Cpu where
  intel : Bool
  identity : Identity
  basic : UInt32
  extended : UInt32
  /-- The register states that the operating system saves. -/
  saved : UInt64

/-- A processor as it reports itself, identified by its signature word. -/
def Cpu.ofWords (intel : Bool) (signature basic extended : UInt32) (saved : UInt64) : Cpu :=
  ⟨intel, Identity.ofWord signature, basic, extended, saved⟩

inductive FeatureWord
  | basic
  | extended
deriving DecidableEq

inductive RegisterState
  | none
  | ymm
  | zmm
deriving DecidableEq

/-- Where a feature is reported, what it needs and what it is worth. -/
structure Feature where
  word : FeatureWord
  bit : UInt32
  state : RegisterState
  grants : Caps

def Feature.all : List Feature :=
  [⟨.basic, 28, .ymm, Caps.avx⟩, ⟨.extended, 5, .ymm, Caps.avx2⟩,
    ⟨.extended, 16, .zmm, Caps.avx512f⟩, ⟨.extended, 30, .zmm, Caps.avx512bw⟩]

namespace Cpu

def word (cpu : Cpu) : FeatureWord → UInt32
  | .basic => cpu.basic
  | .extended => cpu.extended

/-- Bits of the saved-state word for the 128-bit and 256-bit registers. -/
def ymmMask : UInt64 := 0x6

/-- Bits of the saved-state word for mask registers and both parts of the 512-bit registers. -/
def zmmMask : UInt64 := 0xE0

/-- Does the operating system save the state? The 512-bit state includes the 256-bit one. -/
def saves (cpu : Cpu) : RegisterState → Bool
  | .none => true
  | .ymm => cpu.saved &&& ymmMask == ymmMask
  | .zmm => cpu.saved &&& ymmMask == ymmMask && cpu.saved &&& zmmMask == zmmMask

def offers (cpu : Cpu) (f : Feature) : Bool :=
  cpu.word f.word &&& (1 <<< f.bit) != 0 && cpu.saves f.state

/-- The capabilities the words grant. The baseline is always among them. -/
def caps (cpu : Cpu) : Caps :=
  (Feature.all.filter cpu.offers).foldl (fun caps f => caps ∪ f.grants) Caps.baseline

/-- Models of family 6 with unlike cores. -/
def hybridModels : List UInt32 :=
  [0x97, 0x9A, 0x9C, 0xB7, 0xBA, 0xBF, 0xAA, 0xAC, 0xBD, 0xC5, 0xC6]

def isHybrid (cpu : Cpu) : Bool :=
  cpu.intel && cpu.identity.family == 6 && hybridModels.contains cpu.identity.model

/-- The capabilities a process may use; `keepsWide` keeps AVX-512 where cores are unlike. -/
def detect (cpu : Cpu) (keepsWide : Bool) : Caps :=
  let found := Caps.baseline ∪ cpu.caps
  if cpu.isHybrid && !keepsWide then (found \ Caps.avx512All) ∪ Caps.baseline else found

end Cpu
end AdaptiveAdler
