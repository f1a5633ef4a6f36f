import AdaptiveAdler.Kernel.Catalogue

/-! A threshold and a kernel.

Short buffers do not repay the cost of filling vector lanes. An engine therefore
sums buffers below its threshold with the portable kernel and all others with the
kernel chosen for the process. -/
namespace AdaptiveAdler

structure Engine where
  threshold : Nat
  kernel : Kernel

namespace Engine

/-- `below` if the length is under the threshold and `wide` from there on. -/
def forLength {α : Type} (threshold length : Nat) (below wide : α) : α :=
  if length < threshold then below else wide

def kernelFor (e : Engine) (length : Nat) : Kernel :=
  forLength e.threshold length .portable e.kernel

def update (e : Engine) (digest : UInt32) (b : Buffer) : UInt32 :=
  (e.kernelFor b.size).update digest b

def updateAll (e : Engine) (digest : UInt32) (parts : List Buffer) : UInt32 :=
  parts.foldl e.update digest

def checksum (e : Engine) (b : Buffer) : UInt32 := e.update initial b

def checksumAll (e : Engine) (parts : List Buffer) : UInt32 := e.updateAll initial parts

end Engine
end AdaptiveAdler
