import AdaptiveAdler.Engine

/-! Checksums that grow.

A hasher holds a checksum and brings it up to date with one buffer after another.
It may start from a checksum computed earlier. -/
namespace AdaptiveAdler

/-- A checksum in progress. -/
structure Hasher where
  digest : UInt32
deriving DecidableEq

namespace Hasher

def new : Hasher := ⟨initial⟩

/-- A hasher that goes on from an earlier checksum. -/
def resume (digest : UInt32) : Hasher := ⟨digest⟩

def update (engine : Engine) (h : Hasher) (b : Buffer) : Hasher := ⟨engine.update h.digest b⟩

def updateAll (engine : Engine) (h : Hasher) (parts : List Buffer) : Hasher :=
  parts.foldl (update engine) h

/-- The checksum so far; the hasher can go on. -/
def finalize (h : Hasher) : UInt32 := h.digest

def text (h : Hasher) : String := "Adler32 \x7b state: " ++ toString h.digest.toNat ++ " \x7d"

end Hasher
end AdaptiveAdler
