import AdaptiveAdler.Capability.Set

/-! How capability sets are written.

The names come in a fixed order, narrowest first. An empty set is written `none`;
a set that holds only capabilities without a name is written as an empty list. In
front stands the processor family that the library is built for, whatever family
the set was detected on. -/
namespace AdaptiveAdler

/-! ### Processor families -/

/-- The processor families that capabilities may be said to belong to. -/
inductive Architecture
  | x86_64
  | x86
  | aarch64
  | other
deriving DecidableEq

namespace Architecture

/-- The family that the library is built for. -/
def current : Architecture := x86_64

def name : Architecture → String
  | x86_64 => "x86_64"
  | x86 => "x86"
  | aarch64 => "aarch64"
  | other => "other"

/-- The family as it is written inside a longer description. -/
def tag : Architecture → String
  | x86_64 => "X86_64"
  | x86 => "X86"
  | aarch64 => "Aarch64"
  | other => "Other"

end Architecture

/-! ### Sets -/

namespace Caps

/-- The named capabilities, in the order in which they are written. -/
def vocabulary : List (Caps × String) :=
  [(sse2, "sse2"), (avx, "avx"), (avx2, "avx2"), (avx512f, "avx512f"), (avx512bw, "avx512bw")]

def names (c : Caps) : List String := (vocabulary.filter fun entry => c.has entry.1).map Prod.snd

def text (c : Caps) : String :=
  let content := if c.isEmpty then "none" else "[" ++ String.intercalate ", " c.names ++ "]"
  "Caps(" ++ Architecture.current.name ++ ", " ++ content ++ ")"

end Caps

/-! ### Sets and families -/

/-- Capabilities, and the processor family that they belong to. -/
structure Detected where
  caps : Caps
  architecture : Architecture
deriving DecidableEq

namespace Detected

/-- Capabilities of the family that the library is built for. -/
def ofCaps (caps : Caps) : Detected := ⟨caps, Architecture.current⟩

/-- What was detected, written with its field names. -/
def text (d : Detected) : String :=
  "Detected \x7b caps: " ++ d.caps.text ++ ", arch: " ++ d.architecture.tag ++ " \x7d"

end Detected

end AdaptiveAdler
