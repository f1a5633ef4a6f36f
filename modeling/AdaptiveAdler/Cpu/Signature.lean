/-! The processor signature.

One 32-bit word identifies a processor: from the low end its stepping, base model,
base family, type, two reserved bits, extended model, extended family and four
reserved bits. The family shown to people is the base family, with the extended
family added if the base family is 15; the model shown has the extended model as
its high half if the base family is 6 or 15. -/
namespace AdaptiveAdler

structure Signature where
  stepping : BitVec 4
  model : BitVec 4
  family : BitVec 4
  type : BitVec 2
  reserved : BitVec 2
  extendedModel : BitVec 4
  extendedFamily : BitVec 8
  highReserved : BitVec 4
deriving DecidableEq

def Signature.word (s : Signature) : UInt32 :=
  ⟨s.highReserved ++ s.extendedFamily ++ s.extendedModel ++ s.reserved ++ s.type
    ++ s.family ++ s.model ++ s.stepping⟩

/-- A family and a model, as they are shown. -/
structure Identity where
  family : UInt32
  model : UInt32
deriving DecidableEq

/-- The family and the model that a signature word stands for. -/
def Identity.ofWord (word : UInt32) : Identity :=
  let base := (word >>> 8) &&& 0xF
  let low := (word >>> 4) &&& 0xF
  { family := if base = 0xF then base + ((word >>> 20) &&& 0xFF) else base
    model := if base = 0x6 ∨ base = 0xF then low ||| (((word >>> 16) &&& 0xF) <<< 4) else low }

end AdaptiveAdler
