/-! What can go wrong.

Nothing fails on the bytes themselves. What fails is a caller who breaks a
contract: a chunk of a length the kernel does not accept, a kernel the processor
cannot run, a geometry without room for one segment, or an attempt to override
capabilities that are already in use. A fault has one wording. -/
namespace AdaptiveAdler

/-- Why an override of the detected capabilities was refused. -/
inductive Refusal
  /-- The capabilities have been read already. -/
  | alreadyDetected
  /-- This build has no place for an override. -/
  | unsupported
deriving DecidableEq

def Refusal.message : Refusal → String
  | .alreadyDetected => "detection already initialized"
  | .unsupported => "overrides require the `std` feature"

inductive Fault
  /-- The length of a chunk is no positive multiple of the segment, or too large. -/
  | illegalLength
  | avx2Missing
  | avx512bwMissing
  | emptyPiece
  | overrideRefused (reason : Refusal)
deriving DecidableEq

namespace Fault

def assertion (condition : String) : String := "assertion failed: " ++ condition

def message : Fault → String
  | illegalLength =>
    assertion "!chunk.is_empty() && chunk.len().is_multiple_of(SEGMENT) && chunk.len() <= MAX_CHUNK"
  | avx2Missing => assertion "crate::adler32::effective_caps().has(x86::AVX2_READY)"
  | avx512bwMissing => assertion "crate::adler32::effective_caps().has(x86::AVX512BW_READY)"
  | emptyPiece => "chunk size must be non-zero"
  | overrideRefused reason => "platform::set_override failed: " ++ reason.message

end Fault
end AdaptiveAdler
