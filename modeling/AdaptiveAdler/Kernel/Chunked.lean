import AdaptiveAdler.Fault
import AdaptiveAdler.Kernel.Schedule

/-! Kernels that sum chunks.

A chunk kernel knows how to add one chunk onto the two sums without reducing
them, and nothing else. `MeetsContract` says what it has to add. The rest is
common to all of them: the schedule, the share of the weighted sum that the bytes
before a chunk contribute, the reduction after each chunk, and the bytes of the
lead and the tail. -/
namespace AdaptiveAdler

/-- A kernel that adds a chunk of a legal length onto the sums. -/
structure ChunkKernel where
  geometry : Geometry
  accumulate : Sums → List UInt8 → Sums

namespace ChunkKernel

/-- What `accumulate` adds to the sums: those of the chunk alone, as if nothing came before it. -/
def contribution (s : Sums) (chunk : List UInt8) : Sums :=
  ⟨s.plain + UInt32.ofNat (byteSum chunk), s.weighted + UInt32.ofNat (weightedSum chunk)⟩

/-- On every legal chunk the kernel adds the sums of the chunk. -/
def MeetsContract (k : ChunkKernel) : Prop :=
  ∀ s chunk, k.geometry.Legal chunk.length → k.accumulate s chunk = contribution s chunk

/-- The sums a chunk is added to: every byte before it counts once more for every byte in it. -/
def entry (s : Sums) (length : Nat) : Sums :=
  ⟨s.plain, s.weighted + s.plain * UInt32.ofNat length⟩

def consume (k : ChunkKernel) (s : Sums) (chunk : List UInt8) : Sums :=
  (k.accumulate (entry s chunk.length) chunk).reduce

def consumeBytes (s : Sums) (bytes : List UInt8) : Sums := (s.absorbAll bytes).reduce

def run (k : ChunkKernel) (s : Sums) (p : Schedule) : Sums :=
  consumeBytes
    (p.pieces.foldl (fun s piece => k.consume s piece.bytes) (consumeBytes s p.lead.bytes))
    p.tail.bytes

/-- An update by a kernel whose geometry has room for a segment. The empty buffer
leaves the checksum as it is, reduced or not. -/
def sum (k : ChunkKernel) (room : 0 < k.geometry.pieceSize) (digest : UInt32) (b : Buffer) : UInt32 :=
  if b.bytes.isEmpty then digest
  else (k.run (Sums.unpack digest) (k.geometry.schedule room b)).pack

/-- An update by any kernel. A geometry without room for a segment is a fault, unless
there is nothing to sum. -/
def update (k : ChunkKernel) (digest : UInt32) (b : Buffer) : Except Fault UInt32 :=
  if b.bytes.isEmpty then .ok digest
  else if room : 0 < k.geometry.pieceSize then .ok (k.sum room digest b)
  else .error .emptyPiece

/-- A single chunk of a checked length. -/
def accumulateChecked (k : ChunkKernel) (s : Sums) (chunk : List UInt8) : Except Fault Sums :=
  if k.geometry.Legal chunk.length then .ok (k.accumulate s chunk) else .error .illegalLength

/-! ### What a kernel is called with -/

/-- One call of `accumulate`: the chunk, and the sums it is added to. -/
structure Call where
  piece : Buffer
  sums : Sums

/-- The calls made for consecutive pieces, starting from sums `s`. -/
def callsFrom (k : ChunkKernel) (s : Sums) : List Buffer → List Call
  | [] => []
  | piece :: rest => ⟨piece, entry s piece.size⟩ :: callsFrom k (k.consume s piece.bytes) rest

/-- Every call made during an update, in order. -/
def calls (k : ChunkKernel) (digest : UInt32) (b : Buffer) : List Call :=
  if b.bytes.isEmpty then []
  else if room : 0 < k.geometry.pieceSize then
    let p := k.geometry.schedule room b
    k.callsFrom (consumeBytes (Sums.unpack digest) p.lead.bytes) p.pieces
  else []

/-! ### The plainest chunk kernel -/

/-- Sums a chunk byte by byte and adds the result, whatever the geometry. -/
def scalar (g : Geometry) : ChunkKernel where
  geometry := g
  accumulate s chunk :=
    let own := Sums.absorbAll ⟨0, 0⟩ chunk
    ⟨s.plain + own.plain, s.weighted + own.weighted⟩

end ChunkKernel
end AdaptiveAdler
