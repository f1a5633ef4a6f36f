import AdaptiveAdler.Selection.Inventory
import AdaptiveAdler.Text.Number

/-! Checking the kernels against each other.

Every kernel that can run is run on the same bytes, and their outcomes are compared
with the first one, which is that of the definition; and the vector kernels are also
called directly, each on the longest prefix it accepts, with the sums prepared and
reduced as an update would do it. Outcomes that do not agree have a text. -/
namespace AdaptiveAdler.SelfCheck

/-! ### Whole updates -/

/-- What a kernel made of the bytes. -/
structure Outcome where
  kernel : Kernel
  digest : UInt32
deriving DecidableEq

/-- Every kernel that can run, the definition first. The state is taken as it is. -/
def runAll (caps : Caps) (digest : UInt32) (b : Buffer) : List Outcome :=
  (Kernel.bytewise :: Inventory.forced caps).map fun k => ⟨k, k.update digest b⟩

/-- Why outcomes do not agree. -/
inductive Disagreement
  /-- There is none to agree with. -/
  | noKernels
  /-- One of the others differs from the first. -/
  | mismatch (first other : Outcome)
deriving DecidableEq

def Disagreement.message : Disagreement → String
  | noKernels => "no kernels available"
  | mismatch first other =>
    "kernel mismatch: " ++ first.kernel.name ++ " produced " ++ Number.hexWord first.digest
      ++ ", but " ++ other.kernel.name ++ " produced " ++ Number.hexWord other.digest

/-- The checksum of the first outcome, if the others have the same. -/
def agreement : List Outcome → Except Disagreement UInt32
  | [] => .error .noKernels
  | first :: rest =>
    match rest.find? (·.digest != first.digest) with
    | some other => .error (.mismatch first other)
    | none => .ok first.digest

def verify (caps : Caps) (b : Buffer) : Except Disagreement UInt32 :=
  agreement (runAll caps initial b)

/-- Agreement from any state, both halves of which are reduced first. -/
def verifyFrom (caps : Caps) (digest : UInt32) (b : Buffer) : Except Disagreement UInt32 :=
  agreement (runAll caps (normalize digest) b)

/-! ### Single chunks -/

/-- What a vector kernel made of one chunk, and what the definition makes of it. -/
structure ChunkOutcome where
  extension : Extension
  length : Nat
  digest : UInt32
  expected : UInt32
deriving DecidableEq

/-- What is said of a chunk on which a kernel differs from the definition. -/
def ChunkOutcome.message (o : ChunkOutcome) : String :=
  "chunk mismatch: " ++ o.extension.kernelName ++ " over " ++ toString o.length
    ++ " bytes produced " ++ Number.hexWord o.digest ++ ", reference "
    ++ Number.hexWord o.expected

/-- One vector kernel on the longest prefix that it accepts; none if that is empty. -/
def runChunk (caps : Caps) (digest : UInt32) (b : Buffer) (e : Extension) :
    Except Fault (Option ChunkOutcome) :=
  let start := (Sums.unpack digest).reduce
  let length := e.geometry.longestLegal b.size
  let chunk := b.bytes.take length
  if chunk.isEmpty then .ok none
  else
    match e.accumulateOn caps (ChunkKernel.entry start length) chunk with
    | .error fault => .error fault
    | .ok sums => .ok (some ⟨e, length, sums.reduce.pack, Bytewise.update start.pack chunk⟩)

/-- The outcomes for extensions in order, up to the first fault. -/
def runChunksOf (caps : Caps) (digest : UInt32) (b : Buffer) :
    List Extension → Except Fault (List ChunkOutcome)
  | [] => .ok []
  | e :: rest =>
    match runChunk caps digest b e with
    | .error fault => .error fault
    | .ok outcome => (runChunksOf caps digest b rest).map (outcome.toList ++ ·)

/-- What a vector kernel asks for to be tried on a chunk. The narrowest asks for what it
declares. -/
def tried : List (Caps × Extension) :=
  [(Extension.requires .sse2, .sse2), (Caps.avx2Ready, .avx2), (Caps.avx512bwReady, .avx512bw)]

/-- Every vector kernel that can run, narrowest first. -/
def runChunks (caps : Caps) (digest : UInt32) (b : Buffer) : Except Fault (List ChunkOutcome) :=
  runChunksOf caps digest b (Extension.allowed caps tried)

/-- The first outcome in which a kernel differs from the definition, if there is one. -/
def disagreeing (outcomes : List ChunkOutcome) : Option ChunkOutcome :=
  outcomes.find? fun o => o.digest != o.expected

def verifyChunks (caps : Caps) (digest : UInt32) (b : Buffer) :
    Except Fault (Option ChunkOutcome) :=
  (runChunks caps digest b).map disagreeing

end AdaptiveAdler.SelfCheck
