import AdaptiveAdler.Proofs.Agreement
import AdaptiveAdler.Session.Step

/-! No history shows in a checksum.

A session chooses an engine on first use and stays with it. Which one depends on the
processor, on the environment and on the steps taken so far; but no engine can be
told from another by its checksums, so neither can any two histories. -/
namespace AdaptiveAdler.Session

theorem updated_eq (p : Session) (digest : UInt32) (b : Buffer) :
    p.updated digest b = ⟨p.engine.kernelFor b.size, Bytewise.update digest b.bytes⟩ := by
  rw [updated, Engine.update_eq_bytewise]

/-- **Whatever a session of either build has done before**, on any processor and in any
environment, a hasher that goes on from any state ends with the checksum by
definition; and so does an update among other steps. -/
theorem update_ignores_history (build : Build) (cpu : Cpu) (environment : Environment)
    (before after : List Step) (digest : UInt32) (b : Buffer) :
    let start := fresh build cpu environment
    let engine := (start.run before).engine
    ((Hasher.resume digest).update engine b).finalize = Bytewise.update digest b.bytes ∧
      (start.answers (before ++ .update digest b :: after))[before.length]? =
        some (.update ⟨engine.kernelFor b.size, Bytewise.update digest b.bytes⟩) := by
  intro start engine
  refine ⟨Hasher.finalize_update engine _ b, ?_⟩
  have hlen := start.length_answers before
  rw [answers_append, List.getElem?_append_right (by omega), hlen, Nat.sub_self]
  show some (Answer.update ((start.run before).updated digest b)) = _
  rw [updated_eq]

end AdaptiveAdler.Session
