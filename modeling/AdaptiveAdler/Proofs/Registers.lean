import AdaptiveAdler.Hasher.Registers
import AdaptiveAdler.Proofs.Concat

/-! Registers keep byte logs.

A `Log` is what a register stands for: the checksum it went on from and the bytes it
has been fed since. Steps act on logs without computing anything but the value of a
combination that is no concatenation. Whatever the engine, and however a message is
divided among buffers, every register holds the checksum of its log after every step
(`run_refines`). -/
namespace AdaptiveAdler

structure Log where
  start : UInt32
  bytes : List UInt8

namespace Log

/-- The checksum of the bytes from the start. -/
def digest (l : Log) : UInt32 := Bytewise.update l.start l.bytes

def new : Log := ⟨initial, []⟩

def resume (digest : UInt32) : Log := ⟨digest, []⟩

def feed (l : Log) (bytes : List UInt8) : Log := {l with bytes := l.bytes ++ bytes}

/-- The bytes of both, if the second log begins where checksums begin and is as long as
said; otherwise nothing but a value. -/
def combine (a b : Log) (length : UInt64) : Log :=
  if b.start = initial ∧ length.toNat = b.bytes.length then ⟨normalize a.start, a.bytes ++ b.bytes⟩
  else resume (AdaptiveAdler.combine a.digest b.digest length)

theorem digest_resume (digest : UInt32) : (resume digest).digest = digest :=
  Bytewise.update_nil digest

theorem digest_feed (l : Log) (bytes : List UInt8) :
    (l.feed bytes).digest = Bytewise.update l.digest bytes :=
  (Bytewise.update_append l.start l.bytes bytes).symm

theorem digest_combine (a b : Log) (length : UInt64) :
    (a.combine b length).digest = AdaptiveAdler.combine a.digest b.digest length := by
  rw [combine]
  split
  · next h =>
    obtain ⟨hstart, hlength⟩ := h
    have hb : b.digest = Bytewise.update initial b.bytes := by rw [digest, hstart]
    rw [hb, combine_update a.digest hlength, digest, digest, Bytewise.update_normalize_append]
  · exact digest_resume _

end Log

namespace Registers
variable {n : Nat}

/-- The log that a step leaves in its register. -/
def logResult (logs : Vector Log n) : Step n → Log
  | .create _ => .new
  | .reset _ => .new
  | .resume _ digest => .resume digest
  | .update r b => (logs.get r).feed b.bytes
  | .updateAll r parts => (logs.get r).feed (parts.flatMap Buffer.bytes)
  | .updatePieces r _ _ b => (logs.get r).feed b.bytes
  | .copy _ source => logs.get source
  | .combine _ a b length => (logs.get a).combine (logs.get b) length
  | .read r => logs.get r

def logStep (logs : Vector Log n) (s : Step n) : Vector Log n :=
  write logs s.register (logResult logs s)

def logRun (logs : Vector Log n) (steps : List (Step n)) : Vector Log n := steps.foldl logStep logs

/-- Every register holds the checksum of its log. -/
def Refines (regs : Registers n) (logs : Vector Log n) : Prop :=
  ∀ r : Fin n, (regs.get r).finalize = (logs.get r).digest

theorem refines_new : Refines (new n) (Vector.replicate n .new) := by
  intro r
  simp only [new, Vector.get_replicate]
  exact (Log.digest_resume initial).symm

section Step
variable {regs : Registers n} {logs : Vector Log n} (h : Refines regs logs) (engine : Engine)
include h

/-- What a step leaves in its register is the checksum of the log it leaves. -/
theorem result_refines (s : Step n) :
    (result engine regs s).finalize = (logResult logs s).digest := by
  cases s with
  | create r => exact (Log.digest_resume initial).symm
  | reset r => exact (Log.digest_resume initial).symm
  | resume r digest => exact (Log.digest_resume digest).symm
  | update r b =>
    rw [result, logResult, Hasher.finalize_update, Log.digest_feed, h r]
  | updateAll r parts =>
    rw [result, logResult, Hasher.finalize_updateAll, Log.digest_feed, h r]
  | updatePieces r size positive b =>
    rw [result, logResult, Hasher.finalize_updateAll, Buffer.flatMap_pieces, Log.digest_feed, h r]
  | copy r source => exact h source
  | combine r a b length =>
    rw [result, logResult, Log.digest_combine, ← h a, ← h b]
    rfl
  | read r => exact h r

theorem step_refines (s : Step n) : Refines (step engine regs s) (logStep logs s) := by
  intro r
  rw [step, logStep, get_write, get_write]
  split
  · exact result_refines h engine s
  · exact h r

theorem run_refines (steps : List (Step n)) :
    Refines (run engine regs steps) (logRun logs steps) := by
  induction steps generalizing regs logs with
  | nil => exact h
  | cons s rest ih => exact ih (step_refines h engine s)

end Step

theorem get_step (engine : Engine) (regs : Registers n) (s : Step n) (r : Fin n) :
    (step engine regs s).get r = if r = s.register then result engine regs s else regs.get r :=
  get_write regs s.register r _

theorem step_read (engine : Engine) (regs : Registers n) (r : Fin n) :
    step engine regs (.read r) = regs :=
  write_get regs r

/-- **Hashers keep byte logs.** After any steps over any number of registers, every
register holds the checksum of its log; one more step leaves all registers but its own
as they are, and reading one leaves them all. -/
theorem registers_keep_logs (engine : Engine) (steps : List (Step n)) :
    let regs := run engine (new n) steps
    let logs := logRun (Vector.replicate n .new) steps
    (∀ r : Fin n, (regs.get r).finalize = Bytewise.update (logs.get r).start (logs.get r).bytes) ∧
      (∀ (s : Step n) (r : Fin n),
        (step engine regs s).get r = if r = s.register then result engine regs s else regs.get r) ∧
      ∀ r : Fin n, step engine regs (.read r) = regs :=
  ⟨run_refines refines_new engine steps, fun s r => get_step engine _ s r,
    fun r => step_read engine _ r⟩

end Registers
end AdaptiveAdler
