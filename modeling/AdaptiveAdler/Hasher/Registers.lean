import AdaptiveAdler.Digest.Concat
import AdaptiveAdler.Hasher.Basic

/-! A row of hashers.

Hashers in numbered registers, started, fed, copied and combined by steps. Every
step writes at most one register. -/
namespace AdaptiveAdler

abbrev Registers (n : Nat) := Vector Hasher n

namespace Registers
variable {n : Nat}

def new (n : Nat) : Registers n := Vector.replicate n Hasher.new

def write {α : Type} (row : Vector α n) (r : Fin n) (a : α) : Vector α n := row.set r a r.isLt

theorem get_write {α : Type} (row : Vector α n) (r i : Fin n) (a : α) :
    (write row r a).get i = if i = r then a else row.get i := by
  show (row.set r a r.isLt)[i.val] = if i = r then a else row[i.val]
  simp only [Vector.getElem_set, Fin.ext_iff, eq_comm]

theorem write_get {α : Type} (row : Vector α n) (r : Fin n) : write row r (row.get r) = row :=
  Vector.set_getElem_self r.isLt

/-- A step and the register it is about. -/
inductive Step (n : Nat)
  | create (r : Fin n)
  | reset (r : Fin n)
  | resume (r : Fin n) (digest : UInt32)
  | update (r : Fin n) (b : Buffer)
  | updateAll (r : Fin n) (parts : List Buffer)
  /-- One buffer, fed in pieces of `size` bytes. -/
  | updatePieces (r : Fin n) (size : Nat) (positive : 0 < size) (b : Buffer)
  | copy (r source : Fin n)
  /-- The combination of registers `a` and `b`, the second for `length` bytes. -/
  | combine (r a b : Fin n) (length : UInt64)
  | read (r : Fin n)

def Step.register : Step n → Fin n
  | create r => r
  | reset r => r
  | resume r _ => r
  | update r _ => r
  | updateAll r _ => r
  | updatePieces r _ _ _ => r
  | copy r _ => r
  | combine r _ _ _ => r
  | read r => r

/-- The hasher that a step leaves in its register. -/
def result (engine : Engine) (regs : Registers n) : Step n → Hasher
  | .create _ => Hasher.new
  | .reset _ => Hasher.new
  | .resume _ digest => Hasher.resume digest
  | .update r b => (regs.get r).update engine b
  | .updateAll r parts => (regs.get r).updateAll engine parts
  | .updatePieces r size positive b => (regs.get r).updateAll engine (b.pieces size positive)
  | .copy _ source => regs.get source
  | .combine _ a b length =>
    Hasher.resume (AdaptiveAdler.combine (regs.get a).finalize (regs.get b).finalize length)
  | .read r => regs.get r

def step (engine : Engine) (regs : Registers n) (s : Step n) : Registers n :=
  write regs s.register (result engine regs s)

def run (engine : Engine) (regs : Registers n) (steps : List (Step n)) : Registers n :=
  steps.foldl (step engine) regs

end Registers
end AdaptiveAdler
