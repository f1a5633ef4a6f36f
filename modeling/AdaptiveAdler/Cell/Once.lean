/-! Cells that are written once.

A decision that a process makes on first use is kept in a cell: the first value
put in stays, and a later one is not even computed. `WriteOnce` says just that.
`Phased` is a cell for programs without an operating system: a phase that moves
from empty over writing to full, and a slot that means nothing until the cell is
full. Whoever finds it in the phase of writing waits for the writer; used by one
thread, it is never found so. -/
namespace AdaptiveAdler

inductive CellStep (α : Type)
  | get
  /-- Asks for the value, offering one to compute if there is none. -/
  | getOrInit (offered : α)

/-- What a user of a cell sees: the value, if there is one, and how many values
have been computed so far. -/
structure CellReply (α : Type) where
  value : Option α
  computed : Nat
deriving DecidableEq

/-! ### The cell as an optional value -/

structure WriteOnce (α : Type) where
  value? : Option α := none
deriving DecidableEq

namespace WriteOnce
variable {α : Type}

def empty : WriteOnce α := ⟨none⟩

def deliver (c : WriteOnce α) (offered : α) : α := c.value?.getD offered

def fill (c : WriteOnce α) (offered : α) : WriteOnce α := ⟨some (c.deliver offered)⟩

theorem deliver_of_value {c : WriteOnce α} {a : α} (h : c.value? = some a) (b : α) :
    c.deliver b = a := by
  rw [deliver, h, Option.getD_some]

/-- A cell offered what it would deliver takes just that. -/
theorem fill_deliver (c : WriteOnce α) (a : α) :
    (c.fill (c.deliver a)).value? = some (c.deliver a) := by
  cases h : c.value? <;> simp only [fill, deliver, h, Option.getD_none, Option.getD_some]

structure Counted (α : Type) where
  cell : WriteOnce α := empty
  computed : Nat := 0

def Counted.step (s : Counted α) : CellStep α → CellReply α × Counted α
  | .get => (⟨s.cell.value?, s.computed⟩, s)
  | .getOrInit offered =>
    let computed := if s.cell.value?.isSome then s.computed else s.computed + 1
    (⟨some (s.cell.deliver offered), computed⟩, ⟨s.cell.fill offered, computed⟩)

def Counted.replies (s : Counted α) : List (CellStep α) → List (CellReply α)
  | [] => []
  | step :: rest => (s.step step).1 :: replies (s.step step).2 rest

end WriteOnce

/-! ### The cell in phases -/

inductive Phase
  | empty
  | writing
  | full
deriving DecidableEq

/-- A phase, a slot, and how many values have been computed. A slot that nothing has
been written to holds nothing. -/
structure Phased (α : Type) where
  phase : Phase := .empty
  slot : Option α := none
  computed : Nat := 0

namespace Phased
variable {α : Type}

/-- The slot is read only in a full cell. -/
def get (s : Phased α) : Option α :=
  match s.phase with
  | .full => s.slot
  | .empty => none
  | .writing => none

/-- Takes the right to write, which only an empty cell has to give. -/
def acquire (s : Phased α) : Option (Phased α) :=
  match s.phase with
  | .empty => some {s with phase := .writing}
  | .writing => none
  | .full => none

/-- Computes a value, writes it and publishes it. -/
def publish (s : Phased α) (value : α) : Phased α := ⟨.full, some value, s.computed + 1⟩

/-- One step. A step that would wait for another writer has no outcome. -/
def step (s : Phased α) : CellStep α → Option (CellReply α × Phased α)
  | .get => some (⟨s.get, s.computed⟩, s)
  | .getOrInit offered =>
    match s.get with
    | some value => some (⟨some value, s.computed⟩, s)
    | none => s.acquire.map fun writing =>
        let published := writing.publish offered
        (⟨some offered, published.computed⟩, published)

/-- The replies to a sequence of steps, up to the first step that never ends. -/
def replies (s : Phased α) : List (CellStep α) → List (CellReply α)
  | [] => []
  | step :: rest =>
    match s.step step with
    | some (reply, next) => reply :: replies next rest
    | none => []

end Phased
end AdaptiveAdler
