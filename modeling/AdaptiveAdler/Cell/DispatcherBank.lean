import AdaptiveAdler.Buffer
import AdaptiveAdler.Cell.Once
import AdaptiveAdler.Selection.Candidate

/-! Dispatchers.

A dispatcher asks a selector which routine to use, once, on first use, and stays
with the answer. It can be asked for the whole answer, for its name, for the
routine, or to run the routine. A bank is a growing list of dispatchers that share
one selector, whose answer may change while the bank is in use. -/
namespace AdaptiveAdler

/-- A way to bring a checksum up to date with a buffer. -/
abbrev Routine := UInt32 → Buffer → UInt32

inductive Access
  | selection
  | name
  | routine
  | call (digest : UInt32) (b : Buffer)

inductive AccessReply
  | selection (s : Selected Routine)
  | name (name : String)
  | routine (r : Routine)
  | digest (digest : UInt32)

/-- The reply of a dispatcher that is bound to `s`. -/
def Access.reply (s : Selected Routine) : Access → AccessReply
  | selection => .selection s
  | name => .name s.name
  | routine => .routine s.target
  | call digest b => .digest (s.target digest b)

/-- Dispatchers, in the order of their creation, and the selector they share. -/
structure DispatcherBank where
  /-- What the selector answers at present. -/
  answer : Selected Routine
  cells : List (WriteOnce (Selected Routine)) := []
  /-- How often the selector has been asked. -/
  asked : Nat := 0

namespace DispatcherBank

inductive Step
  /-- The selector answers differently from now on. -/
  | retarget (answer : Selected Routine)
  | create
  | use (index : Nat) (access : Access)

/-- The bank after one step, and what a used dispatcher replied. -/
def step (bank : DispatcherBank) : Step → Option AccessReply × DispatcherBank
  | .retarget answer => (none, {bank with answer := answer})
  | .create => (none, {bank with cells := bank.cells ++ [.empty]})
  | .use index access =>
    match bank.cells[index]? with
    | none => (none, bank)
    | some cell =>
      (some (access.reply (cell.deliver bank.answer)),
        { bank with
          cells := bank.cells.set index (cell.fill bank.answer)
          asked := if cell.value?.isSome then bank.asked else bank.asked + 1 })

def run (bank : DispatcherBank) : List Step → DispatcherBank
  | [] => bank
  | s :: rest => run (bank.step s).2 rest

theorem run_append (bank : DispatcherBank) (a b : List Step) :
    bank.run (a ++ b) = (bank.run a).run b := by
  induction a generalizing bank with
  | nil => rfl
  | cons s rest ih => exact ih _

end DispatcherBank
end AdaptiveAdler
