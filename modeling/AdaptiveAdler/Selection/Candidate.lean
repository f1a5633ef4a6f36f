import AdaptiveAdler.Capability.Set

/-! Choosing by requirement.

Candidates are listed best first, each with what it requires; the first whose
requirement is met is chosen. What is chosen may be anything. -/
namespace AdaptiveAdler

/-- Something with a name that can be chosen where its requirement is met. -/
structure Candidate (α : Type) where
  name : String
  requires : Caps
  target : α

structure Selected (α : Type) where
  name : String
  target : α

def Candidate.selected {α : Type} (c : Candidate α) : Selected α := ⟨c.name, c.target⟩

/-- The first candidate whose requirement is met. -/
def select {α : Type} (caps : Caps) (candidates : List (Candidate α)) : Option (Selected α) :=
  (candidates.find? fun c => caps.has c.requires).map Candidate.selected

end AdaptiveAdler
