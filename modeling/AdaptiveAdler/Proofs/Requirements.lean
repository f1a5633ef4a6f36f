import AdaptiveAdler.Diagnosis
import AdaptiveAdler.SelfCheck

/-! Requirements agree.

What a vector kernel needs is declared with it, and written down once more by everyone who
guards it: by the rungs of the ladder, for a request, for the names shown, the kernels checked
and the chunks tried, for a look-up, for the flags of a diagnosis and before a single chunk. All
of them ask for what is declared, so everywhere below `Extension.requires` can stand for them. -/
namespace AdaptiveAdler

/-! ### Lists with requirements -/

namespace Extension
variable {caps : Caps} {entries : List (Caps × Extension)}

theorem mem_all (e : Extension) : e ∈ all := by
  cases e <;> decide

/-- Every entry asks for what its extension declares. -/
def AskAsDeclared (entries : List (Caps × Extension)) : Prop :=
  ∀ entry ∈ entries, entry.1 = entry.2.requires

instance : Decidable (AskAsDeclared entries) :=
  inferInstanceAs (Decidable (∀ entry ∈ entries, entry.1 = entry.2.requires))

theorem allowed_eq (h : AskAsDeclared entries) :
    allowed caps entries = (entries.map Prod.snd).filter fun e => caps.has e.requires := by
  rw [allowed, List.filter_map]
  refine congrArg (List.map Prod.snd) (List.filter_congr fun entry hentry => ?_)
  rw [h entry hentry]
  rfl

theorem allowed_shown (caps : Caps) :
    allowed caps Inventory.shown = all.filter fun e => caps.has e.requires :=
  allowed_eq (by decide)

theorem allowed_forcible (caps : Caps) :
    allowed caps Inventory.forcible = all.reverse.filter fun e => caps.has e.requires :=
  allowed_eq (by decide)

theorem allowed_tried (caps : Caps) :
    allowed caps SelfCheck.tried = all.filter fun e => caps.has e.requires :=
  allowed_eq (by decide)

/-! ### Single requirements -/

/-- What is noticed before a chunk is taken is that a declared capability is missing. -/
theorem missing_eq_none_of_has {e : Extension} (h : caps.has e.requires = true) :
    e.missing caps = none := by
  cases e with
  | sse2 => rfl
  | avx2 | avx512bw => exact if_pos h

end Extension

theorem ladder_eq : ladder = Extension.all.reverse.map fun e => e.candidate e.requires := rfl

theorem Force.requires_vector (e : Extension) : (vector e).requires = e.requires := by
  cases e <;> rfl

theorem Inventory.demand_eq (k : Kernel) : demand k = k.requires := by
  cases k with
  | bytewise | portable => rfl
  | vector e => cases e <;> rfl

theorem runnable_diagnose (caps : Caps) (config : Config) (engine : Engine) (length : Nat) :
    (diagnose caps config engine length).runnable =
      Extension.all.map fun e => caps.has e.requires := rfl

end AdaptiveAdler
