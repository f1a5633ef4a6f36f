import AdaptiveAdler.Kernel.Catalogue

/-! Which kernels can run.

Two lists and a look-up for given capabilities. They are written apart on purpose,
each with its own requirements: one list shows names, narrowest first and with the
definition in front; the other gives the kernels to check, widest first and with the
portable one at the end. -/
namespace AdaptiveAdler.Inventory

/-- What a vector kernel asks for to be shown. -/
def shown : List (Caps × Extension) :=
  [(Caps.sse2, .sse2), (Caps.avx2Ready, .avx2), (Caps.avx512bwReady, .avx512bw)]

/-- The names of the kernels that can run, narrowest first. -/
def available (caps : Caps) : List String :=
  Kernel.bytewise.name :: Kernel.portable.name ::
    (Extension.allowed caps shown).map Extension.kernelName

/-- What a vector kernel asks for to be forced. -/
def forcible : List (Caps × Extension) :=
  [(Caps.avx512bwReady, .avx512bw), (Caps.avx2Ready, .avx2), (Caps.sse2, .sse2)]

/-- The kernels that can run, the definition apart: widest first, portable last. -/
def forced (caps : Caps) : List Kernel :=
  (Extension.allowed caps forcible).map Kernel.vector ++ [.portable]

/-- What a kernel asks for to be found. -/
def demand : Kernel → Caps
  | .bytewise => Caps.empty
  | .portable => Caps.empty
  | .vector .sse2 => Caps.sse2
  | .vector .avx2 => Caps.avx2Ready
  | .vector .avx512bw => Caps.avx512bwReady

/-- The kernel that answers to a name, if it can run. -/
def lookup (caps : Caps) (called : String) : Option Kernel :=
  (Kernel.named? called).filter fun k => caps.has (demand k)

/-- Does looking up this name ask what the processor can run? The definition and the
portable kernel are found without asking; any other name, known or not, asks. -/
def asksProcessor (called : String) : Bool :=
  !(Kernel.bytewise.answersTo called || Kernel.portable.answersTo called)

end AdaptiveAdler.Inventory
