import AdaptiveAdler.Kernel.Extension
import AdaptiveAdler.Text.Blank

/-! Forcing a kernel.

An operator may ask for the portable kernel or for one of the vector kernels
instead of leaving the choice to the library. A request is one word; blanks around
it and the case of its ASCII letters do not matter. -/
namespace AdaptiveAdler

inductive Force
  | auto
  | portable
  | vector (e : Extension)
deriving DecidableEq

namespace Force

/-- The words a request may be made in, all in lower case. -/
def spellings : List (String × Force) :=
  [("auto", auto), ("portable", portable), ("scalar", portable), ("sse2", vector .sse2),
    ("avx2", vector .avx2), ("avx512", vector .avx512bw), ("avx512bw", vector .avx512bw),
    ("avx-512", vector .avx512bw)]

/-- ASCII letters in lower case; other characters as they are. -/
def foldCase (text : List Char) : List Char := text.map Char.toLower

def ofText? (text : List Char) : Option Force :=
  (spellings.find? fun entry => entry.1.toList == foldCase (trim text)).map Prod.snd

/-- The request as an operator would write it. -/
def word : Force → String
  | auto => "auto"
  | portable => "portable"
  | vector .sse2 => "sse2"
  | vector .avx2 => "avx2"
  | vector .avx512bw => "avx512"

/-- The request as it is written inside a longer description. -/
def tag : Force → String
  | auto => "Auto"
  | portable => "Portable"
  | vector .sse2 => "Sse2"
  | vector .avx2 => "Avx2"
  | vector .avx512bw => "Avx512"

/-- The outcome of reading a request, as it is written in a description. -/
def optionTag : Option Force → String
  | none => "None"
  | some f => "Some(" ++ f.tag ++ ")"

/-- The requirement a request has to meet; requests that always hold have none. -/
def requires : Force → Caps
  | auto => Caps.empty
  | portable => Caps.empty
  | vector .avx512bw => Caps.avx512bwReady
  | vector .avx2 => Caps.avx2Ready
  | vector .sse2 => Caps.sse2

/-- A request for a kernel that cannot run counts as no request. -/
def clamp (caps : Caps) (f : Force) : Force := if caps.has f.requires then f else auto

end Force
end AdaptiveAdler
