import AdaptiveAdler.Capability.Text
import AdaptiveAdler.Kernel.Catalogue

/-! What a session says about itself.

A description names the capabilities in use, and in its long form their family, and says
whether they were overridden; a dispatch report adds the kernel that the session is bound
to. Both have a short form for people and a long one with field names. -/
namespace AdaptiveAdler

structure Description where
  detected : Detected
  overridden : Bool
deriving DecidableEq

namespace Description

def text (d : Description) : String :=
  d.detected.caps.text ++ if d.overridden then " (override)" else ""

def longText (d : Description) : String :=
  "Description \x7b arch: " ++ d.detected.architecture.tag ++ ", caps: " ++ d.detected.caps.text
    ++ ", overridden: " ++ (if d.overridden then "true" else "false") ++ " \x7d"

end Description

structure DispatchReport where
  platform : Description
  backend : Kernel
deriving DecidableEq

namespace DispatchReport

def text (r : DispatchReport) : String := r.platform.text ++ " adler32=" ++ r.backend.name

def longText (r : DispatchReport) : String :=
  "DispatchInfo \x7b platform: " ++ r.platform.longText ++ ", adler32: \"" ++ r.backend.name
    ++ "\" \x7d"

end DispatchReport
end AdaptiveAdler
