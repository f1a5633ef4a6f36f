import AdaptiveAdler.Settings.Force
import AdaptiveAdler.Text.Number

/-! Environment variables.

The value of a variable is a byte string. A value that is not UTF-8 counts as
unset, and so does a blank one where a word or a number is expected. -/
namespace AdaptiveAdler

structure Environment where
  lookup : String → Option (List UInt8)

namespace Environment

def empty : Environment := ⟨fun _ => none⟩

def set (env : Environment) (name : String) (value : Option (List UInt8)) : Environment :=
  ⟨fun other => if other = name then value else env.lookup other⟩

/-- The characters that a byte string encodes, if it is UTF-8. -/
def decode? (bytes : List UInt8) : Option (List Char) :=
  (String.fromUTF8? bytes.toByteArray).map String.toList

def text? (env : Environment) (name : String) : Option (List Char) :=
  (env.lookup name).bind decode?

/-- The text of a variable that is set to more than blanks. -/
def word? (env : Environment) (name : String) : Option (List Char) :=
  (env.text? name).filter fun text => !(trim text).isEmpty

/-! ### The variables that are read -/

def forceVariable : String := "RSADLER_ADLER32_FORCE"

def thresholdVariable : String := "RSADLER_ADLER32_THRESHOLD_PORTABLE_TO_SIMD"

def keepWideVariable : String := "RSADLER_FORCE_AVX512"

/-- Is `1` or `true`, without blanks and in any case, the text of the variable that
keeps the widest extension on processors with unlike cores? -/
def keepsWide (env : Environment) : Bool :=
  match env.text? keepWideVariable with
  | none => false
  | some text => text == "1".toList || Force.foldCase text == "true".toList

end Environment

structure Overrides where
  force : Force := .auto
  threshold : Option Nat := none
deriving DecidableEq

/-- Lengths are 64-bit numbers. -/
def lengthBound : Nat := 0x10000000000000000

/-- What can be read from the environment; a value that cannot be read asks for nothing. -/
def Environment.overrides (env : Environment) : Overrides where
  force := ((env.word? forceVariable).bind Force.ofText?).getD .auto
  threshold := (env.word? thresholdVariable).bind fun text => Number.read? lengthBound (trim text)

end AdaptiveAdler
