import AdaptiveAdler.Sums

/-! The checksum by definition.

Both sums are reduced after every byte, so nothing can overflow and nothing is
deferred. Every other way of summing in this library is measured against
`Bytewise.update`. -/
namespace AdaptiveAdler.Bytewise

/-- One byte, both sums reduced. -/
def step (s : Sums) (byte : UInt8) : Sums :=
  let plain := (s.plain + byte.toUInt32) % modulus
  ⟨plain, (s.weighted + plain) % modulus⟩

def run (s : Sums) (bytes : List UInt8) : Sums := bytes.foldl step s

theorem run_append (s : Sums) (a b : List UInt8) : run s (a ++ b) = run (run s a) b :=
  List.foldl_append

def update (digest : UInt32) (bytes : List UInt8) : UInt32 := (run (Sums.unpack digest) bytes).pack

end AdaptiveAdler.Bytewise
