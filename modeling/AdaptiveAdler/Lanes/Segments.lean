/-! Chunks as rows of bytes.

A vector kernel reads a chunk one segment at a time. A segment is a row of
exactly `n` bytes; bytes after the last whole segment are not read. -/
namespace AdaptiveAdler

/-- The whole segments of `n` bytes at the start of a byte string. -/
def segments (n : Nat) (bytes : List UInt8) : List (Vector UInt8 n) :=
  let row := bytes.take n
  if h : row.length = n ∧ 0 < n then
    ⟨row.toArray, by simp [row] at h ⊢; exact h.1⟩ :: segments n (bytes.drop n)
  else []
termination_by bytes.length
decreasing_by
  simp only [row, List.length_take] at h
  simp only [List.length_drop]
  omega

end AdaptiveAdler
