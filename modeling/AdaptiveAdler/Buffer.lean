/-! Byte strings in memory.

A checksum is a function of the bytes alone, but a kernel that works on aligned
chunks has to know where the bytes lie. A `Buffer` is a byte string and the
address of its first byte; cutting one keeps the addresses right. -/
namespace AdaptiveAdler

/-- A byte string and the address of its first byte. -/
structure Buffer where
  bytes : List UInt8
  address : Nat := 0

namespace Buffer

def size (b : Buffer) : Nat := b.bytes.length

def take (n : Nat) (b : Buffer) : Buffer := ⟨b.bytes.take n, b.address⟩

def drop (n : Nat) (b : Buffer) : Buffer := ⟨b.bytes.drop n, b.address + n⟩

/-- How many bytes lie before the next multiple of `alignment`, if the buffer reaches it. -/
def padding (alignment : Nat) (b : Buffer) : Nat :=
  (alignment - b.address % alignment) % alignment

def AlignedTo (alignment : Nat) (b : Buffer) : Prop := alignment ∣ b.address

theorem bytes_take (n : Nat) (b : Buffer) : (b.take n).bytes = b.bytes.take n := rfl

theorem bytes_drop (n : Nat) (b : Buffer) : (b.drop n).bytes = b.bytes.drop n := rfl

theorem drop_drop (m n : Nat) (b : Buffer) : (b.drop m).drop n = b.drop (m + n) := by
  simp only [drop, List.drop_drop, Nat.add_assoc]

theorem size_take (n : Nat) (b : Buffer) : (b.take n).size = min n b.size := List.length_take ..

theorem size_drop (n : Nat) (b : Buffer) : (b.drop n).size = b.size - n := List.length_drop ..

/-- Consecutive pieces of `n` bytes; the last one holds what is left. -/
def pieces (n : Nat) (positive : 0 < n) (b : Buffer) : List Buffer :=
  if b.bytes.isEmpty then [] else b.take n :: pieces n positive (b.drop n)
termination_by b.size
decreasing_by
  rename_i h
  cases hb : b.bytes with
  | nil => simp [hb] at h
  | cons x rest => simp [size, drop, hb]; omega

theorem pieces_nil {n : Nat} {positive : 0 < n} {b : Buffer} (h : b.bytes = []) :
    b.pieces n positive = [] := by
  rw [pieces, h]
  rfl

theorem pieces_cons {n : Nat} {positive : 0 < n} {b : Buffer} (h : b.bytes ≠ []) :
    b.pieces n positive = b.take n :: (b.drop n).pieces n positive := by
  rw [pieces, if_neg (mt List.isEmpty_iff.mp h)]

theorem flatMap_pieces (n : Nat) (positive : 0 < n) (b : Buffer) :
    (b.pieces n positive).flatMap bytes = b.bytes := by
  fun_induction pieces n positive b with
  | case1 b h => simp [List.isEmpty_iff.mp h]
  | case2 b _ ih => simp [ih, bytes_take, bytes_drop]

/-- No piece is empty, and none is longer than `n`. -/
theorem size_of_mem_pieces {n : Nat} {positive : 0 < n} {b p : Buffer}
    (h : p ∈ b.pieces n positive) : 0 < p.size ∧ p.size ≤ n := by
  fun_induction pieces n positive b with
  | case1 b => cases h
  | case2 b hne ih =>
    rcases List.mem_cons.mp h with rfl | h
    · have hpos : 0 < b.size := by
        rw [size, List.length_pos_iff, ne_eq, ← List.isEmpty_iff]
        exact hne
      rw [size_take]
      omega
    · exact ih h

/-- Where segments fill both a full piece and the whole buffer, they fill every piece. -/
theorem dvd_size_of_mem_pieces {n segment : Nat} {positive : 0 < n} {b p : Buffer}
    (hn : segment ∣ n) (hb : segment ∣ b.size) (h : p ∈ b.pieces n positive) :
    segment ∣ p.size := by
  fun_induction pieces n positive b with
  | case1 b => cases h
  | case2 b _ ih =>
    rcases List.mem_cons.mp h with rfl | h
    · rw [size_take]
      rcases Nat.le_total n b.size with hle | hle
      · rwa [Nat.min_eq_left hle]
      · rwa [Nat.min_eq_right hle]
    · exact ih (by rw [size_drop]; exact Nat.dvd_sub hb hn) h

/-- The parts of a buffer between consecutive offsets, and the part after the last one.
The buffer itself begins at offset `start`. -/
def cutAt (start : Nat) (b : Buffer) : List Nat → List Buffer
  | [] => [b]
  | offset :: rest => b.take (offset - start) :: cutAt offset (b.drop (offset - start)) rest

end Buffer
end AdaptiveAdler
