import AdaptiveAdler.Proofs.Chunked

/-! How a buffer is divided.

Parts of a buffer that lie end to end and leave nothing out tile it (`Buffer.Tiles`). The
schedule of a geometry tiles the buffer with a lead, pieces and a tail; the pieces are
chunks the kernel accepts, all but the last as long as they may be, and they begin where
the alignment wants them (`Geometry.divides_schedule`), the first always and the others
if a full piece keeps the alignment. -/
namespace AdaptiveAdler

/-! ### Buffers end to end -/

namespace Buffer

/-- The parts lie end to end and are the whole buffer: the first begins where the buffer
does, each other one where the one before it ends, and nothing is left. -/
def Tiles (b : Buffer) : List Buffer → Prop
  | [] => b.bytes = []
  | p :: rest => p = b.take p.size ∧ (b.drop p.size).Tiles rest

theorem drop_zero (b : Buffer) : b.drop 0 = b := rfl

theorem take_take {m n : Nat} (h : m ≤ n) (b : Buffer) : (b.take n).take m = b.take m := by
  rw [take, bytes_take, List.take_take, Nat.min_eq_left h]
  rfl

theorem drop_take (m n : Nat) (b : Buffer) : (b.take n).drop m = (b.drop m).take (n - m) := by
  rw [drop, bytes_take, List.drop_take]
  rfl

theorem tiles_self (b : Buffer) : b.Tiles [b] := by
  constructor
  · rw [take, size, List.take_length]
  · exact List.drop_length ..

/-- Parts of a first half followed by parts of the second are parts of the whole. -/
theorem Tiles.append {n : Nat} {b : Buffer} {front back : List Buffer} (hn : n ≤ b.size)
    (hfront : (b.take n).Tiles front) (hback : (b.drop n).Tiles back) :
    b.Tiles (front ++ back) := by
  induction front generalizing n b with
  | nil =>
    have hzero : n = 0 := by
      have hsize : (b.take n).size = 0 := congrArg List.length hfront
      rw [size_take] at hsize
      omega
    rwa [hzero, drop_zero] at hback
  | cons p rest ih =>
    obtain ⟨hp, hrest⟩ := hfront
    have hsize : p.size ≤ n := by
      have := congrArg size hp
      rw [size_take, size_take] at this
      omega
    rw [take_take hsize] at hp
    rw [drop_take] at hrest
    refine ⟨hp, ih ?_ hrest ?_⟩
    · rw [size_drop]
      omega
    · rwa [drop_drop, Nat.add_sub_cancel' hsize]

/-! ### Pieces of a buffer -/

variable {n : Nat} {positive : 0 < n}

theorem tiles_pieces (b : Buffer) : b.Tiles (b.pieces n positive) := by
  fun_induction pieces n positive b with
  | case1 b h => exact List.isEmpty_iff.mp h
  | case2 b _ ih =>
    rcases Nat.le_total n b.size with hle | hle
    · have hsize : (b.take n).size = n := by rw [size_take, Nat.min_eq_left hle]
      rw [Tiles, hsize]
      exact ⟨rfl, ih⟩
    · -- The buffer ends inside this piece, which is therefore the last one.
      have hdrop : (b.drop n).bytes = [] := List.drop_eq_nil_of_le hle
      have htake : b.take n = b := by
        rw [take, List.take_of_length_le hle]
      rw [pieces_nil hdrop, htake]
      exact tiles_self b

/-- All pieces but the last are full. -/
theorem size_of_mem_dropLast_pieces {b p : Buffer} (h : p ∈ (b.pieces n positive).dropLast) :
    p.size = n := by
  fun_induction pieces n positive b with
  | case1 b => cases h
  | case2 b _ ih =>
    by_cases hnil : (b.drop n).bytes = []
    · rw [pieces_nil hnil] at h
      cases h
    · have hsize : n < b.size := by
        have := List.length_pos_iff.mpr hnil
        rw [bytes_drop, List.length_drop] at this
        exact Nat.lt_of_sub_pos this
      rw [pieces_cons hnil, List.dropLast_cons_cons, ← pieces_cons hnil] at h
      rcases List.mem_cons.mp h with rfl | h
      · rw [size_take]
        omega
      · exact ih h

/-! ### Where pieces begin -/

variable {alignment : Nat}

/-- The padding reaches an aligned address. -/
theorem dvd_address_add_padding (halign : 0 < alignment) (b : Buffer) :
    alignment ∣ b.address + b.padding alignment := by
  have hmod := Nat.mod_lt b.address halign
  apply Nat.dvd_of_mod_eq_zero
  rw [padding, Nat.add_mod_mod, ← Nat.mod_add_mod, Nat.add_sub_cancel' (Nat.le_of_lt hmod),
    Nat.mod_self]

theorem address_of_mem_head_pieces {b p : Buffer} (h : p ∈ (b.pieces n positive).head?) :
    p.address = b.address := by
  by_cases hb : b.bytes = []
  · rw [pieces_nil hb] at h
    cases h
  · rw [pieces_cons hb] at h
    cases h
    rfl

theorem alignedTo_of_mem_pieces {b p : Buffer} (hn : alignment ∣ n) (hb : b.AlignedTo alignment)
    (h : p ∈ b.pieces n positive) : p.AlignedTo alignment := by
  fun_induction pieces n positive b with
  | case1 b => cases h
  | case2 b _ ih =>
    rcases List.mem_cons.mp h with rfl | h
    · exact hb
    · exact ih (Nat.dvd_add hb hn) h

end Buffer

/-! ### Pieces of a schedule -/

namespace Geometry
variable {g : Geometry}

/-- There is room for a segment exactly if one fits both the kernel and the deferral limit. -/
theorem pieceSize_pos_iff (hsegment : 0 < g.segment) :
    0 < g.pieceSize ↔ g.segment ≤ min deferralLimit g.largest := by
  rw [pieceSize, Nat.mul_pos_iff_of_pos_right hsegment, Nat.div_pos_iff]
  exact ⟨And.right, fun h => ⟨hsegment, h⟩⟩

/-- What the pieces of a buffer have to be for a kernel of this geometry. -/
structure Divides (g : Geometry) (b : Buffer) (pieces : List Buffer) : Prop where
  /-- The kernel accepts every piece, and none is too long to go without a reduction. -/
  legal : ∀ p ∈ pieces, g.Legal p.size ∧ p.size ≤ deferralLimit
  full : ∀ p ∈ pieces.dropLast, p.size = g.pieceSize
  /-- Between a lead, which ends where the alignment or the buffer does, and a tail, which
  holds no segment, the pieces cover the buffer. -/
  covered : ∃ tail : Buffer, tail.size < g.segment ∧
    b.Tiles (b.take (min (b.padding g.alignment) b.size) :: pieces ++ [tail])
  first_aligned : ∀ p ∈ pieces.head?, p.AlignedTo g.alignment
  aligned : g.alignment ∣ g.pieceSize → ∀ p ∈ pieces, p.AlignedTo g.alignment

variable (room : 0 < g.pieceSize) (b : Buffer)

theorem tiles_schedule :
    b.Tiles ((g.schedule room b).lead :: (g.schedule room b).pieces ++ [(g.schedule room b).tail]) := by
  have hlead : (g.schedule room b).lead.size = min (b.padding g.alignment) b.size :=
    size_lead room b
  constructor
  · rw [hlead]
    rfl
  · rw [hlead]
    exact Buffer.Tiles.append (Nat.div_mul_le_self ..) (Buffer.tiles_pieces _) (Buffer.tiles_self _)

/-- If there is a piece, the lead is the whole padding and ends at an aligned address. -/
theorem alignedTo_drop_lead (halign : 0 < g.alignment) {p : Buffer}
    (h : p ∈ (g.schedule room b).pieces) :
    (b.drop (min (b.padding g.alignment) b.size)).AlignedTo g.alignment := by
  rcases Nat.le_total (b.padding g.alignment) b.size with hle | hle
  · rw [Nat.min_eq_left hle]
    exact b.dvd_address_add_padding halign
  · -- The buffer is all lead, so nothing is left for a piece.
    have hrest : (b.drop b.size).bytes = [] := List.drop_length
    have hnil : (g.schedule room b).pieces = [] := by
      apply Buffer.pieces_nil
      rw [Buffer.bytes_take, Nat.min_eq_right hle, hrest, List.take_nil]
    rw [hnil] at h
    cases h

theorem divides_schedule (halign : 0 < g.alignment) : g.Divides b (g.schedule room b).pieces where
  legal _ h := legal_piece room b h
  full _ h := Buffer.size_of_mem_dropLast_pieces h
  covered := ⟨(g.schedule room b).tail, size_tail_lt room b, tiles_schedule room b⟩
  first_aligned p h := by
    rw [Buffer.AlignedTo, Buffer.address_of_mem_head_pieces h]
    exact alignedTo_drop_lead room b halign (List.mem_of_mem_head? h)
  aligned hdvd p h := by
    apply Buffer.alignedTo_of_mem_pieces hdvd _ h
    exact alignedTo_drop_lead room b halign h

end Geometry
end AdaptiveAdler
