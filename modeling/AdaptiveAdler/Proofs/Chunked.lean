import AdaptiveAdler.Kernel.Chunked
import AdaptiveAdler.Proofs.Bytewise

/-! A chunk kernel computes the checksum by definition.

A geometry with room for one segment divides every buffer into a lead shorter than
the alignment, pieces of legal lengths and a tail shorter than a segment. Each of
them stays within the deferral limit, so each reduces its sums in time, whatever
the start and wherever the buffer lies. What a kernel owes for this is its contract
and nothing else; the geometry does not matter and the address does not. -/
namespace AdaptiveAdler

theorem Buffer.padding_le (alignment : Nat) (b : Buffer) : b.padding alignment ≤ alignment := by
  rw [padding]
  rcases Nat.eq_zero_or_pos alignment with h | h
  · rw [h]
    omega
  · exact Nat.le_of_lt (Nat.mod_lt _ h)

/-! ### Parts of a schedule -/

namespace Geometry
variable {g : Geometry}

theorem pieceSize_le (g : Geometry) : g.pieceSize ≤ min deferralLimit g.largest :=
  Nat.div_mul_le_self ..

theorem segment_dvd_pieceSize (g : Geometry) : g.segment ∣ g.pieceSize := Nat.dvd_mul_left ..

theorem segment_pos (room : 0 < g.pieceSize) : 0 < g.segment :=
  Nat.pos_of_dvd_of_pos g.segment_dvd_pieceSize room

theorem segment_le (room : 0 < g.pieceSize) : g.segment ≤ deferralLimit :=
  (Nat.le_of_dvd room g.segment_dvd_pieceSize).trans (g.pieceSize_le.trans (Nat.min_le_left ..))

variable (room : 0 < g.pieceSize) (b : Buffer)

theorem size_lead : (g.schedule room b).lead.size = min (b.padding g.alignment) b.size := by
  simp only [schedule, Buffer.size_take]
  omega

/-- Every piece is a chunk the kernel accepts, and short enough to be summed without
a reduction. -/
theorem legal_piece {p : Buffer} (h : p ∈ (g.schedule room b).pieces) :
    g.Legal p.size ∧ p.size ≤ deferralLimit := by
  obtain ⟨hpos, hle⟩ := Buffer.size_of_mem_pieces h
  have hbound := g.pieceSize_le
  have hdvd : g.segment ∣ p.size := by
    apply Buffer.dvd_size_of_mem_pieces g.segment_dvd_pieceSize ?_ h
    rw [Buffer.size_take, Nat.min_eq_left (Nat.div_mul_le_self ..)]
    exact Nat.dvd_mul_left ..
  exact ⟨⟨hpos, hdvd, by omega⟩, by omega⟩

theorem size_tail_lt : (g.schedule room b).tail.size < g.segment := by
  simp only [schedule, Buffer.size_drop]
  rw [← Nat.mod_eq_sub_div_mul]
  exact Nat.mod_lt _ (segment_pos room)

end Geometry

namespace ChunkKernel

/-! ### Parts of an update -/

/-- What the contract asks of a chunk, with the share of the bytes before it, is
what absorbing the chunk byte by byte does. -/
theorem contribution_entry (s : Sums) (chunk : List UInt8) :
    contribution (entry s chunk.length) chunk = s.absorbAll chunk :=
  (s.absorbAll_eq chunk).symm

theorem reaches_consume {k : ChunkKernel} (hk : k.MeetsContract) {s : Sums} {chunk : List UInt8}
    (hs : s.Narrow) (hlegal : k.geometry.Legal chunk.length) (hlen : chunk.length ≤ deferralLimit) :
    s.Reaches chunk (k.consume s chunk) := by
  rw [consume, hk _ _ hlegal, contribution_entry]
  exact Sums.reaches_absorbAll hs hlen

/-- Lead, pieces and tail together lead along the whole buffer. -/
theorem reaches_run {k : ChunkKernel} (hk : k.MeetsContract)
    (halign : k.geometry.alignment ≤ deferralLimit) (room : 0 < k.geometry.pieceSize)
    {s : Sums} (hs : s.Narrow) (b : Buffer) :
    s.Reaches b.bytes (k.run s (k.geometry.schedule room b)) := by
  have hlead : (k.geometry.schedule room b).lead.size ≤ deferralLimit := by
    rw [Geometry.size_lead]
    exact (Nat.min_le_left ..).trans ((b.padding_le _).trans halign)
  have htail : (k.geometry.schedule room b).tail.size ≤ deferralLimit :=
    (Nat.le_of_lt (Geometry.size_tail_lt room b)).trans (Geometry.segment_le room)
  -- The lead, empty or not, ends in a reduction, so every piece starts from reduced sums.
  have hpieces := Sums.Reaches.foldl Buffer.bytes (k.geometry.schedule room b).pieces
    (fun _ _ hs hp => reaches_consume hk hs (Geometry.legal_piece room b hp).1
      (Geometry.legal_piece room b hp).2)
    (Sums.reaches_absorbAll hs hlead)
  rw [← k.geometry.bytes_schedule room b]
  exact hpieces.trans (Sums.reaches_absorbAll hpieces.reduced.narrow htail)

theorem sum_eq_bytewise {k : ChunkKernel} (hk : k.MeetsContract)
    (halign : k.geometry.alignment ≤ deferralLimit) (room : 0 < k.geometry.pieceSize)
    (digest : UInt32) (b : Buffer) : k.sum room digest b = Bytewise.update digest b.bytes := by
  rw [sum]
  split
  · next h => rw [List.isEmpty_iff.mp h, Bytewise.update_nil]
  · next h =>
    rw [List.isEmpty_iff] at h
    exact (Bytewise.update_eq_of_reaches h
      (reaches_run hk halign room (Sums.narrow_unpack digest) b)).symm

theorem update_eq_sum (k : ChunkKernel) (room : 0 < k.geometry.pieceSize) (digest : UInt32)
    (b : Buffer) : k.update digest b = .ok (k.sum room digest b) := by
  rw [update, dif_pos room]
  split
  · next h => rw [sum, if_pos h]
  · rfl

theorem update_eq_bytewise {k : ChunkKernel} (hk : k.MeetsContract)
    (halign : k.geometry.alignment ≤ deferralLimit) (room : 0 < k.geometry.pieceSize)
    (digest : UInt32) (b : Buffer) :
    k.update digest b = .ok (Bytewise.update digest b.bytes) := by
  rw [update_eq_sum k room, sum_eq_bytewise hk halign room]

/-- The plainest kernel meets the contract of any geometry. -/
theorem scalar_meetsContract (g : Geometry) : (scalar g).MeetsContract := by
  intro s chunk _
  simp only [scalar, contribution, Sums.absorbAll_eq, UInt32.zero_add, UInt32.zero_mul]

/-- **A kernel that meets its contract computes the checksum by definition**, from any
state, reduced or not; so neither its geometry nor the address of the bytes shows. -/
theorem update_eq_bytewise_of_contract (k : ChunkKernel) (hk : k.MeetsContract)
    (halign : k.geometry.alignment ≤ 4096) (room : 0 < k.geometry.pieceSize)
    (digest : UInt32) (b : Buffer) :
    k.update digest b = .ok (Bytewise.update digest b.bytes) ∧
      ∀ (other : ChunkKernel) (address : Nat), other.MeetsContract →
        other.geometry.alignment ≤ 4096 → 0 < other.geometry.pieceSize →
        other.update digest ⟨b.bytes, address⟩ = k.update digest b := by
  have hupdate := update_eq_bytewise hk (halign.trans (by decide)) room digest b
  refine ⟨hupdate, ?_⟩
  intro other address hother halign' room'
  rw [update_eq_bytewise hother (halign'.trans (by decide)) room', hupdate]

/-- A hundred bytes from sums that are not reduced: with a lead of 11 bytes, two segments
and a tail, and all in the lead of a kernel that wants longer segments. -/
theorem scalar_update_hundred_bytes :
    let narrow : ChunkKernel := scalar ⟨16, 32, 4096⟩
    let wide : ChunkKernel := scalar ⟨4096, 64, 1048576⟩
    let bytes : List UInt8 := List.replicate 100 0xFF
    (narrow.MeetsContract ∧ narrow.geometry.alignment ≤ 4096 ∧ 0 < narrow.geometry.pieceSize) ∧
      (wide.MeetsContract ∧ wide.geometry.alignment ≤ 4096 ∧ 0 < wide.geometry.pieceSize) ∧
      narrow.update 0xFFFFFFFF ⟨bytes, 5⟩ = .ok 2900976554 ∧
      wide.update 0xFFFFFFFF ⟨bytes, 1⟩ = narrow.update 0xFFFFFFFF ⟨bytes, 5⟩ := by
  intro narrow wide bytes
  have hnarrow : narrow.MeetsContract := scalar_meetsContract _
  have hwide : wide.MeetsContract := scalar_meetsContract _
  obtain ⟨hupdate, hother⟩ := update_eq_bytewise_of_contract narrow hnarrow (by decide) (by decide)
    0xFFFFFFFF ⟨bytes, 5⟩
  refine ⟨⟨hnarrow, by decide, by decide⟩, ⟨hwide, by decide, by decide⟩, ?_,
    hother wide 1 hwide (by decide) (by decide)⟩
  rw [hupdate]
  exact congrArg Except.ok (by decide +kernel)

end ChunkKernel
end AdaptiveAdler
