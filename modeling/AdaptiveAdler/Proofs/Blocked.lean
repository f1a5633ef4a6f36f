import AdaptiveAdler.Digest.Blocked
import AdaptiveAdler.Proofs.Bytewise

/-! The checksum by blocks is the checksum by definition.

No block is longer than the deferral limit, so each reduces its sums in time, the
first one too, which may start from sums that are not reduced. -/
namespace AdaptiveAdler.Blocked

/-- A block of bounded length leads along its bytes. -/
theorem reaches_step {s : Sums} {block : Buffer} (h : s.Narrow) (hsize : block.size ≤ deferralLimit) :
    s.Reaches block.bytes (step s block) := by
  rw [step, absorbBlock_eq]
  exact Sums.reaches_absorbAll h hsize

theorem update_eq_bytewise (digest : UInt32) (b : Buffer) :
    update digest b = Bytewise.update digest b.bytes := by
  by_cases hb : b.bytes = []
  · have hblocks : blocks b = [] := Buffer.pieces_nil hb
    rw [hb, Bytewise.update_nil, update, hblocks]
    exact Sums.pack_unpack digest
  · have hne : blocks b ≠ [] := by
      intro h
      apply hb
      rw [← Buffer.flatMap_pieces deferralLimit deferralLimit_pos b]
      show (blocks b).flatMap Buffer.bytes = []
      rw [h, List.flatMap_nil]
    have h := Sums.reaches_foldl Buffer.bytes (f := step) hne
      (fun _ _ hs hmem => reaches_step hs (Buffer.size_of_mem_pieces hmem).2)
      (Sums.narrow_unpack digest)
    rw [blocks, Buffer.flatMap_pieces] at h
    exact (Bytewise.update_eq_of_reaches hb h).symm

end AdaptiveAdler.Blocked
