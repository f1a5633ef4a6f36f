import AdaptiveAdler.Engine
import AdaptiveAdler.Hasher.Basic
import AdaptiveAdler.Proofs.Blocked
import AdaptiveAdler.Proofs.Chunked
import AdaptiveAdler.Proofs.Columns
import AdaptiveAdler.Proofs.Counters

/-! All kernels agree.

The three vector kernels meet their contract and the portable one reduces in time,
so every kernel computes the checksum by definition, and so does every engine and
every hasher, whatever the threshold and the kernel. -/
namespace AdaptiveAdler

/-! ### Kernels -/

theorem Extension.meetsContract (e : Extension) : e.chunkKernel.MeetsContract := by
  intro s chunk h
  obtain ⟨-, hdvd, hlen⟩ := h
  cases e with
  | sse2 => exact Counters.accumulate_eq s hdvd hlen
  | avx2 => exact Columns.accumulateEight_eq s hdvd
  | avx512bw => exact Columns.accumulateSixteen_eq s hdvd

theorem Extension.alignment_le (e : Extension) :
    e.chunkKernel.geometry.alignment ≤ deferralLimit := by
  cases e <;> decide

/-- Every kernel computes the checksum by definition, from any state and at any address. -/
theorem Kernel.update_eq_bytewise (k : Kernel) (digest : UInt32) (b : Buffer) :
    k.update digest b = Bytewise.update digest b.bytes := by
  cases k with
  | bytewise => rfl
  | portable => exact Blocked.update_eq_bytewise digest b
  | vector e => exact ChunkKernel.sum_eq_bytewise e.meetsContract e.alignment_le e.room digest b

/-! ### Engines -/

namespace Engine
variable (e : Engine) (digest : UInt32)

theorem update_eq_bytewise (b : Buffer) : e.update digest b = Bytewise.update digest b.bytes :=
  Kernel.update_eq_bytewise ..

theorem checksum_eq_bytewise (b : Buffer) : e.checksum b = Bytewise.update initial b.bytes :=
  e.update_eq_bytewise initial b

theorem updateAll_eq_bytewise (parts : List Buffer) :
    e.updateAll digest parts = Bytewise.update digest (parts.flatMap Buffer.bytes) := by
  induction parts generalizing digest with
  | nil => exact (Bytewise.update_nil digest).symm
  | cons b rest ih =>
    rw [updateAll, List.foldl_cons, update_eq_bytewise, List.flatMap_cons,
      ← Bytewise.update_append]
    exact ih _

end Engine

/-! ### Hashers -/

namespace Hasher
variable (e : Engine) (h : Hasher)

theorem finalize_update (b : Buffer) :
    (h.update e b).finalize = Bytewise.update h.finalize b.bytes :=
  e.update_eq_bytewise h.digest b

theorem finalize_updateAll (parts : List Buffer) :
    (h.updateAll e parts).finalize = Bytewise.update h.finalize (parts.flatMap Buffer.bytes) := by
  rw [← e.updateAll_eq_bytewise]
  exact (List.foldl_hom finalize fun _ _ => rfl).symm

end Hasher
end AdaptiveAdler
