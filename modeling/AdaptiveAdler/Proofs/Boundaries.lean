import AdaptiveAdler.Proofs.Agreement
import AdaptiveAdler.Proofs.Calls

/-! Chunk boundaries do not show.

A string may be cut into chunks in many ways that a vector kernel accepts. Summed chunk
by chunk from reduced sums, with a reduction after each, every one of them leads along
the whole string, since each chunk leads along its own bytes; so neither the cut nor the
kernel shows in the result (`chunk_boundaries_do_not_show`). -/
namespace AdaptiveAdler

namespace ChunkKernel

/-- However the chunks are cut, together they lead along all of their bytes. -/
theorem reaches_foldl_consume {k : ChunkKernel} (hk : k.MeetsContract) {s : Sums} (hs : s.Reduced)
    {chunks : List (List UInt8)}
    (hlegal : ∀ c ∈ chunks, k.geometry.Legal c.length ∧ c.length ≤ deferralLimit) :
    s.Reaches chunks.flatten (chunks.foldl k.consume s) := by
  have h := Sums.Reaches.foldl id chunks
    (fun _ c hs hc => reaches_consume hk hs (hlegal c hc).1 (hlegal c hc).2) hs.reaches_self
  rwa [List.nil_append, List.flatMap_id] at h

theorem reduced_foldl_consume (k : ChunkKernel) {s : Sums} (hs : s.Reduced)
    (chunks : List (List UInt8)) : (chunks.foldl k.consume s).Reduced := by
  induction chunks generalizing s with
  | nil => exact hs
  | cons c rest ih => exact ih (k.reduced_consume s c)

end ChunkKernel

namespace Extension
variable {e : Extension}

/-- Lanes fill up before the sums do: what a vector kernel accepts is within the deferral limit. -/
theorem le_deferralLimit_of_legal {length : Nat} (h : e.geometry.Legal length) :
    length ≤ deferralLimit := by
  have hlargest : e.geometry.largest ≤ deferralLimit := by cases e <;> decide
  exact h.2.2.trans hlargest

variable {s : Sums} (hs : s.Reduced) {chunks : List (List UInt8)}
  (hlegal : ∀ c ∈ chunks, e.geometry.Legal c.length)
include hs hlegal

theorem reaches_chunks : s.Reaches chunks.flatten (chunks.foldl e.chunkKernel.consume s) :=
  ChunkKernel.reaches_foldl_consume e.meetsContract hs
    fun c hc => ⟨hlegal c hc, le_deferralLimit_of_legal (hlegal c hc)⟩

/-- Before every chunk, the share of the bytes already summed fits into the weighted sum. -/
theorem share_lt {before after : List (List UInt8)} {chunk : List UInt8}
    (h : chunks = before ++ chunk :: after) :
    let t := before.foldl e.chunkKernel.consume s
    t.weighted.toNat + t.plain.toNat * chunk.length < 2 ^ 32 := by
  intro t
  have hchunk : chunk ∈ chunks := by
    rw [h]
    exact List.mem_append_right _ (List.mem_cons_self ..)
  have hentry := ChunkKernel.exact_entry (e.chunkKernel.reduced_foldl_consume hs before)
    (le_deferralLimit_of_legal (hlegal chunk hchunk))
  rw [Sums.exact, Totals.mk.injEq] at hentry
  rw [← hentry.2]
  exact UInt32.toNat_lt _

/-- **Chunk boundaries do not show.** From reduced sums, any chunks that a vector kernel
accepts sum to the checksum of their bytes by definition, and the share added before a
chunk never wraps; so any two cuts of the same bytes agree, on one kernel or on two. -/
theorem chunk_boundaries_do_not_show :
    (chunks.foldl e.chunkKernel.consume s).pack = Bytewise.update s.pack chunks.flatten ∧
      (∀ before chunk after, chunks = before ++ chunk :: after →
        let t := before.foldl e.chunkKernel.consume s
        t.weighted.toNat + t.plain.toNat * chunk.length < 2 ^ 32) ∧
      ∀ (other : Extension) (cut : List (List UInt8)),
        (∀ c ∈ cut, other.geometry.Legal c.length) → cut.flatten = chunks.flatten →
          cut.foldl other.chunkKernel.consume s = chunks.foldl e.chunkKernel.consume s := by
  have hchunks := reaches_chunks hs hlegal
  refine ⟨?_, fun before chunk after => share_lt hs hlegal, fun other cut hcut hbytes => ?_⟩
  · rw [Bytewise.update, Sums.unpack_pack hs.narrow,
      hchunks.unique (Bytewise.reaches_run_of_reduced hs _)]
  · have hother := reaches_chunks hs hcut
    rw [hbytes] at hother
    exact hother.unique hchunks

omit hs hlegal in
/-- The largest bytes onto the largest sums, in long chunks on the widest kernel and in
short ones on the narrowest. -/
theorem chunk_boundaries_of_largest_bytes :
    let s : Sums := ⟨65520, 65520⟩
    let long : List (List UInt8) := [List.replicate 192 0xFF, List.replicate 64 0xFF]
    let short : List (List UInt8) :=
      [List.replicate 32 0xFF, List.replicate 96 0xFF, List.replicate 128 0xFF]
    let between : Sums := avx512bw.chunkKernel.consume s (List.replicate 192 0xFF)
    (s.Reduced ∧ (∀ c ∈ long, avx512bw.geometry.Legal c.length) ∧
        ∀ c ∈ short, sse2.geometry.Legal c.length) ∧
      (long.foldl avx512bw.chunkKernel.consume s).pack = 100663039 ∧
      between.weighted.toNat + between.plain.toNat * 64 < 2 ^ 32 ∧
      short.foldl sse2.chunkKernel.consume s = long.foldl avx512bw.chunkKernel.consume s := by
  intro s long short between
  have hs : s.Reduced := ⟨by decide, by decide⟩
  have hlong : ∀ c ∈ long, avx512bw.geometry.Legal c.length := by decide +kernel
  have hshort : ∀ c ∈ short, sse2.geometry.Legal c.length := by decide +kernel
  obtain ⟨hsum, hshare, hcut⟩ := chunk_boundaries_do_not_show hs hlong
  refine ⟨⟨hs, hlong, hshort⟩, ?_, ?_, hcut sse2 short hshort (by decide +kernel)⟩
  · rw [hsum]
    decide +kernel
  · exact hshare [List.replicate 192 0xFF] (List.replicate 64 0xFF) [] rfl

end Extension
end AdaptiveAdler
