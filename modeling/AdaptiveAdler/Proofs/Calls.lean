import AdaptiveAdler.Kernel.Extension
import AdaptiveAdler.Proofs.Division

/-! What a chunk kernel is called with.

A vector kernel reads memory and fills lanes without looking at either, so it has to be
called with chunks it can take and with sums that leave room for the share of the bytes
before. Neither depends on what the kernel answers: the chunks are the pieces of the
schedule (`map_piece_calls`), and the sums are reduced after every call, whatever it
returned (`prepared_of_mem_calls`). An update is made of these calls, with the bytes before
the first and after the last summed one by one (`foldsThrough_calls`), and it asks its kernel
nothing else (`update_congr`). -/
namespace AdaptiveAdler

/-- A full piece of a vector kernel is a multiple of its alignment. -/
theorem Extension.alignment_dvd_pieceSize (e : Extension) :
    e.geometry.alignment ∣ e.geometry.pieceSize := by
  cases e <;> decide

namespace ChunkKernel
variable (k : ChunkKernel)

/-! ### The sums of a call -/

/-- What a kernel finds in the sums: a reduced plain sum, and a reduced weighted sum to
which the share of the bytes before the piece has been added without wrapping. -/
structure Call.Prepared (c : Call) : Prop where
  plain : c.sums.plain.toNat < 65521
  weighted : ∃ before < 65521,
    c.sums.weighted.toNat = before + c.sums.plain.toNat * c.piece.size

/-- From reduced sums, the share of the bytes before a chunk fits up to the deferral limit. -/
theorem exact_entry {s : Sums} (hs : s.Reduced) {length : Nat} (hlen : length ≤ deferralLimit) :
    (entry s length).exact = ⟨s.plain.toNat, s.weighted.toNat + s.plain.toNat * length⟩ := by
  obtain ⟨hp, hw⟩ := Sums.reduced_iff.mp hs
  have hshare : s.plain.toNat * length ≤ 65520 * 5552 :=
    Nat.mul_le_mul (Nat.le_of_lt_succ hp) hlen
  have hlength : (UInt32.ofNat length).toNat = length :=
    UInt32.toNat_ofNat_of_lt' (hlen.trans_lt (by decide))
  rw [Sums.exact, Totals.mk.injEq]
  refine ⟨rfl, ?_⟩
  rw [entry, UInt32.toNat_add, UInt32.toNat_mul, hlength, Nat.add_mod_mod]
  exact Nat.mod_eq_of_lt (by omega)

theorem reduced_consume (s : Sums) (chunk : List UInt8) : (k.consume s chunk).Reduced :=
  Sums.reduced_reduce _

theorem map_piece_callsFrom (s : Sums) (pieces : List Buffer) :
    (k.callsFrom s pieces).map Call.piece = pieces := by
  induction pieces generalizing s with
  | nil => rfl
  | cons p rest ih => rw [callsFrom, List.map_cons, ih]

theorem prepared_of_mem_callsFrom {s : Sums} (hs : s.Reduced) {pieces : List Buffer}
    (hlen : ∀ p ∈ pieces, p.size ≤ deferralLimit) {c : Call} (h : c ∈ k.callsFrom s pieces) :
    c.Prepared := by
  induction pieces generalizing s with
  | nil => cases h
  | cons p rest ih =>
    rcases List.mem_cons.mp h with rfl | h
    · have hentry := exact_entry hs (hlen p (List.mem_cons_self ..))
      rw [Sums.exact, Totals.mk.injEq] at hentry
      obtain ⟨hp, hw⟩ := Sums.reduced_iff.mp hs
      exact ⟨hp, s.weighted.toNat, hw, hentry.2⟩
    · -- Whatever the kernel made of the piece, its sums are reduced before the next call.
      exact ih (k.reduced_consume s p.bytes) (fun q hq => hlen q (List.mem_cons_of_mem p hq)) h

/-! ### What an update is made of -/

/-- The calls lead from the sums `s` to the sums `last`. Each is made with the sums that the
one before it left, after the share of the bytes before its piece has been added; and what the
kernel answers is reduced. -/
inductive Leads (k : ChunkKernel) : Sums → List Call → Sums → Prop
  | done {s : Sums} : Leads k s [] s
  | call {s last : Sums} {c : Call} {rest : List Call}
      (entered : c.sums = ⟨s.plain, s.weighted + s.plain * UInt32.ofNat c.piece.size⟩)
      (onward : Leads k (k.accumulate c.sums c.piece.bytes).reduce rest last) :
      Leads k s (c :: rest) last

/-- The result is computed by the calls. They begin with the sums of the start and the bytes
before the first piece, and end with sums to which the bytes of the tail are still to be added;
lead, pieces and tail are the whole buffer. -/
def FoldsThrough (k : ChunkKernel) (digest : UInt32) (b : Buffer) (calls : List Call)
    (result : UInt32) : Prop :=
  let lead := b.take (min (b.padding k.geometry.alignment) b.size)
  ∃ (tail : Buffer) (last : Sums), tail.size < k.geometry.segment ∧
    b.Tiles (lead :: calls.map Call.piece ++ [tail]) ∧
    k.Leads ((Sums.unpack digest).absorbAll lead.bytes).reduce calls last ∧
    result = (last.absorbAll tail.bytes).reduce.pack

theorem leads_callsFrom (s : Sums) (pieces : List Buffer) :
    k.Leads s (k.callsFrom s pieces) (pieces.foldl (fun s p => k.consume s p.bytes) s) := by
  induction pieces generalizing s with
  | nil => exact .done
  | cons p rest ih => exact .call rfl (ih _)

/-! ### What an update depends on -/

/-- Where another way to accumulate answers the calls alike, the sums go the same way. -/
theorem foldl_consume_congr {accumulate : Sums → List UInt8 → Sums} {s : Sums}
    {pieces : List Buffer}
    (h : ∀ c ∈ k.callsFrom s pieces, accumulate c.sums c.piece.bytes =
      k.accumulate c.sums c.piece.bytes) :
    pieces.foldl (fun s p => {k with accumulate}.consume s p.bytes) s =
      pieces.foldl (fun s p => k.consume s p.bytes) s := by
  induction pieces generalizing s with
  | nil => rfl
  | cons p rest ih =>
    have hp : {k with accumulate}.consume s p.bytes = k.consume s p.bytes :=
      congrArg Sums.reduce (h ⟨p, entry s p.size⟩ (List.mem_cons_self ..))
    rw [List.foldl_cons, List.foldl_cons, hp]
    exact ih fun c hc => h c (List.mem_cons_of_mem _ hc)

/-! ### The calls of an update -/

variable (digest : UInt32) {b : Buffer}

theorem calls_nil (h : b.bytes = []) : k.calls digest b = [] := by
  rw [calls, h]
  rfl

theorem update_nil (h : b.bytes = []) : k.update digest b = .ok digest := by
  rw [update, h]
  rfl

theorem calls_eq (h : b.bytes ≠ []) (room : 0 < k.geometry.pieceSize) :
    k.calls digest b =
      k.callsFrom (consumeBytes (Sums.unpack digest) (k.geometry.schedule room b).lead.bytes)
        (k.geometry.schedule room b).pieces := by
  rw [calls, if_neg (mt List.isEmpty_iff.mp h), dif_pos room]

/-- Bytes without room for a segment are a fault, however few they are. -/
theorem update_eq_error_iff (hsegment : 0 < k.geometry.segment) (h : b.bytes ≠ []) :
    (∃ fault, k.update digest b = .error fault) ↔
      min deferralLimit k.geometry.largest < k.geometry.segment := by
  rw [← Nat.not_le, ← Geometry.pieceSize_pos_iff hsegment]
  constructor
  · rintro ⟨fault, hfault⟩ room
    rw [update_eq_sum k room] at hfault
    cases hfault
  · intro room
    rw [update, if_neg (mt List.isEmpty_iff.mp h), dif_neg room]
    exact ⟨_, rfl⟩

theorem map_piece_calls (h : b.bytes ≠ []) (room : 0 < k.geometry.pieceSize) :
    (k.calls digest b).map Call.piece = (k.geometry.schedule room b).pieces := by
  rw [calls_eq k digest h room, map_piece_callsFrom]

/-- The calls of an update compute its result. -/
theorem foldsThrough_calls (h : b.bytes ≠ []) (room : 0 < k.geometry.pieceSize) :
    ∃ result, k.update digest b = .ok result ∧
      k.FoldsThrough digest b (k.calls digest b) result := by
  have hleads := k.leads_callsFrom
    (consumeBytes (Sums.unpack digest) (k.geometry.schedule room b).lead.bytes)
    (k.geometry.schedule room b).pieces
  rw [← calls_eq k digest h room] at hleads
  refine ⟨k.sum room digest b, update_eq_sum k room digest b, (k.geometry.schedule room b).tail,
    _, Geometry.size_tail_lt room b, ?_, hleads, ?_⟩
  · rw [map_piece_calls k digest h room]
    exact Geometry.tiles_schedule room b
  · rw [sum, if_neg (mt List.isEmpty_iff.mp h)]
    rfl

theorem prepared_of_mem_calls {c : Call} (h : c ∈ k.calls digest b) : c.Prepared := by
  by_cases hb : b.bytes = []
  · rw [calls_nil k digest hb] at h
    cases h
  by_cases room : 0 < k.geometry.pieceSize
  · rw [calls_eq k digest hb room] at h
    apply prepared_of_mem_callsFrom k (Sums.reduced_reduce _) _ h
    exact fun p hp => (Geometry.legal_piece room b hp).2
  · rw [calls, if_neg (mt List.isEmpty_iff.mp hb), dif_neg room] at h
    cases h

/-- An update asks its kernel nothing but its calls. -/
theorem update_congr {accumulate : Sums → List UInt8 → Sums}
    (h : ∀ c ∈ k.calls digest b,
      accumulate c.sums c.piece.bytes = k.accumulate c.sums c.piece.bytes) :
    {k with accumulate}.update digest b = k.update digest b := by
  by_cases hb : b.bytes = []
  · rw [update_nil _ digest hb, update_nil k digest hb]
  by_cases room : 0 < k.geometry.pieceSize
  · have hother := {k with accumulate}.update_eq_sum room digest b
    rw [calls_eq k digest hb room] at h
    rw [update_eq_sum k room, hother, sum, sum, run, run, foldl_consume_congr k h]
  · rw [update, update, dif_neg room, dif_neg room]

/-- A vector kernel is called with aligned pieces only. -/
theorem alignedTo_of_mem_calls (e : Extension) {c : Call} (h : c ∈ e.chunkKernel.calls digest b) :
    c.piece.AlignedTo e.geometry.alignment := by
  have halign : 0 < e.geometry.alignment := by cases e <;> decide
  by_cases hb : b.bytes = []
  · rw [calls_nil _ digest hb] at h
    cases h
  · have hpiece := List.mem_map_of_mem (f := Call.piece) h
    rw [map_piece_calls _ digest hb e.room] at hpiece
    have hdivides := Geometry.divides_schedule e.room b halign
    exact hdivides.aligned e.alignment_dvd_pieceSize c.piece hpiece

/-- **An update keeps to its kernel's contract.** Nothing is asked of a kernel for no
bytes. For others the update is a fault exactly if the kernel or the deferral limit has no
room for a segment; if they have, the pieces passed to the kernel divide the buffer for it,
the sums passed with them are prepared, and the result is computed by these calls. They are all
that the update asks of its kernel. The vector kernels take every piece from an aligned
address. -/
theorem calls_keep_contract (halign : 0 < k.geometry.alignment) (hsegment : 0 < k.geometry.segment)
    (b : Buffer) :
    (b.bytes = [] → k.calls digest b = [] ∧ k.update digest b = .ok digest) ∧
      (b.bytes ≠ [] → ((∃ fault, k.update digest b = .error fault) ↔
        min deferralLimit k.geometry.largest < k.geometry.segment)) ∧
      (b.bytes ≠ [] → k.geometry.segment ≤ min deferralLimit k.geometry.largest →
        k.geometry.Divides b ((k.calls digest b).map Call.piece) ∧
          (∀ c ∈ k.calls digest b, c.Prepared) ∧
          ∃ result, k.update digest b = .ok result ∧
            k.FoldsThrough digest b (k.calls digest b) result) ∧
      (∀ accumulate : Sums → List UInt8 → Sums,
        (∀ c ∈ k.calls digest b,
          accumulate c.sums c.piece.bytes = k.accumulate c.sums c.piece.bytes) →
        {k with accumulate}.update digest b = k.update digest b) ∧
      ∀ e : Extension, e.geometry.alignment ∣ e.geometry.pieceSize ∧
        ∀ c ∈ e.chunkKernel.calls digest b, c.piece.AlignedTo e.geometry.alignment := by
  refine ⟨fun h => ⟨calls_nil k digest h, update_nil k digest h⟩,
    update_eq_error_iff k digest hsegment, fun h hfits => ?_, fun _ => update_congr k digest,
    fun e => ⟨e.alignment_dvd_pieceSize, fun c => alignedTo_of_mem_calls digest e⟩⟩
  have room := (Geometry.pieceSize_pos_iff hsegment).mpr hfits
  refine ⟨?_, fun c => prepared_of_mem_calls k digest, foldsThrough_calls k digest h room⟩
  rw [map_piece_calls k digest h room]
  exact Geometry.divides_schedule room b halign

/-- Two hundred bytes: behind a lead of eleven two full pieces, a shorter one and a tail. A
kernel that is wrong on all longer chunks is not found out. No bytes at all are no call,
and one byte is a fault for a kernel without room for its own segment. -/
theorem calls_two_hundred_bytes :
    let k : ChunkKernel := scalar ⟨16, 32, 64⟩
    let wrong : Sums → List UInt8 → Sums :=
      fun s chunk => if chunk.length ≤ 64 then k.accumulate s chunk else ⟨0, 0⟩
    let tight : ChunkKernel := scalar ⟨16, 64, 32⟩
    let b : Buffer := ⟨List.replicate 200 0xFF, 5⟩
    (0 < k.geometry.alignment ∧ 0 < k.geometry.segment ∧ b.bytes ≠ [] ∧
        k.geometry.segment ≤ min deferralLimit k.geometry.largest) ∧
      (k.calls 0xFFFFFFFF b).map (fun c => c.piece.size) = [64, 64, 32] ∧
      (k.geometry.Divides b ((k.calls 0xFFFFFFFF b).map Call.piece) ∧
        (∀ c ∈ k.calls 0xFFFFFFFF b, c.Prepared) ∧
        k.FoldsThrough 0xFFFFFFFF b (k.calls 0xFFFFFFFF b) 1158465350) ∧
      {k with accumulate := wrong}.update 0xFFFFFFFF b = k.update 0xFFFFFFFF b ∧
      (k.calls 7 ⟨[], 5⟩ = [] ∧ k.update 7 ⟨[], 5⟩ = .ok 7) ∧
      ∃ fault, tight.update 7 ⟨[0xFF], 5⟩ = .error fault := by
  intro k wrong tight b
  obtain ⟨-, -, hcalls, hcongr, -⟩ := calls_keep_contract k 0xFFFFFFFF (by decide) (by decide) b
  obtain ⟨hdivides, hprepared, result, hresult, hfolds⟩ := hcalls (by decide) (by decide)
  have hupdate : k.update 0xFFFFFFFF b = .ok 1158465350 := by decide +kernel
  rw [hresult, Except.ok.injEq] at hupdate
  obtain ⟨hempty, -⟩ := calls_keep_contract k 7 (by decide) (by decide) ⟨[], 5⟩
  obtain ⟨-, hfault, -⟩ := calls_keep_contract tight 7 (by decide) (by decide) ⟨[0xFF], 5⟩
  refine ⟨by decide, by decide +kernel, ⟨hdivides, hprepared, hupdate ▸ hfolds⟩, hcongr wrong ?_,
    hempty rfl, (hfault (by decide)).mpr (by decide)⟩
  intro c hc
  have hlegal := (hdivides.legal c.piece (List.mem_map_of_mem hc)).1
  exact if_pos hlegal.2.2

end ChunkKernel
end AdaptiveAdler
