import AdaptiveAdler.Proofs.Blocked
import AdaptiveAdler.Proofs.Division

/-! Deferred reductions lose nothing.

The sum by blocks adds with words that wrap, and reduces once in a block. A `Place` is a point
of its three nested loops, just before a byte is absorbed, and there is one for every byte. At
each of them the words are the exact sums since the block began, and neither addition leaves a
word (`sums_stay_exact`): a block begins with sums of 16 bits, the first one too, though these
may exceed the modulus, and the deferral limit leaves room for those as well. -/
namespace AdaptiveAdler

/-- An item of the parts taken together is an item of one of them. -/
theorem exists_part_of_flatMap {α β : Type} (f : α → List β) {parts : List α} {before after : List β}
    {x : β} (h : parts.flatMap f = before ++ x :: after) :
    ∃ done part later front back, parts = done ++ part :: later ∧ f part = front ++ x :: back ∧
      before = done.flatMap f ++ front := by
  induction parts generalizing before with
  | nil => exact absurd h.symm (List.append_ne_nil_of_right_ne_nil before (List.cons_ne_nil x after))
  | cons p rest ih =>
    rw [List.flatMap_cons, List.append_eq_append_iff] at h
    rcases h with ⟨skipped, rfl, hrest⟩ | ⟨back, hp, hback⟩
    · obtain ⟨done, part, later, front, back, rfl, hpart, rfl⟩ := ih hrest
      exact ⟨p :: done, part, later, front, back, rfl, hpart, (List.append_assoc ..).symm⟩
    · -- The first part reaches beyond what stands before the item, or just that far.
      rcases List.append_eq_cons_iff.mp hback.symm with ⟨rfl, hrest⟩ | ⟨tail, rfl, -⟩
      · have hhead : rest.flatMap f = [] ++ x :: after := hrest
        obtain ⟨done, part, later, front, back, rfl, hpart, hfront⟩ := ih hhead
        refine ⟨p :: done, part, later, front, back, rfl, hpart, ?_⟩
        rw [List.flatMap_cons, List.append_assoc, ← hfront, hp, List.append_nil, List.append_nil]
      · exact ⟨[], p, rest, before, tail, rfl, hp, rfl⟩

/-- A piece is full if another one follows it, and at most full if it is the last. -/
theorem Buffer.size_of_pieces_eq {n : Nat} {positive : 0 < n} {b p : Buffer}
    {done later : List Buffer} (h : b.pieces n positive = done ++ p :: later) :
    p.size ≤ n ∧ (later ≠ [] → p.size = n) := by
  constructor
  · have hmem : p ∈ b.pieces n positive := by
      rw [h]
      exact List.mem_append_right done List.mem_cons_self
    exact (size_of_mem_pieces hmem).2
  · intro hlater
    have hmem : p ∈ (b.pieces n positive).dropLast := by
      rw [h, List.dropLast_append_of_ne_nil (List.cons_ne_nil p later),
        List.dropLast_cons_of_ne_nil hlater]
      exact List.mem_append_right done List.mem_cons_self
    exact size_of_mem_dropLast_pieces hmem

namespace Blocked

theorem narrow_foldl_step {s : Sums} (h : s.Narrow) (done : List Buffer) :
    (done.foldl step s).Narrow := by
  induction done generalizing s with
  | nil => exact h
  | cons p rest ih => exact ih (Sums.reduced_reduce _).narrow

/-- A place in the sum of a buffer: a block, a group in the block and a byte in the group, each
between those that are done and those that are still to come. -/
structure Place (b : Buffer) where
  doneBlocks : List Buffer
  block : Buffer
  laterBlocks : List Buffer
  doneGroups : List Buffer
  group : Buffer
  laterGroups : List Buffer
  doneBytes : List UInt8
  byte : UInt8
  laterBytes : List UInt8
  blocks_eq : blocks b = doneBlocks ++ block :: laterBlocks
  groups_eq : block.pieces groupSize groupSize_pos = doneGroups ++ group :: laterGroups
  bytes_eq : group.bytes = doneBytes ++ byte :: laterBytes

namespace Place
variable {b : Buffer} (place : Place b) (digest : UInt32)

/-- The sums that the block began with. -/
def entry : Sums := place.doneBlocks.foldl step (Sums.unpack digest)

/-- The sums that the byte is absorbed by. -/
def sums : Sums :=
  (place.doneGroups.foldl (fun s group => s.absorbAll group.bytes) (place.entry digest)).absorbAll
    place.doneBytes

/-- What the loops make of the sums behind the byte. -/
def finish (s : Sums) : UInt32 :=
  (place.laterBlocks.foldl step (place.laterGroups.foldl (fun s group => s.absorbAll group.bytes)
    (s.absorbAll place.laterBytes)).reduce).pack

/-- The bytes of the block before this one. -/
def inBlock : List UInt8 := place.doneGroups.flatMap Buffer.bytes ++ place.doneBytes

def before : List UInt8 := place.doneBlocks.flatMap Buffer.bytes ++ place.inBlock

/-! ### Places of an update -/

/-- The update passes through every place. -/
theorem finish_absorb :
    place.finish ((place.sums digest).absorb place.byte) = update digest b := by
  rw [update, place.blocks_eq, List.foldl_append, List.foldl_cons, step, absorbBlock,
    place.groups_eq, List.foldl_append, List.foldl_cons, place.bytes_eq, Sums.absorbAll_append]
  rfl

/-- There is a place for every byte. -/
theorem exists_place {before after : List UInt8} {byte : UInt8}
    (h : b.bytes = before ++ byte :: after) :
    ∃ place : Place b, place.before = before ∧ place.byte = byte := by
  rw [← Buffer.flatMap_pieces deferralLimit deferralLimit_pos b] at h
  obtain ⟨doneBlocks, block, laterBlocks, inBlock, restBlock, hblocks, hblock, rfl⟩ :=
    exists_part_of_flatMap Buffer.bytes h
  rw [← Buffer.flatMap_pieces groupSize groupSize_pos block] at hblock
  obtain ⟨doneGroups, group, laterGroups, doneBytes, laterBytes, hgroups, hgroup, rfl⟩ :=
    exists_part_of_flatMap Buffer.bytes hblock
  exact ⟨⟨doneBlocks, block, laterBlocks, doneGroups, group, laterGroups, doneBytes, byte,
    laterBytes, hblocks, hgroups, hgroup⟩, rfl, rfl⟩

/-- Blocks and groups are full, the last ones apart. -/
structure Regular : Prop where
  block_le : place.block.size ≤ deferralLimit
  block_full : place.laterBlocks ≠ [] → place.block.size = deferralLimit
  group_le : place.group.size ≤ groupSize
  group_full : place.laterGroups ≠ [] → place.group.size = groupSize

theorem regular : place.Regular := by
  obtain ⟨hblock, hlaterBlock⟩ := Buffer.size_of_pieces_eq place.blocks_eq
  obtain ⟨hgroup, hlaterGroup⟩ := Buffer.size_of_pieces_eq place.groups_eq
  exact ⟨hblock, hlaterBlock, hgroup, hlaterGroup⟩

theorem bytes_block : place.block.bytes = (place.inBlock ++ [place.byte]) ++
    (place.laterBytes ++ place.laterGroups.flatMap Buffer.bytes) := by
  rw [← Buffer.flatMap_pieces groupSize groupSize_pos place.block, place.groups_eq,
    List.flatMap_append, List.flatMap_cons, place.bytes_eq, inBlock]
  simp only [List.append_assoc, List.cons_append, List.nil_append]

/-! ### Sums at a place -/

theorem sums_eq : place.sums digest = (place.entry digest).absorbAll place.inBlock := by
  rw [sums, foldl_absorbAll, inBlock, Sums.absorbAll_append]

theorem length_inBlock_lt : place.inBlock.length < deferralLimit := by
  have hsize := place.regular.block_le
  rw [Buffer.size, place.bytes_block, List.length_append, List.length_append,
    List.length_singleton] at hsize
  omega

/-- A block begins with sums of 16 bits, so no bytes of one exceed a word. -/
theorem fits_advance {bytes : List UInt8} (h : bytes.length ≤ deferralLimit) :
    ((place.entry digest).exact.advance bytes).Fits :=
  Sums.fits_of_narrow (narrow_foldl_step (Sums.narrow_unpack digest) _) h

theorem exact_sums :
    (place.sums digest).exact = (place.entry digest).exact.advance place.inBlock := by
  rw [sums_eq]
  exact Sums.exact_absorbAll (place.fits_advance digest (Nat.le_of_lt place.length_inBlock_lt))

theorem additions_fit :
    (place.sums digest).plain.toNat + place.byte.toNat < 2 ^ 32 ∧
      (place.sums digest).weighted.toNat +
        ((place.sums digest).plain.toNat + place.byte.toNat) < 2 ^ 32 := by
  have hlength : (place.inBlock ++ [place.byte]).length ≤ deferralLimit := by
    rw [List.length_append]
    exact place.length_inBlock_lt
  have hfits := place.fits_advance digest hlength
  rw [Totals.advance_append, ← exact_sums, Totals.advance_singleton] at hfits
  exact hfits

end Place

/-- **Sums stay exact between reductions.** The checksum by blocks is the one by definition,
from any halves and for any bytes. Its loops pass through a place for every byte, in a full
block or the last one, in a full group or what remains below one. There the sums are the
numbers that the block's bytes so far make of the sums it began with, and the two additions
to come stay below 2^32. -/
theorem sums_stay_exact (digest : UInt32) (b : Buffer) :
    update digest b = Bytewise.update digest b.bytes ∧
      (∀ before byte after, b.bytes = before ++ byte :: after →
        ∃ place : Place b, place.before = before ∧ place.byte = byte) ∧
      ∀ place : Place b,
        let sums := place.sums digest
        place.Regular ∧
          place.finish (sums.absorb place.byte) = update digest b ∧
          sums.exact = (place.entry digest).exact.advance place.inBlock ∧
          sums.plain.toNat + place.byte.toNat < 2 ^ 32 ∧
          sums.weighted.toNat + (sums.plain.toNat + place.byte.toNat) < 2 ^ 32 := by
  refine ⟨update_eq_bytewise digest b, fun before byte after h => Place.exists_place h,
    fun place => ?_⟩
  exact ⟨place.regular, place.finish_absorb digest, place.exact_sums digest,
    place.additions_fit digest⟩

/-- From halves of `0xFFFF`, at the last byte of a full block of `0xFF`. Nineteen bytes are left
for a short block, three of them below a group. -/
theorem sums_stay_exact_of_full_block :
    let b : Buffer := ⟨List.replicate 5571 0xFF, 0⟩
    b.bytes = List.replicate 5551 0xFF ++ 0xFF :: List.replicate 19 0xFF ∧
      update 0xFFFFFFFF b = 1442623110 ∧
      ∃ place : Place b, place.before = List.replicate 5551 0xFF ∧ place.byte = 0xFF ∧
        (place.sums 0xFFFFFFFF).plain.toNat + 0xFF < 2 ^ 32 ∧
        (place.sums 0xFFFFFFFF).weighted.toNat +
          ((place.sums 0xFFFFFFFF).plain.toNat + 0xFF) < 2 ^ 32 := by
  intro b
  have hbytes : b.bytes = List.replicate 5551 0xFF ++ 0xFF :: List.replicate 19 0xFF :=
    (List.replicate_append_replicate (n := 5551) (m := 20)).symm
  obtain ⟨hupdate, hplaces, hfit⟩ := sums_stay_exact 0xFFFFFFFF b
  obtain ⟨place, hbefore, hbyte⟩ := hplaces _ _ _ hbytes
  obtain ⟨-, -, -, hplain, hweighted⟩ := hfit place
  rw [hbyte] at hplain hweighted
  refine ⟨hbytes, ?_, place, hbefore, hbyte, hplain, hweighted⟩
  rw [hupdate]
  decide +kernel

end Blocked
end AdaptiveAdler
