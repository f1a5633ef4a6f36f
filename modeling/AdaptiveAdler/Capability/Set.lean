/-! Capability sets.

A capability is one bit of a 64-bit word. Five bits have names; the others are
carried along and mean nothing here. A requirement is a set too, met by every
set that contains it, so the empty requirement is always met.

A set is seen through its members: each operation has a lemma that says which
capabilities are in its result. -/
namespace AdaptiveAdler

@[ext] structure Caps where
  bits : UInt64
deriving DecidableEq

namespace Caps

/-- A capability is in a set if its bit is one. -/
instance : Membership Nat Caps where
  mem c i := c.bits.toBitVec.getLsbD i = true

instance (c : Caps) (i : Nat) : Decidable (i ∈ c) :=
  inferInstanceAs (Decidable (c.bits.toBitVec.getLsbD i = true))

def empty : Caps := ⟨0⟩

/-- One capability; the index counts modulo 64. -/
def bit (index : UInt8) : Caps := ⟨1 <<< (index % 64).toUInt64⟩

def has (c required : Caps) : Bool := c.bits &&& required.bits == required.bits

instance : Union Caps where
  union a b := ⟨a.bits ||| b.bits⟩

instance : Inter Caps where
  inter a b := ⟨a.bits &&& b.bits⟩

instance : SDiff Caps where
  sdiff a b := ⟨a.bits &&& ~~~b.bits⟩

def isEmpty (c : Caps) : Bool := c.bits == 0

def count (c : Caps) : Nat := (List.range 64).countP fun i => decide (i ∈ c)

/-! ### Members -/

variable {a b : Caps} {i : Nat}

theorem mem_iff : i ∈ a ↔ a.bits.toBitVec.getLsbD i = true := Iff.rfl

theorem mem_union : i ∈ a ∪ b ↔ i ∈ a ∨ i ∈ b := by
  change (a.bits ||| b.bits).toBitVec.getLsbD i = true ↔ _
  simp [mem_iff]

theorem mem_inter : i ∈ a ∩ b ↔ i ∈ a ∧ i ∈ b := by
  change (a.bits &&& b.bits).toBitVec.getLsbD i = true ↔ _
  simp [mem_iff]

theorem lt_of_mem (h : i ∈ a) : i < 64 := BitVec.lt_of_getLsbD h

theorem mem_sdiff : i ∈ a \ b ↔ i ∈ a ∧ i ∉ b := by
  change (a.bits &&& ~~~b.bits).toBitVec.getLsbD i = true ↔ _
  have h : i ∈ a → i < 64 := lt_of_mem
  simp only [mem_iff, UInt64.toBitVec_and, UInt64.toBitVec_not, BitVec.getLsbD_and,
    BitVec.getLsbD_not, Bool.and_eq_true, decide_eq_true_eq, Bool.not_eq_true'] at h ⊢
  grind

theorem not_mem_empty : i ∉ empty := by simp [mem_iff, empty]

/-- One capability is the set of its index. -/
theorem mem_bit {index : UInt8} : i ∈ bit index ↔ i = index.toNat % 64 := by
  have hword : ((1 : UInt64) <<< (index % 64).toUInt64).toBitVec =
      BitVec.twoPow 64 (index.toNat % 64) := by
    rw [BitVec.twoPow_eq, UInt64.toBitVec_shiftLeft]
    simp
  change ((1 : UInt64) <<< (index % 64).toUInt64).toBitVec.getLsbD i = true ↔ _
  rw [hword, BitVec.getLsbD_twoPow, Bool.and_eq_true, decide_eq_true_eq, decide_eq_true_eq,
    and_iff_right (Nat.mod_lt _ (by decide)), eq_comm]

theorem eq_of_mem_iff (h : ∀ i, i ∈ a ↔ i ∈ b) : a = b := by
  apply Caps.ext
  apply UInt64.toBitVec_inj.mp
  apply BitVec.eq_of_getLsbD_eq
  intro i _
  have := h i
  simp only [mem_iff] at this
  cases ha : a.bits.toBitVec.getLsbD i <;> cases hb : b.bits.toBitVec.getLsbD i <;> simp_all

/-- A set meets a requirement if it contains it. -/
theorem has_iff : a.has b = true ↔ ∀ i, i ∈ b → i ∈ a := by
  have h : a.has b = true ↔ a ∩ b = b := by
    simp only [has, beq_iff_eq, Caps.ext_iff]
    rfl
  rw [h]
  constructor
  · intro heq i hi
    rw [← heq, mem_inter] at hi
    exact hi.1
  · intro hsub
    apply eq_of_mem_iff
    intro i
    rw [mem_inter]
    exact ⟨And.right, fun hi => ⟨hsub i hi, hi⟩⟩

theorem union_eq_right (h : ∀ i, i ∈ a → i ∈ b) : a ∪ b = b := by
  apply eq_of_mem_iff
  intro i
  rw [mem_union]
  exact ⟨fun hi => hi.elim (h i) id, .inr⟩

/-! ### The named capabilities -/

def sse2 : Caps := bit 0
def avx : Caps := bit 6
def avx2 : Caps := bit 7
def avx512f : Caps := bit 14
def avx512bw : Caps := bit 16

/-- AVX2 arithmetic, and the AVX state it lives in. -/
def avx2Ready : Caps := avx ∪ avx2

def avx512All : Caps := avx512f ∪ avx512bw

/-- AVX-512 byte and word arithmetic, and its foundation. -/
def avx512bwReady : Caps := avx512f ∪ avx512bw

/-- What every x86-64 processor has, and so what a build that asks for no more guarantees.
Builds for processors known to have wider extensions guarantee these too; they are not
covered here. -/
def baseline : Caps := sse2

def tracked : Caps := sse2 ∪ avx2Ready ∪ avx512All

theorem mem_baseline : i ∈ baseline ↔ i = 0 := mem_bit

theorem mem_avx2Ready : i ∈ avx2Ready ↔ i = 6 ∨ i = 7 :=
  mem_union.trans (or_congr mem_bit mem_bit)

theorem mem_avx512All : i ∈ avx512All ↔ i = 14 ∨ i = 16 :=
  mem_union.trans (or_congr mem_bit mem_bit)

theorem mem_avx512bwReady : i ∈ avx512bwReady ↔ i = 14 ∨ i = 16 := mem_avx512All

theorem mem_tracked : i ∈ tracked ↔ (i = 0 ∨ i = 6 ∨ i = 7) ∨ i = 14 ∨ i = 16 :=
  mem_union.trans (or_congr (mem_union.trans (or_congr mem_bit mem_avx2Ready)) mem_avx512All)

end Caps
end AdaptiveAdler
