import AdaptiveAdler.Sums
import Mathlib.Algebra.Ring.Hom.Defs
import Mathlib.Tactic.Linarith
import Mathlib.Tactic.Ring

/-! The two sums over any semiring.

Between reductions a kernel works on words, the words stand for natural numbers,
and what counts in the end are residues modulo 65521. All of them are summed by one
rule: `Totals.advance` says what a byte string adds to a pair of sums, over any
semiring, and a homomorphism of semirings respects it (`map_advance`). It is what the
bytes come to one by one (`absorbAll_eq_advance`). -/
namespace AdaptiveAdler

/-! ### Byte sums -/

@[simp] theorem byteSum_nil : byteSum [] = 0 := rfl

theorem byteSum_cons (b : UInt8) (bytes : List UInt8) :
    byteSum (b :: bytes) = b.toNat + byteSum bytes := rfl

theorem byteSum_append (a b : List UInt8) : byteSum (a ++ b) = byteSum a + byteSum b := by
  induction a with
  | nil => simp
  | cons x rest ih => rw [List.cons_append, byteSum_cons, byteSum_cons, ih, Nat.add_assoc]

@[simp] theorem weightedSum_nil : weightedSum [] = 0 := rfl

theorem weightedSum_cons (b : UInt8) (bytes : List UInt8) :
    weightedSum (b :: bytes) = (bytes.length + 1) * b.toNat + weightedSum bytes := rfl

/-- Every byte of the first string counts once more for each byte of the second. -/
theorem weightedSum_append (a b : List UInt8) :
    weightedSum (a ++ b) = weightedSum a + b.length * byteSum a + weightedSum b := by
  induction a with
  | nil => simp
  | cons x rest ih =>
    rw [List.cons_append, weightedSum_cons, weightedSum_cons, byteSum_cons, ih, List.length_append]
    ring

theorem byteSum_le (bytes : List UInt8) : byteSum bytes ≤ 255 * bytes.length := by
  induction bytes with
  | nil => exact Nat.le_refl 0
  | cons b rest ih =>
    have hb := b.toNat_lt
    rw [byteSum_cons, List.length_cons]
    omega

theorem weightedSum_le (bytes : List UInt8) :
    2 * weightedSum bytes ≤ 255 * (bytes.length * (bytes.length + 1)) := by
  induction bytes with
  | nil => exact Nat.le_refl 0
  | cons b rest ih =>
    have hb : (rest.length + 1) * b.toNat ≤ (rest.length + 1) * 255 :=
      Nat.mul_le_mul_left _ (Nat.le_of_lt_succ b.toNat_lt)
    rw [weightedSum_cons, List.length_cons]
    linarith

/-! ### Totals -/

@[ext] structure Totals (R : Type) where
  plain : R
  weighted : R

namespace Totals
variable {R S : Type} [CommSemiring R] [CommSemiring S]

/-- The sums after a byte string: the plain sum that was there before counts once
more for every byte. -/
def advance (t : Totals R) (bytes : List UInt8) : Totals R where
  plain := t.plain + (byteSum bytes : R)
  weighted := t.weighted + (bytes.length : R) * t.plain + (weightedSum bytes : R)

@[simp] theorem advance_nil (t : Totals R) : t.advance [] = t := by
  simp [advance]

theorem advance_append (t : Totals R) (a b : List UInt8) :
    t.advance (a ++ b) = (t.advance a).advance b := by
  simp only [advance, byteSum_append, weightedSum_append, List.length_append, Nat.cast_add,
    Nat.cast_mul, mk.injEq]
  constructor <;> ring

/-- The sums after one byte. -/
def absorb (t : Totals R) (byte : UInt8) : Totals R where
  plain := t.plain + (byte.toNat : R)
  weighted := t.weighted + (t.plain + (byte.toNat : R))

def absorbAll (t : Totals R) (bytes : List UInt8) : Totals R := bytes.foldl absorb t

theorem advance_singleton (t : Totals R) (byte : UInt8) : t.advance [byte] = t.absorb byte := by
  simp only [advance, absorb, byteSum_cons, byteSum_nil, weightedSum_cons, weightedSum_nil,
    List.length_cons, List.length_nil, Nat.add_zero, Nat.zero_add, Nat.cast_one, one_mul,
    add_assoc]

theorem absorbAll_eq_advance (t : Totals R) (bytes : List UInt8) :
    t.absorbAll bytes = t.advance bytes := by
  induction bytes generalizing t with
  | nil => exact (advance_nil t).symm
  | cons b rest ih =>
    show (t.absorb b).absorbAll rest = t.advance ([b] ++ rest)
    rw [ih, advance_append, advance_singleton]

/-- The sums read in another semiring. -/
def map (f : R →+* S) (t : Totals R) : Totals S := ⟨f t.plain, f t.weighted⟩

theorem map_advance (f : R →+* S) (t : Totals R) (bytes : List UInt8) :
    (t.advance bytes).map f = (t.map f).advance bytes := by
  simp only [advance, map, map_add, map_mul, map_natCast]

end Totals
end AdaptiveAdler
