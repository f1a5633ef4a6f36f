/-! Vectors of 32-bit lanes.

A vector register is a row of lanes, lane 0 first, and every operation acts on
all lanes at once, each wrapping by itself. Besides the lane-wise operations
there are those that read narrower elements: bytes widened to lanes, byte sums
over eight neighbours, and products of signed 16-bit pairs.

A row is seen through its lanes: `getElem_add` and its like say what each
operation leaves in a lane. -/
namespace AdaptiveAdler

/-- A row of `n` unsigned 32-bit lanes. -/
abbrev Lanes (n : Nat) := Vector UInt32 n

namespace Lanes

def zero (n : Nat) : Lanes n := Vector.replicate n 0

def add {n : Nat} (v w : Lanes n) : Lanes n := v.zipWith (· + ·) w

/-- The low 32 bits of each product. -/
def mul {n : Nat} (v w : Lanes n) : Lanes n := v.zipWith (· * ·) w

def shiftLeft {n : Nat} (v : Lanes n) (amount : UInt32) : Lanes n := v.map (· <<< amount)

def lower {n : Nat} (v : Lanes (n + n)) : Lanes n := Vector.ofFn fun i => v[i.val]

def upper {n : Nat} (v : Lanes (n + n)) : Lanes n := Vector.ofFn fun i => v[n + i.val]

/-- Four lanes rearranged: two bits of `control`, lowest first, choose the source of each lane. -/
def shuffle (control : Nat) (v : Lanes 4) : Lanes 4 :=
  Vector.ofFn fun i => v.get ⟨(control >>> (2 * i.val)) % 4, Nat.mod_lt _ (by decide)⟩

/-! ### Narrower elements -/

/-- `n` bytes from `offset` on, one to a lane. -/
def widen {m : Nat} (n offset : Nat) (fits : offset + n ≤ m) (bytes : Vector UInt8 m) : Lanes n :=
  Vector.ofFn fun i => bytes[offset + i.val].toUInt32

/-- The sum of eight bytes from `offset` on. It is below 2^11. -/
def sumOfEight {m : Nat} (offset : Nat) (fits : offset + 8 ≤ m) (bytes : Vector UInt8 m) : UInt32 :=
  (widen 8 offset fits bytes).foldl (· + ·) 0

/-- The sums of the two halves of sixteen bytes, each in the low lane of a 64-bit
pair; the high lanes are zero. -/
def byteSums {m : Nat} (offset : Nat) (fits : offset + 16 ≤ m) (bytes : Vector UInt8 m) : Lanes 4 :=
  #v[sumOfEight offset (by omega) bytes, 0, sumOfEight (offset + 8) (by omega) bytes, 0]

/-- A row of eight 16-bit elements. -/
abbrev Halves := Vector UInt16 8

/-- Eight bytes from `offset` on, one to a 16-bit element. -/
def widenHalves {m : Nat} (offset : Nat) (fits : offset + 8 ≤ m) (bytes : Vector UInt8 m) : Halves :=
  Vector.ofFn fun i => bytes[offset + i.val].toUInt16

def addHalves (v w : Halves) : Halves := v.zipWith (· + ·) w

/-- A 16-bit element read as a signed number and extended to 32 bits. -/
def signExtend (x : UInt16) : Int32 := x.toInt16.toInt32

/-- Signed products of 16-bit elements, neighbouring products added. -/
def multiplyAdd (v w : Halves) : Lanes 4 :=
  Vector.ofFn fun i =>
    (signExtend v[2 * i.val] * signExtend w[2 * i.val]
      + signExtend v[2 * i.val + 1] * signExtend w[2 * i.val + 1]).toUInt32

/-! ### What each operation leaves in a lane -/

section Lane
variable {m n i : Nat}

@[simp] theorem getElem_zero (h : i < n) : (zero n)[i] = 0 := Vector.getElem_replicate h

@[simp] theorem getElem_add (v w : Lanes n) (h : i < n) : (v.add w)[i] = v[i] + w[i] :=
  Vector.getElem_zipWith h

@[simp] theorem getElem_mul (v w : Lanes n) (h : i < n) : (v.mul w)[i] = v[i] * w[i] :=
  Vector.getElem_zipWith h

@[simp] theorem getElem_shiftLeft (v : Lanes n) (amount : UInt32) (h : i < n) :
    (v.shiftLeft amount)[i] = v[i] <<< amount :=
  Vector.getElem_map _ h

@[simp] theorem getElem_lower (v : Lanes (n + n)) (h : i < n) : (lower v)[i] = v[i] :=
  Vector.getElem_ofFn h

@[simp] theorem getElem_upper (v : Lanes (n + n)) (h : i < n) : (upper v)[i] = v[n + i] :=
  Vector.getElem_ofFn h

@[simp] theorem getElem_widen (offset : Nat) (fits : offset + n ≤ m) (bytes : Vector UInt8 m)
    (h : i < n) : (widen n offset fits bytes)[i] = bytes[offset + i].toUInt32 :=
  Vector.getElem_ofFn h

@[simp] theorem getElem_widenHalves (offset : Nat) (fits : offset + 8 ≤ m) (bytes : Vector UInt8 m)
    (h : i < 8) : (widenHalves offset fits bytes)[i] = bytes[offset + i].toUInt16 :=
  Vector.getElem_ofFn h

@[simp] theorem getElem_addHalves (v w : Halves) (h : i < 8) : (addHalves v w)[i] = v[i] + w[i] :=
  Vector.getElem_zipWith h

end Lane

end Lanes
end AdaptiveAdler
