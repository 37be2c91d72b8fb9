import Mathlib.Data.BitVec
import Mathlib.Order.Defs.LinearOrder

/-! # The common types

`typedefs.h` of the library: `byte_t` is an eight-bit vector, and a pointer is an option whose
`none` is `NULL_PTR`. Fixed-width unsigned integers of the source are bit vectors of that width. -/

namespace IMUtility

/-- `byte_t`, also the element type of every `uint8_t` and `char` buffer. -/
abbrev Byte := BitVec 8

/-- A pointer argument that the callee may compare with `NULL_PTR`, with the object behind it. -/
abbrev Ptr (α : Type) := Option α

/-- `NULL_PTR`. -/
abbrev nullPtr {α : Type} : Ptr α := none

/-- Unsigned integers compare by their value. -/
instance instLinearOrderBitVec {w : Nat} : LinearOrder (BitVec w) where
  le_refl _ := Nat.le_refl _
  le_trans _ _ _ := Nat.le_trans
  lt_iff_le_not_ge _ _ := Nat.lt_iff_le_and_not_ge
  le_antisymm _ _ h h' := BitVec.eq_of_toNat_eq (Nat.le_antisymm h h')
  le_total a b := Nat.le_total a.toNat b.toNat
  toDecidableLE := inferInstance
  toDecidableLT := inferInstance
  toDecidableEq := inferInstance

/-! ## Counters of type `uint32_t`

Cursors, sizes and loop counters of the library are counted up and down by one and multiplied by a
size. Where these stay in range they are the operations on numbers.
-/

theorem beq_eq_decide_toNat (x y : BitVec 32) : (x == y) = decide (x.toNat = y.toNat) := by
  rw [beq_eq_decide, decide_eq_decide, BitVec.toNat_inj]

theorem toNat_succ_of_lt {x : BitVec 32} (h : x.toNat + 1 < 2 ^ 32) :
    (x + 1#32).toNat = x.toNat + 1 := BitVec.toNat_add_of_lt h

theorem toNat_pred_of_pos {x : BitVec 32} (h : 0 < x.toNat) : (x - 1#32).toNat = x.toNat - 1 :=
  BitVec.toNat_sub_of_le h

theorem toNat_pos_of_ne_zero {x : BitVec 32} (h : x ≠ 0#32) : 0 < x.toNat :=
  Nat.pos_of_ne_zero fun hzero => h (BitVec.eq_of_toNat_eq hzero)

/-- The offset of an element below the end of an array of at most `2 ^ 32` bytes. -/
theorem toNat_mul_of_lt {x s : BitVec 32} {n : Nat} (hx : x.toNat < n) (hs : 0 < s.toNat)
    (hn : n * s.toNat ≤ 2 ^ 32) : (x * s).toNat = x.toNat * s.toNat :=
  BitVec.toNat_mul_of_lt (lt_of_lt_of_le (Nat.mul_lt_mul_of_pos_right hx hs) hn)

/-! ## `size_t` and `int32_t`

The width of `size_t` is that of the platform, and what depends on it is proved for both. The
results of `int32_t` are integers, with `none` for one that does not fit.
-/

/-- What `size_t` is: its values are those below `sizeRange`. -/
structure Platform where
  sizeRange : Nat
  sizeRange_eq : sizeRange = 2 ^ 32 ∨ sizeRange = 2 ^ 64

namespace Platform

/-- `size_t` of 32 bits. -/
def size32 : Platform := ⟨2 ^ 32, Or.inl rfl⟩

/-- `size_t` of 64 bits. -/
def size64 : Platform := ⟨2 ^ 64, Or.inr rfl⟩

/-- The result of `size_t` arithmetic, which wraps around. -/
def sizeT (p : Platform) (x : Int) : Nat := (x % p.sizeRange).toNat

theorem sizeT_eq (p : Platform) {x : Int} {n : Nat} (k : Int) (hx : x = n + k * p.sizeRange)
    (h : n < p.sizeRange) : p.sizeT x = n := by
  rw [sizeT, hx, Int.add_mul_emod_self_right, Int.emod_eq_of_lt (Int.natCast_nonneg n)
    (Int.ofNat_lt.mpr h), Int.toNat_natCast]

theorem sizeT_of_lt (p : Platform) {x : Int} {n : Nat} (hx : x = n) (h : n < p.sizeRange) :
    p.sizeT x = n := p.sizeT_eq 0 (by omega) h

end Platform

/-- The result of `int32_t` arithmetic. Signed overflow is undefined behaviour: `none`. -/
def int32 (x : Int) : Option Int := if -2 ^ 31 ≤ x ∧ x < 2 ^ 31 then some x else none

theorem int32_of_nonneg {x : Int} (h : 0 ≤ x) (hlt : x < 2 ^ 31) : int32 x = some x :=
  if_pos ⟨by omega, hlt⟩

end IMUtility
