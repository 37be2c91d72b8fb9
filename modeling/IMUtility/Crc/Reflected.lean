import IMUtility.Crc.Base

/-! # The right-shifting CRC

The usual table-driven CRC with reflected input and output keeps its register mirrored: the table
is built from the bit-reversed polynomial by right shifts, and the register starts at the
bit-reversed initial value and moves right by a byte at a time. The engines of the library shift
left and reflect every byte on the way in and the register on the way out.
`crcBase_eq_rightShifting` says that the two are the same function. -/

namespace IMUtility.Crc

open DivisionRegister

variable {w : Nat}

/-! ## The algorithm

It is written from its usual description, without the functions of the library: table, step and
message have a definition of their own.
-/

/-- One pass of the inner loop of a right-shifting table calculator. -/
def divideBitRight (polynomial residue : BitVec w) : BitVec w :=
  if residue.getLsbD 0 then (residue >>> 1) ^^^ polynomial else residue >>> 1

/-- The table `R` of a polynomial that is already reversed. -/
def rightTable (polynomial : BitVec w) : Table w :=
  Vector.ofFn fun dividend => (divideBitRight polynomial)^[8] (BitVec.ofNat w dividend.val)

/-- `r := (r >> 8) xor R[(r xor byte) and 0xFF]`. -/
def rightStep (R : Table w) (r : BitVec w) (byte : Byte) : BitVec w :=
  (r >>> 8) ^^^ R.at (((r ^^^ byte.setWidth w) &&& 0xFF#w).setWidth 8)

/-- The right-shifting CRC of a message, from the register `r`. -/
def rightShifting (R : Table w) (message : List Byte) (r final_xor_value : BitVec w) : BitVec w :=
  message.foldl (rightStep R) r ^^^ final_xor_value

/-! ## One byte

The right-shifting register is the mirror image of the left-shifting one; the library proves this
for a single step, and the table entries and the step of a byte follow.
-/

theorem divideBitRight_eq_stepRight (g r : BitVec w) :
    divideBitRight g r = stepRight g r false := by
  unfold divideBitRight stepRight
  rw [Bool.xor_false]
  cases r.getLsbD 0 with
  | false => exact BitVec.xor_zero.symm
  | true => rfl

theorem iterate_divideBitRight (g : BitVec w) (n : Nat) (r : BitVec w) :
    (divideBitRight g)^[n] r = advanceRight g n r := by
  induction n generalizing r with
  | zero => rfl
  | succ n ih =>
      rw [Function.iterate_succ_apply, divideBitRight_eq_stepRight, ih, advanceRight]

/-- Entry `i` of `R` is the mirrored residue of `i`. -/
theorem at_rightTable (g : BitVec w) (i : Byte) : (rightTable g).at i = residueRight g i := by
  have hi : i.toNat < 256 := i.isLt
  have hdividend : BitVec.ofNat w i.toNat = i.setWidth w := by
    apply BitVec.eq_of_toNat_eq
    rw [BitVec.toNat_ofNat, BitVec.toNat_setWidth]
  show (rightTable g)[i.toNat] = _
  rw [rightTable, Vector.getElem_ofFn, iterate_divideBitRight, hdividend, residueRight]

theorem rightStep_eq (h8 : 8 ≤ w) (g r : BitVec w) (b : Byte) :
    rightStep (rightTable g) r b = (r >>> 8) ^^^ residueRight g (r.setWidth 8 ^^^ b) := by
  -- the mask keeps all that the index has
  have hindex : ((r ^^^ b.setWidth w) &&& 0xFF#w).setWidth 8 = r.setWidth 8 ^^^ b := by
    have hmask : (0xFF#w).setWidth 8 = BitVec.allOnes 8 := by
      rw [BitVec.setWidth_ofNat_of_le h8]
      rfl
    rw [BitVec.setWidth_and, hmask, BitVec.and_allOnes, BitVec.setWidth_xor,
      BitVec.setWidth_setWidth_of_le _ h8, BitVec.setWidth_eq]
  rw [rightStep, hindex, at_rightTable]

/-- Mirrored, feeding a byte least significant bit first is the right-shifting step. -/
theorem reverse_feed_lsbFirst (h8 : 8 ≤ w) (g crc : BitVec w) (b : Byte) :
    (feed g crc (lsbFirst b)).reverse = rightStep (rightTable g.reverse) crc.reverse b := by
  rw [← msbFirst_reverse, reverse_feed_block h8, rightStep_eq h8]

/-! ## A whole message -/

/-- The mirrored register simulates the engine's through every byte. -/
theorem reverse_feed_messageBits (h8 : 8 ≤ w) (g : BitVec w) (message : List Byte)
    (crc : BitVec w) :
    (feed g crc (messageBits true message)).reverse
      = message.foldl (rightStep (rightTable g.reverse)) crc.reverse := by
  induction message generalizing crc with
  | nil => rfl
  | cons b bs ih =>
      have hbits : messageBits true (b :: bs) = lsbFirst b ++ messageBits true bs := rfl
      rw [hbits, feed_append, ih, reverse_feed_lsbFirst h8, List.foldl_cons]

theorem bitwise_eq_rightShifting (h8 : 8 ≤ w) (g : BitVec w) (message : List Byte)
    (initial final_xor_value : BitVec w) :
    bitwise g message initial final_xor_value true true true
      = rightShifting (rightTable g.reverse) message initial.reverse final_xor_value := by
  -- the reversal of the output stage undoes the mirroring of the register
  rw [rightShifting, ← reverse_feed_messageBits h8]
  rfl

/-- **The engines are the right-shifting CRC.** With reflected input, reflected output and the
final xor, each engine with the table of a polynomial returns the right-shifting CRC of the
reversed polynomial from the reversed initial value. -/
theorem crcBase_eq_rightShifting (crc_data : List Byte) :
    (∀ g initial final_xor_value : BitVec 8,
      crc8Base (crc8BaseTableCalculator g) crc_data initial final_xor_value true true true
        = rightShifting (rightTable g.reverse) crc_data initial.reverse final_xor_value) ∧
    (∀ g initial final_xor_value : BitVec 16,
      crc16Base (crc16BaseTableCalculator g) crc_data initial final_xor_value true true true
        = rightShifting (rightTable g.reverse) crc_data initial.reverse final_xor_value) ∧
    (∀ g initial final_xor_value : BitVec 32,
      crc32Base (crc32BaseTableCalculator g) crc_data initial final_xor_value true true true
        = rightShifting (rightTable g.reverse) crc_data initial.reverse final_xor_value) := by
  refine ⟨?_, ?_, ?_⟩
  · intro g initial final_xor_value
    rw [crc8Base_eq_bitwise, bitwise_eq_rightShifting (by omega)]
  · intro g initial final_xor_value
    rw [crc16Base_eq_bitwise, bitwise_eq_rightShifting (by omega)]
  · intro g initial final_xor_value
    rw [crc32Base_eq_bitwise, bitwise_eq_rightShifting (by omega)]

end IMUtility.Crc
