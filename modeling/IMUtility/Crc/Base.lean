import IMUtility.BitManipulation
import IMUtility.Crc.Bitwise

/-! # The table-driven engines

`crc8_base.c`, `crc16_base.c` and `crc32_base.c`. The pointer and the length of the data are one
list of bytes, and the loop counter walks over it. Shifts and xors are done on operands promoted
to 32 bits and truncated on assignment, as C does for `uint8_t` and `uint16_t`.

The three table calculators are one function of the top bit and the shift of the dividend, and
the 16- and 32-bit engines one function of the shift that exposes the top byte. `Crc8Base`
replaces its whole register by the table entry, so it keeps its own step.

The result of the module is `crcBase_eq_bitwise`: with the calculated table each engine is the
plain bitwise CRC. -/

namespace IMUtility.Crc

open DivisionRegister

variable {w : Nat}

/-- `crc_table[256]`. -/
abbrev Table (w : Nat) := Vector (BitVec w) 256

/-- `crc_table[i]` for an index of type `uint8_t`. -/
def Table.at (crc_table : Table w) (i : Byte) : BitVec w := crc_table.get i.toFin

/-! ## Table calculators

The source writes the two nested loops three times, with the top bit and the shift of each width
as literals. Here the inner loop is iterated eight times on the shifted dividend, and each
calculator is that loop at its own literals.
-/

/-- One pass of the inner loop over `bit`. -/
def divideBit (top_bit polynomial residue : BitVec w) : BitVec w :=
  if 0#w = residue &&& top_bit then
    (residue.setWidth 32 <<< 1).setWidth w
  else
    ((residue.setWidth 32 <<< 1) ^^^ polynomial.setWidth 32).setWidth w

/-- The shape shared by the table calculators. -/
def tableCalculator (top_bit : BitVec w) (shift : Nat) (polynomial : BitVec w) : Table w :=
  Vector.ofFn fun dividend =>
    (divideBit top_bit polynomial)^[8] ((BitVec.ofNat 32 dividend.val <<< shift).setWidth w)

/-- `Crc8Base_tableCalculator`. -/
def crc8BaseTableCalculator (polynomial : BitVec 8) : Table 8 :=
  tableCalculator 0x80#8 0 polynomial

/-- `Crc16Base_tableCalculator`. -/
def crc16BaseTableCalculator (polynomial : BitVec 16) : Table 16 :=
  tableCalculator 0x8000#16 8 polynomial

/-- `Crc32Base_tableCalculator`. -/
def crc32BaseTableCalculator (polynomial : BitVec 32) : Table 32 :=
  tableCalculator 0x80000000#32 24 polynomial

/-! ## Engines

What is not shared stays apart: `Crc8Base` has no shift of its register, since a table entry is as
wide as the register. The flags are arguments of the engine, and a variant passes its `#define`s
for them.
-/

/-- The local `temp`: the next data byte, reflected if asked for. -/
def temp (reflected_input : Bool) (data : Byte) : Byte :=
  if reflected_input then (BitManipulation.reflect (data.setWidth 32) 8#8).setWidth 8 else data

/-- What the engines do after the loop; `bits` is `REFLECTED_OUTPUT_BITS_NUM`. -/
def finish (bits : BitVec 8) (final_xor_value : BitVec w) (reflected_output final_xor : Bool)
    (crc : BitVec w) : BitVec w :=
  let crc :=
    if reflected_output then (BitManipulation.reflect (crc.setWidth 32) bits).setWidth w else crc
  if final_xor then crc ^^^ final_xor_value else crc

/-- The loop body of the wide engines:
`(crc << 8) ^ crc_table[(uint8_t)((crc >> shift) ^ temp)]`. -/
def wideStep (shift : Nat) (crc_table : Table w) (crc : BitVec w) (temp : Byte) : BitVec w :=
  ((crc.setWidth 32 <<< 8) ^^^
    (crc_table.at (((crc.setWidth 32 >>> shift) ^^^ temp.setWidth 32).setWidth 8)).setWidth 32).setWidth w

/-- The loop body of `Crc8Base`: `crc = crc ^ temp; crc = crc_table[crc];`. -/
def byteStep (crc_table : Table 8) (crc : BitVec 8) (temp : Byte) : BitVec 8 :=
  crc_table.at (crc ^^^ temp)

/-- `Crc8Base`. -/
def crc8Base (crc_table : Table 8) (crc_data : List Byte)
    (crc_initial_value final_xor_value : BitVec 8)
    (reflected_output reflected_input final_xor : Bool) : BitVec 8 :=
  finish 8#8 final_xor_value reflected_output final_xor
    (crc_data.foldl (fun crc b => byteStep crc_table crc (temp reflected_input b)) crc_initial_value)

/-- The shape shared by `Crc16Base` and `Crc32Base`. -/
def wideBase (shift : Nat) (bits : BitVec 8) (crc_table : Table w) (crc_data : List Byte)
    (crc_initial_value final_xor_value : BitVec w)
    (reflected_output reflected_input final_xor : Bool) : BitVec w :=
  finish bits final_xor_value reflected_output final_xor
    (crc_data.foldl (fun crc b => wideStep shift crc_table crc (temp reflected_input b))
      crc_initial_value)

/-- `Crc16Base`. -/
def crc16Base (crc_table : Table 16) (crc_data : List Byte)
    (crc_initial_value final_xor_value : BitVec 16)
    (reflected_output reflected_input final_xor : Bool) : BitVec 16 :=
  wideBase 8 16#8 crc_table crc_data crc_initial_value final_xor_value
    reflected_output reflected_input final_xor

/-- `Crc32Base`. -/
def crc32Base (crc_table : Table 32) (crc_data : List Byte)
    (crc_initial_value final_xor_value : BitVec 32)
    (reflected_output reflected_input final_xor : Bool) : BitVec 32 :=
  wideBase 24 32#8 crc_table crc_data crc_initial_value final_xor_value
    reflected_output reflected_input final_xor

/-! ## Promotion

Truncating after an operation on promoted operands is the operation on the narrow type. -/

theorem setWidth_promote (hw : w ≤ 32) (x : BitVec w) : (x.setWidth 32).setWidth w = x := by
  rw [BitVec.setWidth_setWidth_of_le _ hw, BitVec.setWidth_eq]

theorem shiftLeft_promote (hw : w ≤ 32) (x : BitVec w) (n : Nat) :
    (x.setWidth 32 <<< n).setWidth w = x <<< n := by
  apply BitVec.eq_of_getLsbD_eq
  intro i hi
  have hi32 : i < 32 := by omega
  simp only [BitVec.getLsbD_setWidth, BitVec.getLsbD_shiftLeft, hi, hi32]
  by_cases hin : i < n
  · simp [hin]
  · have hin32 : i - n < 32 := by omega
    simp [hin, hin32]

/-! ## The calculated tables hold the residues

The entry for `i` is what the division register holds when `i` has been fed into a register of
zeros. Testing the top bit with a mask and testing it as `msb` are the same.
-/

theorem and_intMin_eq_zero (x : BitVec w) : 0#w = x &&& BitVec.intMin w ↔ x.msb = false := by
  constructor
  · intro h
    have hbit := congrArg BitVec.msb h
    rw [BitVec.msb_and, BitVec.msb_intMin] at hbit
    -- the mask has its one bit at the top, so the `msb` of the conjunction is that of `x`
    rcases Nat.eq_zero_or_pos w with rfl | hw
    · simp [BitVec.of_length_zero]
    · simpa [hw] using hbit
  · intro h
    apply BitVec.eq_of_getLsbD_eq
    intro i hi
    rw [BitVec.getLsbD_and, BitVec.getLsbD_intMin]
    by_cases hlast : i + 1 = w
    · have hieq : i = w - 1 := by omega
      have hmsb : x.getLsbD (w - 1) = false := by rw [← BitVec.msb_eq_getLsbD_last, h]
      simp [hieq, hmsb]
    · simp [hlast]

theorem divideBit_eq_step (hw : w ≤ 32) (g s : BitVec w) :
    divideBit (BitVec.intMin w) g s = step g s false := by
  unfold divideBit step
  rw [BitVec.setWidth_xor, shiftLeft_promote hw, setWidth_promote hw, Bool.xor_false]
  by_cases h : s.msb = false
  · rw [if_pos ((and_intMin_eq_zero s).mpr h), h]
    simp
  · rw [if_neg (mt (and_intMin_eq_zero s).mp h), eq_true_of_ne_false h]
    simp

theorem iterate_divideBit (hw : w ≤ 32) (g : BitVec w) (n : Nat) (s : BitVec w) :
    (divideBit (BitVec.intMin w) g)^[n] s = advance g n s := by
  induction n generalizing s with
  | zero => rfl
  | succ n ih => rw [Function.iterate_succ_apply, divideBit_eq_step hw, ih, advance]

/-- Entry `i` of the calculated table is the residue of `i`. -/
theorem at_tableCalculator (hw : w ≤ 32) (g : BitVec w) (i : Byte) :
    (tableCalculator (BitVec.intMin w) (w - 8) g).at i = residue g i := by
  -- the dividend is promoted before it is shifted to the top, and nothing is lost there
  have hdividend : ((BitVec.ofNat 32 i.toNat <<< (w - 8)).setWidth w) = i.setWidth w <<< (w - 8) := by
    have hi : BitVec.ofNat 32 i.toNat = i.setWidth 32 := by
      apply BitVec.eq_of_toNat_eq; simp
    rw [hi]
    apply BitVec.eq_of_getLsbD_eq
    intro j hj
    have hj32 : j < 32 := by omega
    simp [hj, hj32]
  have hi : i.toNat < 256 := i.isLt
  show (tableCalculator (BitVec.intMin w) (w - 8) g)[i.toNat] = _
  rw [tableCalculator, Vector.getElem_ofFn, iterate_divideBit hw, hdividend, residue]

/-! ## One byte

The library's `feed_block` says what eight steps of the register do at once: the byte that leaves
selects the residue that is xored in. The loop bodies compute just that, up to the promotions.
-/

theorem temp_eq (ri : Bool) (b : Byte) : temp ri b = if ri then b.reverse else b := by
  unfold temp
  rw [BitManipulation.reflect_eq_reverse (by omega) (by rfl)]

/-- The wide loop body feeds the eight bits of `temp`. -/
theorem wideStep_eq_feed (hw : w ≤ 32) (h8 : 8 ≤ w) (g crc : BitVec w) (b : Byte) :
    wideStep (w - 8) (tableCalculator (BitVec.intMin w) (w - 8) g) crc b
      = feed g crc (msbFirst b) := by
  -- the cast to `uint8_t` keeps the byte that leaves the register, xored with `temp`
  have hindex : (((crc.setWidth 32 >>> (w - 8)) ^^^ b.setWidth 32).setWidth 8 : Byte)
      = (crc >>> (w - 8)).setWidth 8 ^^^ b := by
    apply BitVec.eq_of_getLsbD_eq
    intro i hi
    have hi32 : i < 32 := by omega
    have hpos : w - 8 + i < 32 := by omega
    simp [hi, hi32, hpos]
  rw [wideStep, hindex, at_tableCalculator hw, BitVec.setWidth_xor, shiftLeft_promote hw,
    setWidth_promote hw, feed_block h8]

theorem byteStep_eq_feed (g crc : BitVec 8) (b : Byte) :
    byteStep (crc8BaseTableCalculator g) crc b = feed g crc (msbFirst b) := by
  have htable : (crc8BaseTableCalculator g).at (crc ^^^ b) = residue g (crc ^^^ b) :=
    at_tableCalculator (by omega) g (crc ^^^ b)
  rw [byteStep, htable, feed_block (Nat.le_refl 8)]
  -- nothing of an eight-bit register is left when a byte has been shifted out
  have hout : crc <<< 8 = 0#8 := by
    apply BitVec.eq_of_getLsbD_eq
    intro i hi
    simp [hi]
  simp [hout]

/-! ## A whole message

The engines differ in their loop body and in the width of the output stage, so the message is
treated once, for any body that feeds a byte.
-/

/-- A loop whose body feeds the bits of one `temp` feeds the bits of the message. -/
theorem foldl_eq_feed (g : BitVec w) (body : BitVec w → Byte → BitVec w)
    (hbody : ∀ crc b, body crc b = feed g crc (msbFirst b)) (ri : Bool) (crc_data : List Byte)
    (crc : BitVec w) :
    crc_data.foldl (fun crc b => body crc (temp ri b)) crc
      = feed g crc (messageBits ri crc_data) := by
  induction crc_data generalizing crc with
  | nil => rfl
  | cons b bs ih =>
      -- one byte fed, then the stream of the rest
      rw [List.foldl_cons, ih, hbody, temp_eq, messageBits_cons, feed_append]

theorem finish_eq_outputStage (hw : w ≤ 32) {bits : BitVec 8} (hbits : bits.toNat = w)
    (final_xor_value : BitVec w) (ro fx : Bool) (crc : BitVec w) :
    finish bits final_xor_value ro fx crc = outputStage final_xor_value ro fx crc := by
  unfold finish outputStage
  rw [BitManipulation.reflect_eq_reverse hw hbits]

theorem wideBase_eq_bitwise (hw : w ≤ 32) (h8 : 8 ≤ w) {bits : BitVec 8} (hbits : bits.toNat = w)
    (g : BitVec w) (crc_data : List Byte) (initial final_xor_value : BitVec w)
    (ro ri fx : Bool) :
    wideBase (w - 8) bits (tableCalculator (BitVec.intMin w) (w - 8) g) crc_data initial
        final_xor_value ro ri fx
      = bitwise g crc_data initial final_xor_value ro ri fx := by
  rw [wideBase, finish_eq_outputStage hw hbits,
    foldl_eq_feed g _ (wideStep_eq_feed hw h8 g), bitwise]

theorem crc8Base_eq_bitwise (g : BitVec 8) (crc_data : List Byte)
    (initial final_xor_value : BitVec 8) (ro ri fx : Bool) :
    crc8Base (crc8BaseTableCalculator g) crc_data initial final_xor_value ro ri fx
      = bitwise g crc_data initial final_xor_value ro ri fx := by
  have hbits : (8#8).toNat = 8 := rfl
  rw [crc8Base, finish_eq_outputStage (by omega) hbits, foldl_eq_feed g _ (byteStep_eq_feed g),
    bitwise]

theorem crc16Base_eq_bitwise (g : BitVec 16) (crc_data : List Byte)
    (initial final_xor_value : BitVec 16) (ro ri fx : Bool) :
    crc16Base (crc16BaseTableCalculator g) crc_data initial final_xor_value ro ri fx
      = bitwise g crc_data initial final_xor_value ro ri fx := by
  have hbits : (16#8).toNat = 16 := rfl
  exact wideBase_eq_bitwise (by omega) (by omega) hbits g crc_data initial final_xor_value ro ri fx

theorem crc32Base_eq_bitwise (g : BitVec 32) (crc_data : List Byte)
    (initial final_xor_value : BitVec 32) (ro ri fx : Bool) :
    crc32Base (crc32BaseTableCalculator g) crc_data initial final_xor_value ro ri fx
      = bitwise g crc_data initial final_xor_value ro ri fx := by
  have hbits : (32#8).toNat = 32 := rfl
  exact wideBase_eq_bitwise (by omega) (by omega) hbits g crc_data initial final_xor_value ro ri fx

/-- **Table-driven is bit by bit**, at the three widths: with the calculated table of any
polynomial, and for any message and any setting, an engine returns the bitwise CRC. -/
theorem crcBase_eq_bitwise (crc_data : List Byte) (ro ri fx : Bool) :
    (∀ g initial final_xor_value : BitVec 8,
      crc8Base (crc8BaseTableCalculator g) crc_data initial final_xor_value ro ri fx
        = bitwise g crc_data initial final_xor_value ro ri fx) ∧
    (∀ g initial final_xor_value : BitVec 16,
      crc16Base (crc16BaseTableCalculator g) crc_data initial final_xor_value ro ri fx
        = bitwise g crc_data initial final_xor_value ro ri fx) ∧
    (∀ g initial final_xor_value : BitVec 32,
      crc32Base (crc32BaseTableCalculator g) crc_data initial final_xor_value ro ri fx
        = bitwise g crc_data initial final_xor_value ro ri fx) :=
  ⟨fun g i x => crc8Base_eq_bitwise g crc_data i x ro ri fx,
   fun g i x => crc16Base_eq_bitwise g crc_data i x ro ri fx,
   fun g i x => crc32Base_eq_bitwise g crc_data i x ro ri fx⟩

end IMUtility.Crc
