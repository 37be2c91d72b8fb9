import IMUtility.Typedefs
import IMUtility.Lib.DivisionRegister

/-! # The plain bitwise CRC

What the table-driven engines are for, stated without tables: the message is fed one bit at a
time into a division register, and the register is reversed and xored at the end. -/

namespace IMUtility.Crc

open DivisionRegister

variable {w : Nat}

/-- The bit stream of a message: bytes in order, and within a byte the most significant bit
first, or the least significant one when the input is reflected. -/
def messageBits (reflected_input : Bool) (message : List Byte) : List Bool :=
  message.flatMap fun b => if reflected_input then lsbFirst b else msbFirst b

/-- The output stage: bit reversal, then the final xor. -/
def outputStage (final_xor_value : BitVec w) (reflected_output final_xor : Bool)
    (crc : BitVec w) : BitVec w :=
  let crc := if reflected_output then crc.reverse else crc
  if final_xor then crc ^^^ final_xor_value else crc

/-- The bitwise CRC of a message with polynomial `g`. -/
def bitwise (g : BitVec w) (message : List Byte) (initial final_xor_value : BitVec w)
    (reflected_output reflected_input final_xor : Bool) : BitVec w :=
  outputStage final_xor_value reflected_output final_xor
    (feed g initial (messageBits reflected_input message))

theorem messageBits_cons (ri : Bool) (b : Byte) (bs : List Byte) :
    messageBits ri (b :: bs)
      = msbFirst (if ri then b.reverse else b) ++ messageBits ri bs := by
  cases ri <;> simp [messageBits, msbFirst_reverse]

theorem length_messageBits (ri : Bool) (message : List Byte) :
    (messageBits ri message).length = 8 * message.length := by
  induction message with
  | nil => rfl
  | cons b bs ih =>
      rw [messageBits_cons, List.length_append, length_msbFirst, ih, List.length_cons]
      omega

/-- The output stage loses nothing. -/
theorem outputStage_injective (final_xor_value : BitVec w) (ro fx : Bool) :
    Function.Injective (outputStage final_xor_value ro fx) := by
  intro a b h
  -- undo the xor first, then the reversal
  have hxor : (if ro then a.reverse else a) = (if ro then b.reverse else b) := by
    cases fx with
    | false => exact h
    | true => exact (BitVec.xor_left_inj final_xor_value).mp h
  cases ro with
  | false => exact hxor
  | true =>
      have := congrArg BitVec.reverse hxor
      simpa using this

end IMUtility.Crc
