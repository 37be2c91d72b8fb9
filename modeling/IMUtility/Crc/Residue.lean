import IMUtility.Crc.Published
import IMUtility.Lib.ByteOrder

/-! # The residue of a framed message

A sender appends the CRC to the message, in the byte order in which the register feeds its own
bits: big-endian when the output is not reflected, little-endian when it is. Feeding the CRC then
cancels the register up to the final xor, so a receiver that runs the same function over the whole
frame sees one value, whatever the message. -/

namespace IMUtility.Crc

open DivisionRegister ByteOrder

variable {w : Nat}

/-- The bytes of a CRC as they follow the message. -/
def crcBytes (reflected_output : Bool) (crc : BitVec w) : List Byte :=
  if reflected_output then bytesLE (w / 8) crc else bytesBE (w / 8) crc

/-- The message followed by its CRC. -/
def frame (f : Variant w) (reflected_output : Bool) (m : List Byte) : List Byte :=
  m ++ crcBytes reflected_output (f m true nullPtr)

/-- Every frame has one and the same CRC. -/
def HasResidue (f : Variant w) (reflected_output : Bool) : Prop :=
  ∃ r, ∀ m : List Byte, f (frame f reflected_output m) true nullPtr = r

/-! ## The bits of the appended bytes

Whether the bytes of the CRC go out lowest or highest first, the receiver's register must see the
bits of the sender's register from the top. With reflected input a byte is fed from its lowest
bit, hence the little-endian order.
-/

/-- Little-endian bytes, each least significant bit first, are the low bits in order. -/
theorem flatMap_lsbFirst_bytesLE (n : Nat) (x : BitVec w) :
    (bytesLE n x).flatMap lsbFirst = (List.range (8 * n)).map x.getLsbD := by
  induction n with
  | zero => rfl
  | succ n ih =>
      -- byte `n` has the bits from `8 * n` on
      have hbyte : lsbFirst ((x >>> (8 * n)).setWidth 8)
          = (List.range 8).map fun j => x.getLsbD (8 * n + j) := by
        apply List.map_congr_left
        intro j hj
        rw [BitVec.getLsbD_setWidth, BitVec.getLsbD_ushiftRight,
          decide_eq_true (List.mem_range.mp hj), Bool.true_and]
      rw [bytesLE_concat, List.flatMap_append, ih, List.flatMap_singleton, hbyte, Nat.mul_succ,
        List.range_add, List.map_append, List.map_map]
      rfl

/-- In either order, the appended bytes feed the register's own bits from the top. -/
theorem messageBits_crcBytes (hw : 8 * (w / 8) = w) (ri : Bool) (crc : BitVec w) :
    messageBits ri (crcBytes ri crc) = msbFirst (if ri then crc.reverse else crc) := by
  have hle : (bytesLE (w / 8) crc).flatMap lsbFirst = lsbFirst crc := by
    rw [flatMap_lsbFirst_bytesLE, hw, lsbFirst]
  cases ri with
  | true =>
      show (bytesLE (w / 8) crc).flatMap lsbFirst = msbFirst crc.reverse
      rw [hle, msbFirst_reverse]
  | false =>
      have hrev : (msbFirst : Byte → List Bool) = List.reverse ∘ lsbFirst :=
        funext fun b => (reverse_lsbFirst b).symm
      show (bytesBE (w / 8) crc).flatMap msbFirst = msbFirst crc
      rw [hrev, bytesBE, ← List.reverse_flatMap, hle, reverse_lsbFirst]

/-! ## The register after the frame

The register `s` is fed its own bits, xored with the constant of the final xor. By linearity `s`
cancels, and the constant alone is left: the residue does not depend on the message.
-/

/-- Feeding the register its own bits, xored with `x`, leaves what `x` alone would leave. -/
theorem feed_self_xor (g s x : BitVec w) :
    feed g s (msbFirst (s ^^^ x)) = advance g w x := by
  have hcancel : s ^^^ (s ^^^ x) = x := by
    rw [← BitVec.xor_assoc, BitVec.xor_self, BitVec.zero_xor]
  have htop : (top (msbFirst (s ^^^ x)) : BitVec w) = s ^^^ x := by
    rw [top_msbFirst (Nat.le_refl w), BitVec.setWidth_eq, Nat.sub_self, BitVec.shiftLeft_zero]
  rw [feed_eq_advance g s _ (Nat.le_of_eq (length_msbFirst _)), length_msbFirst, htop, hcancel]

/-- The CRC of every frame: what the final xor leaves, after the output stage. -/
def Parameters.residue (p : Parameters w) : BitVec w :=
  let register := advance p.polynomial w (if p.reflect then p.finalXor.reverse else p.finalXor)
  (if p.reflect then register.reverse else register) ^^^ p.finalXor

/-- **A published CRC has a constant residue.** -/
theorem crc_append_crcBytes (hw : 8 * (w / 8) = w) (p : Parameters w) (m : List Byte) :
    p.crc (m ++ crcBytes p.reflect (p.crc m)) = p.residue := by
  have hfeed : feed p.polynomial p.initialValue
      (messageBits p.reflect (m ++ crcBytes p.reflect (p.crc m)))
      = advance p.polynomial w (if p.reflect then p.finalXor.reverse else p.finalXor) := by
    have happend : messageBits p.reflect (m ++ crcBytes p.reflect (p.crc m))
        = messageBits p.reflect m ++ messageBits p.reflect (crcBytes p.reflect (p.crc m)) :=
      List.flatMap_append
    rw [happend, feed_append, messageBits_crcBytes hw]
    generalize hs : feed p.polynomial p.initialValue (messageBits p.reflect m) = s
    -- the CRC, back in the register's own order, is the register xored with the final value
    have hcrc : (if p.reflect then (p.crc m).reverse else p.crc m)
        = s ^^^ (if p.reflect then p.finalXor.reverse else p.finalXor) := by
      unfold Parameters.crc
      rw [hs]
      cases p.reflect with
      | false => rfl
      | true =>
          show (s.reverse ^^^ p.finalXor).reverse = s ^^^ p.finalXor.reverse
          rw [reverse_xor, BitVec.reverse_reverse_eq]
    rw [hcrc, feed_self_xor]
  rw [Parameters.crc, hfeed, Parameters.residue]

theorem hasResidue_of_crc (hw : 8 * (w / 8) = w) {f : Variant w} {p : Parameters w}
    (hf : ∀ m : List Byte, f m true nullPtr = p.crc m) : HasResidue f p.reflect := by
  refine ⟨p.residue, ?_⟩
  intro m
  rw [frame, hf, hf, crc_append_crcBytes hw]

/-! ## The three families

The byte order of a frame follows `REFLECTED_OUTPUT`, which each file defines; in every one of
them it agrees with the reflection of the published entry.
-/

/-- The CRC-8 functions, each with its `REFLECTED_OUTPUT`. -/
def reflectedOutputs8 : List (Variant 8 × Bool) :=
  [(withoutFlag crc8, false), (crc8_8h2f, false), (withoutFlag crc8Cdma2000, false),
   (crc8Darc, true), (withoutFlag crc8DvbS2, false), (crc8Ebu, true),
   (withoutFlag crc8Icode, false), (crc8Itu, false), (crc8Maxim, true), (crc8Rohc, true),
   (crc8SaeJ1850, false), (withoutFlag crc8SaeJ1850Zero, false), (crc8Wcdma, true)]

/-- The CRC-16 functions, each with its `REFLECTED_OUTPUT`. -/
def reflectedOutputs16 : List (Variant 16 × Bool) :=
  [(crc16A, true), (crc16Arc, true), (withoutFlag crc16AugCcit, false),
   (withoutFlag crc16Buypass, false), (withoutFlag crc16CcitFalse, false),
   (withoutFlag crc16CcitZero, false), (withoutFlag crc16Cdma2000, false),
   (withoutFlag crc16Dds110, false), (crc16DectR, false), (withoutFlag crc16DectX, false),
   (crc16Dnp, true), (crc16En13757, false), (crc16Genibus, false), (crc16Kermit, true),
   (crc16Maxim, true), (crc16Mcrf4xx, true), (crc16Modbus, true), (crc16Riello, true),
   (withoutFlag crc16T10Dif, false), (withoutFlag crc16Teledisk, false), (crc16Tms37157, true),
   (crc16Usb, true), (crc16X25, true)]

/-- The CRC-32 functions, each with its `REFLECTED_OUTPUT`. -/
def reflectedOutputs32 : List (Variant 32 × Bool) :=
  [(crc32, true), (crc32Bzip2, false), (crc32C, true), (crc32D, true), (crc32Jamcrc, true),
   (withoutFlag crc32Mpeg2, false), (crc32Posix, false), (withoutFlag crc32Q, false),
   (withoutFlag crc32Xfer, false)]

/-- These are all the public functions. -/
example : reflectedOutputs8.map Prod.fst = variants8 ∧
    reflectedOutputs16.map Prod.fst = variants16 ∧
    reflectedOutputs32.map Prod.fst = variants32 := ⟨rfl, rfl, rfl⟩

/-- A function of a catalogue has a residue, for the reflection of its entry. -/
theorem hasResidue_of_catalogue (hw : 8 * (w / 8) = w)
    {catalogue : List (Variant w × Parameters w)}
    (hcrc : ∀ e ∈ catalogue, ∀ m : List Byte, e.1 m true nullPtr = e.2.crc m) :
    ∀ v ∈ catalogue.map (fun e => (e.1, e.2.reflect)), HasResidue v.1 v.2 := by
  intro v hv
  obtain ⟨e, he, rfl⟩ := List.mem_map.mp hv
  exact hasResidue_of_crc hw (hcrc e he)

/-- **Constant residue for receivers**, of each of the 45 functions. -/
theorem variants_haveResidue :
    (∀ v ∈ reflectedOutputs8, HasResidue v.1 v.2) ∧
    (∀ v ∈ reflectedOutputs16, HasResidue v.1 v.2) ∧
    (∀ v ∈ reflectedOutputs32, HasResidue v.1 v.2) :=
  ⟨hasResidue_of_catalogue (by omega) catalogue8_crc,
   hasResidue_of_catalogue (by omega) catalogue16_crc,
   hasResidue_of_catalogue (by omega) catalogue32_crc⟩

end IMUtility.Crc
