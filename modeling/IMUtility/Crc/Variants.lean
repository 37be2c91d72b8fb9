import IMUtility.Crc.Tables

/-! # The public CRC functions

The 45 wrappers under `crc8_variants`, `crc16_variants` and `crc32_variants`. Each passes its table
and its `#define`s to the engine of its width, starts from `*last_crc_ptr` when that is not
`NULL_PTR`, and decides which parts of the output stage wait for the last chunk. There are four
such decisions, one definition each; a function of the source is one of them at its own values. -/

namespace IMUtility.Crc

variable {w : Nat}

/-- The `#define`s at the head of a variant's file. -/
structure Defines (w : Nat) where
  initialCrcValue : BitVec w
  finalXorValue : BitVec w
  reflectedOutput : Bool
  reflectedInput : Bool
  finalXor : Bool

/-- The local `crc_initial_value`. -/
def Defines.startFrom (d : Defines w) (last_crc_ptr : Ptr (BitVec w)) : BitVec w :=
  last_crc_ptr.getD d.initialCrcValue

/-- The signature of `Crc8Base`, `Crc16Base` and `Crc32Base`. -/
abbrev Engine (w : Nat) :=
  Table w → List Byte → BitVec w → BitVec w → Bool → Bool → Bool → BitVec w

/-- The signature of a variant with a `final_crc` parameter. -/
abbrev Variant (w : Nat) := List Byte → Bool → Ptr (BitVec w) → BitVec w

/-! ## The four shapes

A file with a `final_crc` parameter replaces one flag or both by a local that is `false` unless
the call is final; the other flag goes to the engine as it is defined. Files without the parameter
pass both.
-/

/-- No `final_crc` parameter: every call runs the whole output stage. -/
def plain (crcBase : Engine w) (crc_table : Table w) (d : Defines w)
    (crc_data : List Byte) (last_crc_ptr : Ptr (BitVec w)) : BitVec w :=
  crcBase crc_table crc_data (d.startFrom last_crc_ptr) d.finalXorValue
    d.reflectedOutput d.reflectedInput d.finalXor

/-- The output is reflected on the last chunk only. -/
def reflectWhenFinal (crcBase : Engine w) (crc_table : Table w) (d : Defines w)
    (crc_data : List Byte) (final_crc : Bool) (last_crc_ptr : Ptr (BitVec w)) : BitVec w :=
  let reflect_output := if final_crc then d.reflectedOutput else false
  crcBase crc_table crc_data (d.startFrom last_crc_ptr) d.finalXorValue
    reflect_output d.reflectedInput d.finalXor

/-- The final xor is applied on the last chunk only. -/
def xorWhenFinal (crcBase : Engine w) (crc_table : Table w) (d : Defines w)
    (crc_data : List Byte) (final_crc : Bool) (last_crc_ptr : Ptr (BitVec w)) : BitVec w :=
  let final_xor := if final_crc then d.finalXor else false
  crcBase crc_table crc_data (d.startFrom last_crc_ptr) d.finalXorValue
    d.reflectedOutput d.reflectedInput final_xor

/-- Both wait for the last chunk. -/
def reflectAndXorWhenFinal (crcBase : Engine w) (crc_table : Table w) (d : Defines w)
    (crc_data : List Byte) (final_crc : Bool) (last_crc_ptr : Ptr (BitVec w)) : BitVec w :=
  let reflect_output := if final_crc then d.reflectedOutput else false
  let final_xor := if final_crc then d.finalXor else false
  crcBase crc_table crc_data (d.startFrom last_crc_ptr) d.finalXorValue
    reflect_output d.reflectedInput final_xor

/-- A function without a `final_crc` parameter, called as if it had one. -/
def withoutFlag (f : List Byte → Ptr (BitVec w) → BitVec w) : Variant w :=
  fun crc_data _ last_crc_ptr => f crc_data last_crc_ptr

/-! ## CRC-8

Thirteen files; five functions have no `final_crc` parameter.
-/

/-- `Crc8`. -/
def crc8 : List Byte → Ptr (BitVec 8) → BitVec 8 :=
  plain crc8Base table8_07
    { initialCrcValue := 0x0#8, finalXorValue := 0x0#8,
      reflectedOutput := false, reflectedInput := false, finalXor := false }

/-- `Crc8_8h2f`. -/
def crc8_8h2f : List Byte → Bool → Ptr (BitVec 8) → BitVec 8 :=
  xorWhenFinal crc8Base table8_2F
    { initialCrcValue := 0xFF#8, finalXorValue := 0xFF#8,
      reflectedOutput := false, reflectedInput := false, finalXor := true }

/-- `Crc8_cdma2000`. -/
def crc8Cdma2000 : List Byte → Ptr (BitVec 8) → BitVec 8 :=
  plain crc8Base table8_9B
    { initialCrcValue := 0xFF#8, finalXorValue := 0x0#8,
      reflectedOutput := false, reflectedInput := false, finalXor := false }

/-- `Crc8_darc`. -/
def crc8Darc : List Byte → Bool → Ptr (BitVec 8) → BitVec 8 :=
  reflectWhenFinal crc8Base table8_39
    { initialCrcValue := 0x0#8, finalXorValue := 0x0#8,
      reflectedOutput := true, reflectedInput := true, finalXor := false }

/-- `Crc8_dvbS2`. -/
def crc8DvbS2 : List Byte → Ptr (BitVec 8) → BitVec 8 :=
  plain crc8Base table8_D5
    { initialCrcValue := 0x0#8, finalXorValue := 0x0#8,
      reflectedOutput := false, reflectedInput := false, finalXor := false }

/-- `Crc8_ebu`. -/
def crc8Ebu : List Byte → Bool → Ptr (BitVec 8) → BitVec 8 :=
  reflectWhenFinal crc8Base table8_1D
    { initialCrcValue := 0xFF#8, finalXorValue := 0x0#8,
      reflectedOutput := true, reflectedInput := true, finalXor := false }

/-- `Crc8_icode`. -/
def crc8Icode : List Byte → Ptr (BitVec 8) → BitVec 8 :=
  plain crc8Base table8_1D
    { initialCrcValue := 0xFD#8, finalXorValue := 0x0#8,
      reflectedOutput := false, reflectedInput := false, finalXor := false }

/-- `Crc8_itu`. -/
def crc8Itu : List Byte → Bool → Ptr (BitVec 8) → BitVec 8 :=
  xorWhenFinal crc8Base table8_07
    { initialCrcValue := 0x0#8, finalXorValue := 0x55#8,
      reflectedOutput := false, reflectedInput := false, finalXor := true }

/-- `Crc8_maxim`. -/
def crc8Maxim : List Byte → Bool → Ptr (BitVec 8) → BitVec 8 :=
  reflectWhenFinal crc8Base table8_31
    { initialCrcValue := 0x0#8, finalXorValue := 0x0#8,
      reflectedOutput := true, reflectedInput := true, finalXor := false }

/-- `Crc8_rohc`. -/
def crc8Rohc : List Byte → Bool → Ptr (BitVec 8) → BitVec 8 :=
  reflectWhenFinal crc8Base table8_07
    { initialCrcValue := 0xFF#8, finalXorValue := 0x0#8,
      reflectedOutput := true, reflectedInput := true, finalXor := false }

/-- `Crc8_saeJ1850`. -/
def crc8SaeJ1850 : List Byte → Bool → Ptr (BitVec 8) → BitVec 8 :=
  xorWhenFinal crc8Base table8_1D
    { initialCrcValue := 0xFF#8, finalXorValue := 0xFF#8,
      reflectedOutput := false, reflectedInput := false, finalXor := true }

/-- `Crc8_saeJ1850Zero`. -/
def crc8SaeJ1850Zero : List Byte → Ptr (BitVec 8) → BitVec 8 :=
  plain crc8Base table8_1D
    { initialCrcValue := 0x0#8, finalXorValue := 0x0#8,
      reflectedOutput := false, reflectedInput := false, finalXor := false }

/-- `Crc8_wcdma`. -/
def crc8Wcdma : List Byte → Bool → Ptr (BitVec 8) → BitVec 8 :=
  reflectWhenFinal crc8Base table8_9B
    { initialCrcValue := 0x0#8, finalXorValue := 0x0#8,
      reflectedOutput := true, reflectedInput := true, finalXor := false }

/-- The 13 public CRC-8 functions. -/
def variants8 : List (Variant 8) :=
  [withoutFlag crc8, crc8_8h2f, withoutFlag crc8Cdma2000, crc8Darc, withoutFlag crc8DvbS2,
   crc8Ebu, withoutFlag crc8Icode, crc8Itu, crc8Maxim, crc8Rohc, crc8SaeJ1850, withoutFlag
   crc8SaeJ1850Zero, crc8Wcdma]

/-! ## CRC-16

Twenty-three files, in their alphabetical order; nine functions have no `final_crc` parameter. The
arguments of each are its table and its five `#define`s.
-/

/-- `Crc16_a`. -/
def crc16A : List Byte → Bool → Ptr (BitVec 16) → BitVec 16 :=
  reflectWhenFinal crc16Base table16_1021
    { initialCrcValue := 0xC6C6#16, finalXorValue := 0x0#16,
      reflectedOutput := true, reflectedInput := true, finalXor := false }

/-- `Crc16_arc`. -/
def crc16Arc : List Byte → Bool → Ptr (BitVec 16) → BitVec 16 :=
  reflectWhenFinal crc16Base table16_8005
    { initialCrcValue := 0x0#16, finalXorValue := 0x0#16,
      reflectedOutput := true, reflectedInput := true, finalXor := false }

/-- `Crc16_augCcit`. -/
def crc16AugCcit : List Byte → Ptr (BitVec 16) → BitVec 16 :=
  plain crc16Base table16_1021
    { initialCrcValue := 0x1D0F#16, finalXorValue := 0x0#16,
      reflectedOutput := false, reflectedInput := false, finalXor := false }

/-- `Crc16_buypass`. -/
def crc16Buypass : List Byte → Ptr (BitVec 16) → BitVec 16 :=
  plain crc16Base table16_8005
    { initialCrcValue := 0x0#16, finalXorValue := 0x0#16,
      reflectedOutput := false, reflectedInput := false, finalXor := false }

/-- `Crc16_ccitFalse`. -/
def crc16CcitFalse : List Byte → Ptr (BitVec 16) → BitVec 16 :=
  plain crc16Base table16_1021
    { initialCrcValue := 0xFFFF#16, finalXorValue := 0x0#16,
      reflectedOutput := false, reflectedInput := false, finalXor := false }

/-- `Crc16_ccitZero`. -/
def crc16CcitZero : List Byte → Ptr (BitVec 16) → BitVec 16 :=
  plain crc16Base table16_1021
    { initialCrcValue := 0x0#16, finalXorValue := 0x0#16,
      reflectedOutput := false, reflectedInput := false, finalXor := false }

/-- `Crc16_cdma2000`. -/
def crc16Cdma2000 : List Byte → Ptr (BitVec 16) → BitVec 16 :=
  plain crc16Base table16_C867
    { initialCrcValue := 0xFFFF#16, finalXorValue := 0x0#16,
      reflectedOutput := false, reflectedInput := false, finalXor := false }

/-- `Crc16_dds110`. -/
def crc16Dds110 : List Byte → Ptr (BitVec 16) → BitVec 16 :=
  plain crc16Base table16_8005
    { initialCrcValue := 0x800D#16, finalXorValue := 0x0#16,
      reflectedOutput := false, reflectedInput := false, finalXor := false }

/-- `Crc16_dectR`. -/
def crc16DectR : List Byte → Bool → Ptr (BitVec 16) → BitVec 16 :=
  xorWhenFinal crc16Base table16_0589
    { initialCrcValue := 0x0#16, finalXorValue := 0x1#16,
      reflectedOutput := false, reflectedInput := false, finalXor := true }

/-- `Crc16_dectX`. -/
def crc16DectX : List Byte → Ptr (BitVec 16) → BitVec 16 :=
  plain crc16Base table16_0589
    { initialCrcValue := 0x0#16, finalXorValue := 0x0#16,
      reflectedOutput := false, reflectedInput := false, finalXor := false }

/-- `Crc16_dnp`. -/
def crc16Dnp : List Byte → Bool → Ptr (BitVec 16) → BitVec 16 :=
  reflectAndXorWhenFinal crc16Base table16_3D65
    { initialCrcValue := 0x0#16, finalXorValue := 0xFFFF#16,
      reflectedOutput := true, reflectedInput := true, finalXor := true }

/-- `Crc16_en13757`. -/
def crc16En13757 : List Byte → Bool → Ptr (BitVec 16) → BitVec 16 :=
  xorWhenFinal crc16Base table16_3D65
    { initialCrcValue := 0x0#16, finalXorValue := 0xFFFF#16,
      reflectedOutput := false, reflectedInput := false, finalXor := true }

/-- `Crc16_genibus`. -/
def crc16Genibus : List Byte → Bool → Ptr (BitVec 16) → BitVec 16 :=
  xorWhenFinal crc16Base table16_1021
    { initialCrcValue := 0xFFFF#16, finalXorValue := 0xFFFF#16,
      reflectedOutput := false, reflectedInput := false, finalXor := true }

/-- `Crc16_kermit`. -/
def crc16Kermit : List Byte → Bool → Ptr (BitVec 16) → BitVec 16 :=
  reflectWhenFinal crc16Base table16_1021
    { initialCrcValue := 0x0#16, finalXorValue := 0x0#16,
      reflectedOutput := true, reflectedInput := true, finalXor := false }

/-- `Crc16_maxim`. -/
def crc16Maxim : List Byte → Bool → Ptr (BitVec 16) → BitVec 16 :=
  reflectAndXorWhenFinal crc16Base table16_8005
    { initialCrcValue := 0x0#16, finalXorValue := 0xFFFF#16,
      reflectedOutput := true, reflectedInput := true, finalXor := true }

/-- `Crc16_mcrf4xx`. -/
def crc16Mcrf4xx : List Byte → Bool → Ptr (BitVec 16) → BitVec 16 :=
  reflectWhenFinal crc16Base table16_1021
    { initialCrcValue := 0xFFFF#16, finalXorValue := 0x0#16,
      reflectedOutput := true, reflectedInput := true, finalXor := false }

/-- `Crc16_modbus`. -/
def crc16Modbus : List Byte → Bool → Ptr (BitVec 16) → BitVec 16 :=
  reflectWhenFinal crc16Base table16_8005
    { initialCrcValue := 0xFFFF#16, finalXorValue := 0x0#16,
      reflectedOutput := true, reflectedInput := true, finalXor := false }

/-- `Crc16_riello`. -/
def crc16Riello : List Byte → Bool → Ptr (BitVec 16) → BitVec 16 :=
  reflectWhenFinal crc16Base table16_1021
    { initialCrcValue := 0xB2AA#16, finalXorValue := 0x0#16,
      reflectedOutput := true, reflectedInput := true, finalXor := false }

/-- `Crc16_t10Dif`. -/
def crc16T10Dif : List Byte → Ptr (BitVec 16) → BitVec 16 :=
  plain crc16Base table16_8BB7
    { initialCrcValue := 0x0#16, finalXorValue := 0x0#16,
      reflectedOutput := false, reflectedInput := false, finalXor := false }

/-- `Crc16_teledisk`. -/
def crc16Teledisk : List Byte → Ptr (BitVec 16) → BitVec 16 :=
  plain crc16Base table16_A097
    { initialCrcValue := 0x0#16, finalXorValue := 0x0#16,
      reflectedOutput := false, reflectedInput := false, finalXor := false }

/-- `Crc16_tms37157`. -/
def crc16Tms37157 : List Byte → Bool → Ptr (BitVec 16) → BitVec 16 :=
  reflectWhenFinal crc16Base table16_1021
    { initialCrcValue := 0x89EC#16, finalXorValue := 0x0#16,
      reflectedOutput := true, reflectedInput := true, finalXor := false }

/-- `Crc16_usb`. -/
def crc16Usb : List Byte → Bool → Ptr (BitVec 16) → BitVec 16 :=
  reflectAndXorWhenFinal crc16Base table16_8005
    { initialCrcValue := 0xFFFF#16, finalXorValue := 0xFFFF#16,
      reflectedOutput := true, reflectedInput := true, finalXor := true }

/-- `Crc16_x25`. -/
def crc16X25 : List Byte → Bool → Ptr (BitVec 16) → BitVec 16 :=
  reflectAndXorWhenFinal crc16Base table16_1021
    { initialCrcValue := 0xFFFF#16, finalXorValue := 0xFFFF#16,
      reflectedOutput := true, reflectedInput := true, finalXor := true }

/-- The 23 public CRC-16 functions. -/
def variants16 : List (Variant 16) :=
  [crc16A, crc16Arc, withoutFlag crc16AugCcit, withoutFlag crc16Buypass, withoutFlag
   crc16CcitFalse, withoutFlag crc16CcitZero, withoutFlag crc16Cdma2000, withoutFlag
   crc16Dds110, crc16DectR, withoutFlag crc16DectX, crc16Dnp, crc16En13757, crc16Genibus,
   crc16Kermit, crc16Maxim, crc16Mcrf4xx, crc16Modbus, crc16Riello, withoutFlag crc16T10Dif,
   withoutFlag crc16Teledisk, crc16Tms37157, crc16Usb, crc16X25]

/-! ## CRC-32

Nine files; three functions have no `final_crc` parameter. `Crc32_q` carries the table of
`0x814141AB`, whatever its comment says.
-/

/-- `Crc32`. -/
def crc32 : List Byte → Bool → Ptr (BitVec 32) → BitVec 32 :=
  reflectAndXorWhenFinal crc32Base table32_04C11DB7
    { initialCrcValue := 0xFFFFFFFF#32, finalXorValue := 0xFFFFFFFF#32,
      reflectedOutput := true, reflectedInput := true, finalXor := true }

/-- `Crc32_bzip2`. -/
def crc32Bzip2 : List Byte → Bool → Ptr (BitVec 32) → BitVec 32 :=
  xorWhenFinal crc32Base table32_04C11DB7
    { initialCrcValue := 0xFFFFFFFF#32, finalXorValue := 0xFFFFFFFF#32,
      reflectedOutput := false, reflectedInput := false, finalXor := true }

/-- `Crc32_c`. -/
def crc32C : List Byte → Bool → Ptr (BitVec 32) → BitVec 32 :=
  reflectAndXorWhenFinal crc32Base table32_1EDC6F41
    { initialCrcValue := 0xFFFFFFFF#32, finalXorValue := 0xFFFFFFFF#32,
      reflectedOutput := true, reflectedInput := true, finalXor := true }

/-- `Crc32_d`. -/
def crc32D : List Byte → Bool → Ptr (BitVec 32) → BitVec 32 :=
  reflectAndXorWhenFinal crc32Base table32_A833982B
    { initialCrcValue := 0xFFFFFFFF#32, finalXorValue := 0xFFFFFFFF#32,
      reflectedOutput := true, reflectedInput := true, finalXor := true }

/-- `Crc32_jamcrc`. -/
def crc32Jamcrc : List Byte → Bool → Ptr (BitVec 32) → BitVec 32 :=
  reflectWhenFinal crc32Base table32_04C11DB7
    { initialCrcValue := 0xFFFFFFFF#32, finalXorValue := 0x0#32,
      reflectedOutput := true, reflectedInput := true, finalXor := false }

/-- `Crc32_mpeg2`. -/
def crc32Mpeg2 : List Byte → Ptr (BitVec 32) → BitVec 32 :=
  plain crc32Base table32_04C11DB7
    { initialCrcValue := 0xFFFFFFFF#32, finalXorValue := 0x0#32,
      reflectedOutput := false, reflectedInput := false, finalXor := false }

/-- `Crc32_posix`. -/
def crc32Posix : List Byte → Bool → Ptr (BitVec 32) → BitVec 32 :=
  xorWhenFinal crc32Base table32_04C11DB7
    { initialCrcValue := 0x0#32, finalXorValue := 0xFFFFFFFF#32,
      reflectedOutput := false, reflectedInput := false, finalXor := true }

/-- `Crc32_q`. -/
def crc32Q : List Byte → Ptr (BitVec 32) → BitVec 32 :=
  plain crc32Base table32_814141AB
    { initialCrcValue := 0x0#32, finalXorValue := 0x0#32,
      reflectedOutput := false, reflectedInput := false, finalXor := false }

/-- `Crc32_xfer`. -/
def crc32Xfer : List Byte → Ptr (BitVec 32) → BitVec 32 :=
  plain crc32Base table32_000000AF
    { initialCrcValue := 0x0#32, finalXorValue := 0x0#32,
      reflectedOutput := false, reflectedInput := false, finalXor := false }

/-- The 9 public CRC-32 functions. -/
def variants32 : List (Variant 32) :=
  [crc32, crc32Bzip2, crc32C, crc32D, crc32Jamcrc, withoutFlag crc32Mpeg2, crc32Posix,
   withoutFlag crc32Q, withoutFlag crc32Xfer]

end IMUtility.Crc
