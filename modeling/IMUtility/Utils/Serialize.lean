import IMUtility.Typedefs
import IMUtility.Lib.ByteOrder
import IMUtility.Lib.Patch

/-! # `utils.c`: serialisation of integers

The fourteen `Utils_Serialize*` and `Utils_Deserialize*` functions for integers, shift by shift and
index by index. The pointer `buf` is an offset into a buffer. Below each family stands what it does
in one line: a writer patches the bytes of the value in, in its byte order, and a reader returns
the word that the window spells. -/

namespace IMUtility
namespace Utils

open ByteOrder Patch

/-! ## The writers

The little-endian functions store the last byte first, as the source does; on a buffer that is
long enough the order makes no difference, and the patches below go from the first byte on.
-/

/-- `Utils_Serialize8`. -/
def serialize8 (buffer : List Byte) (buf : Nat) (value : BitVec 8) : List Byte :=
  buffer.set buf (value &&& 0xFF#8)

/-- `Utils_Serialize16BE`. -/
def serialize16BE (buffer : List Byte) (buf : Nat) (value : BitVec 16) : List Byte :=
  let buffer := buffer.set buf ((value >>> 8).setWidth 8 &&& 0xFF#8)
  buffer.set (buf + 1) (value.setWidth 8 &&& 0xFF#8)

/-- `Utils_Serialize24BE`. -/
def serialize24BE (buffer : List Byte) (buf : Nat) (value : BitVec 32) : List Byte :=
  let buffer := buffer.set buf ((value >>> 16).setWidth 8 &&& 0xFF#8)
  let buffer := buffer.set (buf + 1) ((value >>> 8).setWidth 8 &&& 0xFF#8)
  buffer.set (buf + 2) (value.setWidth 8 &&& 0xFF#8)

/-- `Utils_Serialize32BE`. -/
def serialize32BE (buffer : List Byte) (buf : Nat) (value : BitVec 32) : List Byte :=
  let buffer := buffer.set buf ((value >>> 24).setWidth 8 &&& 0xFF#8)
  let buffer := buffer.set (buf + 1) ((value >>> 16).setWidth 8 &&& 0xFF#8)
  let buffer := buffer.set (buf + 2) ((value >>> 8).setWidth 8 &&& 0xFF#8)
  buffer.set (buf + 3) (value.setWidth 8 &&& 0xFF#8)

/-- `Utils_Serialize16LE`. -/
def serialize16LE (buffer : List Byte) (buf : Nat) (value : BitVec 16) : List Byte :=
  let buffer := buffer.set (buf + 1) ((value >>> 8).setWidth 8 &&& 0xFF#8)
  buffer.set buf (value.setWidth 8 &&& 0xFF#8)

/-- `Utils_Serialize24LE`. -/
def serialize24LE (buffer : List Byte) (buf : Nat) (value : BitVec 32) : List Byte :=
  let buffer := buffer.set (buf + 2) ((value >>> 16).setWidth 8 &&& 0xFF#8)
  let buffer := buffer.set (buf + 1) ((value >>> 8).setWidth 8 &&& 0xFF#8)
  buffer.set buf (value.setWidth 8 &&& 0xFF#8)

/-- `Utils_Serialize32LE`. -/
def serialize32LE (buffer : List Byte) (buf : Nat) (value : BitVec 32) : List Byte :=
  let buffer := buffer.set (buf + 3) ((value >>> 24).setWidth 8 &&& 0xFF#8)
  let buffer := buffer.set (buf + 2) ((value >>> 16).setWidth 8 &&& 0xFF#8)
  let buffer := buffer.set (buf + 1) ((value >>> 8).setWidth 8 &&& 0xFF#8)
  buffer.set buf (value.setWidth 8 &&& 0xFF#8)

/-! ## The readers

A byte is widened and shifted in `int` for the 16-bit readers, and truncated on assignment. -/

/-- `Utils_Deserialize8`. -/
def deserialize8 (buffer : List Byte) (buf : Nat) : BitVec 8 := buffer.getD buf 0

/-- `Utils_Deserialize16BE`. -/
def deserialize16BE (buffer : List Byte) (buf : Nat) : BitVec 16 :=
  let value := (buffer.getD buf 0).setWidth 16 <<< 8
  value ||| (buffer.getD (buf + 1) 0).setWidth 16

/-- `Utils_Deserialize24BE`. -/
def deserialize24BE (buffer : List Byte) (buf : Nat) : BitVec 32 :=
  let value := (buffer.getD buf 0).setWidth 32 <<< 16
  let value := value ||| (buffer.getD (buf + 1) 0).setWidth 32 <<< 8
  value ||| (buffer.getD (buf + 2) 0).setWidth 32

/-- `Utils_Deserialize32BE`. -/
def deserialize32BE (buffer : List Byte) (buf : Nat) : BitVec 32 :=
  let value := (buffer.getD buf 0).setWidth 32 <<< 24
  let value := value ||| (buffer.getD (buf + 1) 0).setWidth 32 <<< 16
  let value := value ||| (buffer.getD (buf + 2) 0).setWidth 32 <<< 8
  value ||| (buffer.getD (buf + 3) 0).setWidth 32

/-- `Utils_Deserialize16LE`. -/
def deserialize16LE (buffer : List Byte) (buf : Nat) : BitVec 16 :=
  let value := (buffer.getD (buf + 1) 0).setWidth 16 <<< 8
  value ||| (buffer.getD buf 0).setWidth 16

/-- `Utils_Deserialize24LE`. -/
def deserialize24LE (buffer : List Byte) (buf : Nat) : BitVec 32 :=
  let value := (buffer.getD (buf + 2) 0).setWidth 32 <<< 16
  let value := value ||| (buffer.getD (buf + 1) 0).setWidth 32 <<< 8
  value ||| (buffer.getD buf 0).setWidth 32

/-- `Utils_Deserialize32LE`. -/
def deserialize32LE (buffer : List Byte) (buf : Nat) : BitVec 32 :=
  let value := (buffer.getD (buf + 3) 0).setWidth 32 <<< 24
  let value := value ||| (buffer.getD (buf + 2) 0).setWidth 32 <<< 16
  let value := value ||| (buffer.getD (buf + 1) 0).setWidth 32 <<< 8
  value ||| (buffer.getD buf 0).setWidth 32

variable {buffer : List Byte} {buf : Nat}

/-! ## What the writers store

Each writer is a chain of `set`, and a patch unfolds to the same chain. Only the masks and, for
the little-endian ones, the order of the stores stand in between.
-/

/-- The mask of the writers is the whole byte. -/
theorem and_mask (b : Byte) : b &&& 0xFF#8 = b := BitVec.and_allOnes

theorem serialize8_eq (value : BitVec 8) :
    serialize8 buffer buf value = patch buffer buf (bytesLE 1 value) := by
  unfold serialize8
  rw [and_mask]
  rfl

theorem serialize16BE_eq (value : BitVec 16) :
    serialize16BE buffer buf value = patch buffer buf (bytesBE 2 value) := by
  unfold serialize16BE
  simp only [and_mask]
  rfl

theorem serialize24BE_eq (value : BitVec 32) :
    serialize24BE buffer buf value = patch buffer buf (bytesBE 3 value) := by
  unfold serialize24BE
  simp only [and_mask]
  rfl

theorem serialize32BE_eq (value : BitVec 32) :
    serialize32BE buffer buf value = patch buffer buf (bytesBE 4 value) := by
  unfold serialize32BE
  simp only [and_mask]
  rfl

/-- The little-endian writers store the last byte first. -/
theorem patch_bytesLE_succ {w : Nat} (n : Nat) (value : BitVec w) :
    patch buffer buf (bytesLE (n + 1) value)
      = patch (buffer.set (buf + n) ((value >>> (8 * n)).setWidth 8)) buf (bytesLE n value) := by
  rw [bytesLE_concat, patch_concat, length_bytesLE]

theorem serialize16LE_eq (value : BitVec 16) :
    serialize16LE buffer buf value = patch buffer buf (bytesLE 2 value) := by
  unfold serialize16LE
  simp only [and_mask]
  rw [patch_bytesLE_succ]
  rfl

theorem serialize24LE_eq (value : BitVec 32) :
    serialize24LE buffer buf value = patch buffer buf (bytesLE 3 value) := by
  unfold serialize24LE
  simp only [and_mask]
  rw [patch_bytesLE_succ, patch_bytesLE_succ]
  rfl

theorem serialize32LE_eq (value : BitVec 32) :
    serialize32LE buffer buf value = patch buffer buf (bytesLE 4 value) := by
  unfold serialize32LE
  simp only [and_mask]
  rw [patch_bytesLE_succ, patch_bytesLE_succ, patch_bytesLE_succ]
  rfl

/-! ## What the readers return

The window is a list of as many bytes as the reader loads, and the word that it spells is the same
disjunction of shifted bytes, bracketed differently.
-/

theorem deserialize8_eq (h : buf + 1 ≤ buffer.length) :
    deserialize8 buffer buf = ofBytesLE (window buffer buf 1) := by
  rw [window_eq_map h 0]
  simp [deserialize8, ofBytesLE]

theorem deserialize16BE_eq (h : buf + 2 ≤ buffer.length) :
    deserialize16BE buffer buf = ofBytesBE (window buffer buf 2) := by
  rw [window_eq_map h 0]
  simp [deserialize16BE, List.range_succ, ofBytesBE, ofBytesLE]

theorem deserialize24BE_eq (h : buf + 3 ≤ buffer.length) :
    deserialize24BE buffer buf = ofBytesBE (window buffer buf 3) := by
  rw [window_eq_map h 0]
  simp [deserialize24BE, List.range_succ, ofBytesBE, ofBytesLE, BitVec.shiftLeft_or_distrib,
    ← BitVec.shiftLeft_add]

theorem deserialize32BE_eq (h : buf + 4 ≤ buffer.length) :
    deserialize32BE buffer buf = ofBytesBE (window buffer buf 4) := by
  rw [window_eq_map h 0]
  simp [deserialize32BE, List.range_succ, ofBytesBE, ofBytesLE, BitVec.shiftLeft_or_distrib,
    ← BitVec.shiftLeft_add]

theorem deserialize16LE_eq (h : buf + 2 ≤ buffer.length) :
    deserialize16LE buffer buf = ofBytesLE (window buffer buf 2) := by
  rw [window_eq_map h 0]
  simp [deserialize16LE, List.range_succ, ofBytesLE]

theorem deserialize24LE_eq (h : buf + 3 ≤ buffer.length) :
    deserialize24LE buffer buf = ofBytesLE (window buffer buf 3) := by
  rw [window_eq_map h 0]
  simp [deserialize24LE, List.range_succ, ofBytesLE, BitVec.shiftLeft_or_distrib,
    ← BitVec.shiftLeft_add]

theorem deserialize32LE_eq (h : buf + 4 ≤ buffer.length) :
    deserialize32LE buffer buf = ofBytesLE (window buffer buf 4) := by
  rw [window_eq_map h 0]
  simp [deserialize32LE, List.range_succ, ofBytesLE, BitVec.shiftLeft_or_distrib,
    ← BitVec.shiftLeft_add]

end Utils
end IMUtility
