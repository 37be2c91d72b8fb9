import IMUtility.Lib.Memory
import IMUtility.Typedefs

/-! # `base64.c`

Both functions read one buffer and write another. A pointer that walks along a buffer is its
offset. `size_t` arithmetic goes through `Platform.sizeT` where it can wrap around; the offsets
inside the loops stay below the lengths that bound them. -/

namespace IMUtility
namespace Base64

open Memory (Prog load store)

/-- The two buffers of a call. -/
inductive Buffer where
  | input
  | output
  deriving DecidableEq

/-- `base64_table`, in ASCII. -/
def base64Table : List Byte :=
  [0x41, 0x42, 0x43, 0x44, 0x45, 0x46, 0x47, 0x48, 0x49, 0x4A, 0x4B, 0x4C, 0x4D, 0x4E, 0x4F, 0x50,
   0x51, 0x52, 0x53, 0x54, 0x55, 0x56, 0x57, 0x58, 0x59, 0x5A, 0x61, 0x62, 0x63, 0x64, 0x65, 0x66,
   0x67, 0x68, 0x69, 0x6A, 0x6B, 0x6C, 0x6D, 0x6E, 0x6F, 0x70, 0x71, 0x72, 0x73, 0x74, 0x75, 0x76,
   0x77, 0x78, 0x79, 0x7A, 0x30, 0x31, 0x32, 0x33, 0x34, 0x35, 0x36, 0x37, 0x38, 0x39, 0x2B, 0x2F,
   0x00]

/-- `base64_index`. -/
def base64Index : List (BitVec 32) :=
  [0, 0, 0, 0, 0, 0, 0, 0, 0, 0, 0, 0, 0, 0, 0, 0, 0, 0, 0, 0,
   0, 0, 0, 0, 0, 0, 0, 0, 0, 0, 0, 0, 0, 0, 0, 0, 0, 0, 0, 0,
   0, 0, 0, 62, 63, 62, 62, 63, 52, 53, 54, 55, 56, 57, 58, 59, 60, 61, 0, 0,
   0, 0, 0, 0, 0, 0, 1, 2, 3, 4, 5, 6, 7, 8, 9, 10, 11, 12, 13, 14,
   15, 16, 17, 18, 19, 20, 21, 22, 23, 24, 25, 0, 0, 0, 0, 63, 0, 26, 27, 28,
   29, 30, 31, 32, 33, 34, 35, 36, 37, 38, 39, 40, 41, 42, 43, 44, 45, 46, 47, 48,
   49, 50, 51, 0, 0, 0, 0, 0, 0, 0, 0, 0, 0, 0, 0, 0, 0, 0, 0, 0,
   0, 0, 0, 0, 0, 0, 0, 0, 0, 0, 0, 0, 0, 0, 0, 0, 0, 0, 0, 0,
   0, 0, 0, 0, 0, 0, 0, 0, 0, 0, 0, 0, 0, 0, 0, 0, 0, 0, 0, 0,
   0, 0, 0, 0, 0, 0, 0, 0, 0, 0, 0, 0, 0, 0, 0, 0, 0, 0, 0, 0,
   0, 0, 0, 0, 0, 0, 0, 0, 0, 0, 0, 0, 0, 0, 0, 0, 0, 0, 0, 0,
   0, 0, 0, 0, 0, 0, 0, 0, 0, 0, 0, 0, 0, 0, 0, 0, 0, 0, 0, 0,
   0, 0, 0, 0, 0, 0, 0, 0, 0, 0, 0, 0, 0, 0, 0, 0]

/-- `'='`. -/
def padding : Byte := 0x3D

/-- `base64_table[i]`. -/
def letter (i : BitVec 32) : Byte := base64Table.getD i.toNat 0

/-- `base64_index[c]`. -/
def index (c : Byte) : BitVec 32 := base64Index.getD c.toNat 0

/-- The integer promotion of a byte. -/
def promote (x : Byte) : BitVec 32 := x.setWidth 32

/-- The loop of `Base64_encode`: `success`, `in_position` and `pos` when it ends. -/
def encodeLoop (p : Platform) (data_length max_result_length : Nat)
    (current_length in_position pos : Nat) : Prog Buffer Byte (Int × Nat × Nat × Nat) :=
  -- `while (end - in >= 3)`: `current_length` counts the characters promised so far, and the loop
  -- is left, not the call, when a group does not fit
  if 3 ≤ data_length - in_position then
    let current_length := p.sizeT (current_length + 4)
    if current_length > max_result_length then
      pure (1, current_length, in_position, pos)
    else do
      let in0 ← load .input in_position
      store .output pos (letter (promote in0 >>> 2))
      let in0 ← load .input in_position
      let in1 ← load .input (in_position + 1)
      store .output (pos + 1) (letter ((promote in0 &&& 0x03#32) <<< 4 ||| promote in1 >>> 4))
      let in1 ← load .input (in_position + 1)
      let in2 ← load .input (in_position + 2)
      store .output (pos + 2) (letter ((promote in1 &&& 0x0F#32) <<< 2 ||| promote in2 >>> 6))
      let in2 ← load .input (in_position + 2)
      store .output (pos + 3) (letter (promote in2 &&& 0x3F#32))
      encodeLoop p data_length max_result_length current_length (in_position + 3) (pos + 4)
  else pure (0, current_length, in_position, pos)
termination_by data_length - in_position

/-- The one or two bytes the loop leaves: where the text ends. -/
def encodeTail (data_length in_position pos : Nat) : Prog Buffer Byte Nat := do
  let in0 ← load .input in_position
  store .output pos (letter (promote in0 >>> 2))
  -- one byte left gives two characters and two pads, two bytes give three and one
  if data_length - in_position = 1 then
    let in0 ← load .input in_position
    store .output (pos + 1) (letter ((promote in0 &&& 0x03#32) <<< 4))
    store .output (pos + 2) padding
  else
    let in0 ← load .input in_position
    let in1 ← load .input (in_position + 1)
    store .output (pos + 1) (letter ((promote in0 &&& 0x03#32) <<< 4 ||| promote in1 >>> 4))
    let in1 ← load .input (in_position + 1)
    store .output (pos + 2) (letter ((promote in1 &&& 0x0F#32) <<< 2))
  store .output (pos + 3) padding
  pure (pos + 4)

/-- `Base64_encode`. -/
def encode (p : Platform) (data_length max_result_length : Nat) : Prog Buffer Byte Int := do
  let len := p.sizeT (4 * (p.sizeT (data_length + 2) / 3 : Nat))
  -- the overflow check of the source: `len` wraps around before it is compared
  if len < data_length then pure 1
  else do
    let (success, current_length, in_position, pos) ←
      encodeLoop p data_length max_result_length 0 0 0
    if success = 0 ∧ data_length - in_position ≠ 0 then
      let current_length := p.sizeT (current_length + 4)
      if current_length > max_result_length then
        -- the NUL is stored on this path as well, wherever `pos` stands
        store .output pos 0
        pure 1
      else
        let pos ← encodeTail data_length in_position pos
        store .output pos 0
        pure 0
    else
      store .output pos 0
      pure success

/-- The loop of `Base64_decode`. -/
def decodeLoop (len i j : Nat) : Prog Buffer Byte Unit :=
  if i < len then do
    let in0 ← load .input i
    let in1 ← load .input (i + 1)
    let in2 ← load .input (i + 2)
    let in3 ← load .input (i + 3)
    let n := index in0 <<< 18 ||| index in1 <<< 12 ||| index in2 <<< 6 ||| index in3
    store .output j ((n >>> 16).setWidth 8)
    store .output (j + 1) ((n >>> 8 &&& 0xFF#32).setWidth 8)
    store .output (j + 2) ((n &&& 0xFF#32).setWidth 8)
    decodeLoop len (i + 4) (j + 3)
  else pure ()
termination_by len - i

/-- `pad_bool`. -/
def padBool (in_len : Nat) : Prog Buffer Byte Bool :=
  if in_len > 0 then
    if in_len % 4 ≠ 0 then pure true
    else do
      let last ← load .input (in_len - 1)
      pure (last == padding)
  else pure false

/-- The last block of padded input. -/
def decodeTail (in_len max_out_len len out_len : Nat) : Prog Buffer Byte Int := do
  let in0 ← load .input len
  let in1 ← load .input (len + 1)
  let n := index in0 <<< 18 ||| index in1 <<< 12
  store .output (out_len - 1) ((n >>> 16).setWidth 8)
  -- the third character of the last block is optional, the second is not asked for
  if in_len > len + 2 then
    let in2 ← load .input (len + 2)
    if in2 ≠ padding then
      if out_len + 1 > max_out_len then pure 1
      else do
        let in2 ← load .input (len + 2)
        let n := n ||| index in2 <<< 6
        store .output out_len ((n >>> 8 &&& 0xFF#32).setWidth 8)
        pure 0
    else pure 0
  else pure 0

/-- `Base64_decode`. -/
def decode (p : Platform) (in_len max_out_len : Nat) : Prog Buffer Byte Int := do
  let pad_bool ← padBool in_len
  -- the last block counts as padded when it is short or ends in a pad; it is then left to the
  -- tail
  let pad_uint : Nat := if pad_bool then 1 else 0
  let len := p.sizeT (p.sizeT ((p.sizeT (in_len + 3) / 4 : Nat) - pad_uint) * 4)
  let out_len := p.sizeT ((len / 4) * 3 + pad_uint)
  let success : Int := if out_len > max_out_len then 1 else 0
  let success : Int := if len = 0 then 1 else success
  if success = 0 then
    decodeLoop len 0 0
    if pad_bool then decodeTail in_len max_out_len len out_len else pure 0
  else pure success

end Base64
end IMUtility
