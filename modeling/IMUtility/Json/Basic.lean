import IMUtility.Lib.Memory
import IMUtility.Typedefs

/-! # `json.c`: finding a value

`Json_findByKey` scans the text for the key with a `uint32_t` index; the model is for texts of
fewer than `2 ^ 32` characters. Inside its loops the index stays below the length it is compared
with; it is reduced modulo `2 ^ 32` where it is moved between them, since there it can pass the end
of a text of `2 ^ 32 - 1` characters. -/

namespace IMUtility
namespace Json

open Memory (Prog load store)

/-- The two buffers of a call that are not the key. -/
inductive Buffer where
  | buffer
  | value
  deriving DecidableEq

/-- A C string: the characters in front of its NUL. -/
structure CString where
  chars : List Byte
  no_nul : (0 : Byte) ∉ chars

/-- `strlen`. -/
def CString.strlen (s : CString) : Nat := s.chars.length

/-- `'"'`. -/
def quote : Byte := 0x22

/-- A conversion to `uint32_t`. -/
def uint32 (x : Nat) : Nat := x % 2 ^ 32

/-- `0 == strncmp(&buffer[index], key, key_size)` for the characters of `key` that are left: the
first difference ends it. -/
def strncmpEqual (index : Nat) : List Byte → Prog Buffer Byte Bool
  | [] => pure true
  | k :: ks => do
    let c ← load .buffer index
    if c = k then strncmpEqual (index + 1) ks else pure false

/-- The loop over the places of the key: `success`, and `index` when it ends. -/
def searchLoop (key : CString) (max_search_size index : Nat) : Prog Buffer Byte (Bool × Nat) :=
  if index < max_search_size then do
    let equal ← strncmpEqual index key.chars
    -- the loop ends at the first occurrence, whether a quote follows it or not
    if equal then
      let c ← load .buffer (index + key.strlen)
      pure (c == quote, index)
    else searchLoop key max_search_size (index + 1)
  else pure (false, index)
termination_by max_search_size - index

/-- The loop to the next quote: `index` when it ends. -/
def skipLoop (buffer_size index : Nat) : Prog Buffer Byte Nat :=
  if index < buffer_size then do
    let c ← load .buffer index
    -- `index` stays on the quote; the caller moves behind it
    if c = quote then pure index else skipLoop buffer_size (index + 1)
  else pure index
termination_by buffer_size - index

/-- The loop that copies the value. -/
def valueLoop (buffer_size max_value_size index value_size : Nat) : Prog Buffer Byte Bool :=
  if index < buffer_size ∧ value_size < max_value_size then do
    let c ← load .buffer index
    store .value value_size c
    let c ← load .buffer index
    -- the closing quote has been copied already and is overwritten by the NUL
    if c = quote then
      store .value value_size 0
      pure true
    else valueLoop buffer_size max_value_size (index + 1) (value_size + 1)
  else pure false
termination_by buffer_size - index

/-- `Json_findByKey`. -/
def findByKey (buffer_size : Nat) (key : CString) (max_value_size : Nat) :
    Prog Buffer Byte Bool := do
  let key_size := key.strlen
  -- the `uint32_t` difference: 2^32 more characters than the key has make it 0
  let max_search_size := if buffer_size > key_size then uint32 (buffer_size - key_size) else 0
  let (success, index) ← searchLoop key max_search_size 0
  if success then
    -- behind the key and its quote; `key_size + 1U` is converted before it is added
    let index := uint32 (index + uint32 (key_size + 1))
    let index ← skipLoop buffer_size index
    let index := uint32 (index + 1)
    valueLoop buffer_size max_value_size index 0
  else pure false

end Json
end IMUtility
