import IMUtility.Json.Member
import IMUtility.Lib.Refinement
import IMUtility.Lib.Slots

/-! # `json.c`: building an object

`Json_startString`, `Json_addData` and `Json_endString` extend a C string in place. The buffer is
an object of its own size, which may exceed the `buffer_size` of a call, with the byte in front of
it: `strcmp(&buffer[index - 1U], "\"")` looks there when the string is empty. A library call that
would leave the object is `none`. The sums that decide about the capacity are `size_t` sums; the
offsets of the `strcpy` calls are inside the object and do not wrap around. -/

namespace IMUtility
namespace Json

/-- The object that holds the text, and the log of accesses to it, the latest first. -/
structure Storage where
  before : Byte
  bytes : List Byte
  loads : List Int
  stores : List Nat
  deriving DecidableEq

/-- `','`. -/
def comma : Byte := 0x2C

/-- `'{'`. -/
def openBrace : Byte := 0x7B

/-- `'}'`. -/
def closeBrace : Byte := 0x7D

/-! ## The string functions

Only what the three builder functions need of `string.h`. `strlen` reads up to the NUL and fails
if there is none, `strcmp` stops at the first difference, and `strcpy` writes its NUL as well;
each adds its accesses to the log.
-/

/-- `buffer[i]`, also for the byte in front. -/
def Storage.load (buffer : Storage) (i : Int) : Option (Byte × Storage) := do
  let c ← if i = -1 then some buffer.before else if 0 ≤ i then buffer.bytes[i.toNat]? else none
  some (c, { buffer with loads := i :: buffer.loads })

/-- `strlen(buffer)`. -/
def Storage.strlen (buffer : Storage) : Option (Nat × Storage) := do
  let n ← buffer.bytes.idxOf? 0
  some (n, { buffer with loads := (List.range (n + 1)).map Int.ofNat ++ buffer.loads })

/-- `0 == strcmp(&buffer[i], "\"")`: the first difference ends it. -/
def Storage.isQuote (buffer : Storage) (i : Int) : Option (Bool × Storage) := do
  let (c, buffer) ← buffer.load i
  if c = quote then do
    let (c, buffer) ← buffer.load (i + 1)
    some (c == 0, buffer)
  else some (false, buffer)

/-- `strcpy(&buffer[i], s)`, with the NUL of `s`. -/
def Storage.strcpy (buffer : Storage) (i : Nat) (s : List Byte) : Option Storage := do
  let bytes ← Slots.write buffer.bytes i (s ++ [0])
  some { buffer with bytes := bytes, stores := List.range' i (s.length + 1) ++ buffer.stores }

/-! ## The functions of the interface

The refusals come from `buffer_size`, which the caller states, and `none` from the object, which
the caller owns. A call can be accepted by the one and fail at the other; the results about these
functions relate the two sizes.
-/

/-- `Json_startString`. -/
def startString (buffer : Storage) (buffer_size : Nat) : Option (Bool × Storage) :=
  if buffer_size ≥ 2 then do
    let buffer ← buffer.strcpy 0 [openBrace]
    some (true, buffer)
  else some (false, buffer)

/-- The capacity check of `Json_addData`: `(total_size + index) <= buffer_size`. -/
def hasRoom (p : Platform) (buffer_size index : Nat) (key value : CString) : Bool :=
  let total_size := p.sizeT (5 + key.strlen + value.strlen + 1)
  p.sizeT (total_size + index) ≤ buffer_size

/-- The five `strcpy` calls behind the check. -/
def copyMember (buffer : Storage) (index : Nat) (key value : CString) : Option Storage := do
  -- each copy overwrites the NUL of the one before
  let buffer ← buffer.strcpy index [quote]
  let index := index + 1
  let buffer ← buffer.strcpy index key.chars
  let index := index + key.strlen
  let buffer ← buffer.strcpy index [quote, colon, quote]
  let index := index + 3
  let buffer ← buffer.strcpy index value.chars
  let index := index + value.strlen
  buffer.strcpy index [quote]

/-- `Json_addData`. The comma is written before the capacity is checked. -/
def addData (p : Platform) (buffer : Storage) (buffer_size : Nat) (key value : CString) :
    Option (Bool × Storage) := do
  let (index, buffer) ← buffer.strlen
  -- at `index - 1U`, which is the byte in front when the text is empty
  let (follows, buffer) ← buffer.isQuote ((index : Int) - 1)
  let (index, buffer) ←
    if follows then do
      let buffer ← buffer.strcpy index [comma]
      some (index + 1, buffer)
    else some (index, buffer)
  if hasRoom p buffer_size index key value then do
    let buffer ← copyMember buffer index key value
    some (true, buffer)
  else some (false, buffer)

/-- `Json_endString`. -/
def endString (p : Platform) (buffer : Storage) (buffer_size : Nat) : Option (Bool × Storage) := do
  let (index, buffer) ← buffer.strlen
  if buffer_size ≥ p.sizeT (2 + index) then do
    let buffer ← buffer.strcpy index [closeBrace]
    some (true, buffer)
  else some (false, buffer)

/-- The calls of a client. -/
inductive Call where
  | startString (buffer_size : Nat)
  | addData (buffer_size : Nat) (key value : CString)
  | endString (buffer_size : Nat)

/-- One call. -/
def step (p : Platform) (buffer : Storage) : Call → Option (Bool × Storage)
  | .startString buffer_size => startString buffer buffer_size
  | .addData buffer_size key value => addData p buffer buffer_size key value
  | .endString buffer_size => endString p buffer buffer_size

end Json
end IMUtility
