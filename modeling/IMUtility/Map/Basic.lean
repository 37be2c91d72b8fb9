import IMUtility.Typedefs
import IMUtility.Lib.Slots

/-! # `map.c`: a map in two byte arrays

`Map_t` keeps its keys in one array and its values in another, entry `i` of both belonging
together, and looks a key up by comparing bytes from entry 0 on. Every size is an `int32_t`: a
product that overflows, an offset or a length below 0, and an access outside an array are all
`none`. -/

namespace IMUtility

/-- `Map_t`. -/
structure Map where
  keys : List Byte
  values : List Byte
  keySize : Int
  valueSize : Int
  maxMapSize : Int
  currentSize : Int
  deriving DecidableEq

namespace Map

/-- `INDEX_NOT_FOUND`. -/
def indexNotFound : Int := -1

/-! ## Offsets and lengths

Both are `int32_t` in the source, and both are turned into a `size_t` where they are used. An
offset below 0 leaves its array, and a negative length turns into one that is greater than every
array: there the model has no value.
-/

/-- The subscript `index * size` of an array. -/
def offset (index size : Int) : Option Nat := do
  let off ← int32 (index * size)
  if 0 ≤ off then some off.toNat else none

/-- The length `(size_t)size`. That of a negative size is greater than any array. -/
def sizeT (size : Int) : Option Nat := if 0 ≤ size then some size.toNat else none

/-- `memcmp(&buf[index * size], x, (size_t)size) == 0`. -/
def equalAt (buf : List Byte) (index size : Int) (x : List Byte) : Option Bool := do
  let off ← offset index size
  let n ← sizeT size
  let a ← Slots.read buf off n
  let b ← Slots.read x 0 n
  some (a == b)

/-- `memcpy(&buf[index * size], x, (size_t)size)`. -/
def copyTo (buf : List Byte) (index size : Int) (x : List Byte) : Option (List Byte) := do
  let off ← offset index size
  let n ← sizeT size
  Slots.copy buf off x 0 n

/-- `memcpy(x, &buf[index * size], (size_t)size)`. -/
def copyFrom (x buf : List Byte) (index size : Int) : Option (List Byte) := do
  let off ← offset index size
  let n ← sizeT size
  Slots.copy x 0 buf off n

/-! ## The operations

The loop of `GetIndex` counts up to `current_size`, so its passes left are the structure of the
recursion. Nothing here presumes that the sizes are positive: `Map_init` compares them with 0
only, and a negative `current_size` makes no pass.
-/

/-- The loop of `GetIndex` from `i` on, with `n` passes left. -/
def getIndexLoop (map : Map) (key : List Byte) (i : Int) : Nat → Option Int
  | 0 => some indexNotFound
  | n + 1 => do
    let equal ← equalAt map.keys i map.keySize key
    if equal then some i else getIndexLoop map key (i + 1) n

/-- `GetIndex`. -/
def getIndex (map : Map) (key : List Byte) (size : Int) : Option Int :=
  getIndexLoop map key 0 size.toNat

/-- `Map_init`. -/
def init (map : Map) (keys values : Ptr (List Byte)) (key_size value_size max_map_size : Int) :
    Bool × Map :=
  match keys, values with
  | some keys, some values =>
    if key_size ≠ 0 ∧ value_size ≠ 0 ∧ max_map_size ≠ 0 then
      (true, { keys := keys, values := values, keySize := key_size, valueSize := value_size,
               maxMapSize := max_map_size, currentSize := 0 })
    else (false, map)
  | _, _ => (false, map)

/-- `Map_insert`. -/
def insert (map : Ptr Map) (key value : List Byte) : Option (Bool × Ptr Map) :=
  match map with
  | none => some (false, none)
  | some map => do
    let index ← getIndex map key map.currentSize
    -- a new key goes behind the last entry, a known one keeps its row
    if index = indexNotFound then
      if map.currentSize ≠ map.maxMapSize then do
        let keys ← copyTo map.keys map.currentSize map.keySize key
        let values ← copyTo map.values map.currentSize map.valueSize value
        let current_size ← int32 (map.currentSize + 1)
        some (true, some { map with keys := keys, values := values, currentSize := current_size })
      else some (false, some map)
    else do
      let values ← copyTo map.values index map.valueSize value
      some (true, some { map with values := values })

/-- `Map_getValue`: the status, and what `value` holds afterwards. -/
def getValue (map : Ptr Map) (key value : List Byte) : Option (Bool × List Byte) :=
  match map with
  | none => some (false, value)
  | some map => do
    let index ← getIndex map key map.currentSize
    if index ≠ indexNotFound then do
      let value ← copyFrom value map.values index map.valueSize
      some (true, value)
    else some (false, value)

end Map
end IMUtility
