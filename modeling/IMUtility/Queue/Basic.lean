import IMUtility.Typedefs
import IMUtility.Lib.Slots

/-! # `queue.c`: a ring of equally sized elements

`Queue_t` and its operations. The cursors are `uint32_t`, so every index and offset is computed
modulo `2 ^ 32`; `capacity` is not zero once `Queue_init` has succeeded, so the remainder is the
one of C. A `memcpy` outside its objects is `none`.

An operation returns its status and everything its pointers lead to afterwards. -/

namespace IMUtility

/-- `Queue_t`. -/
structure Queue where
  front : BitVec 32
  rear : BitVec 32
  size : BitVec 32
  capacity : BitVec 32
  elementSize : BitVec 32
  buffer : List Byte
  deriving DecidableEq

namespace Queue

/-! ## The operations

`rear` starts at the last slot, so that the first enqueue goes into slot 0: it always stores one
slot behind `rear`, and moves `rear` there. A failing call returns its arguments.
-/

/-- `Queue_init`. -/
def init (queue : Queue) (capacity element_size : BitVec 32) (buffer : Ptr (List Byte)) :
    Bool × Queue :=
  match buffer with
  | none        => (false, queue)
  | some buffer =>
    if element_size ≠ 0#32 ∧ capacity ≠ 0#32 then
      (true, { front := 0#32, rear := capacity - 1#32, size := 0#32, capacity := capacity,
               elementSize := element_size, buffer := buffer })
    else (false, queue)

/-- `Queue_full`. -/
def full (queue : Queue) : Bool := queue.size == queue.capacity

/-- `Queue_empty`. -/
def empty (queue : Queue) : Bool := queue.size == 0#32

/-- `Queue_enqueue`. -/
def enqueue (queue : Ptr Queue) (element : Ptr (List Byte)) : Option (Bool × Ptr Queue) :=
  match queue, element with
  | some queue, some element =>
    if !queue.full then do
      let buffer ← Slots.copy queue.buffer
        (((queue.rear + 1#32) % queue.capacity) * queue.elementSize).toNat
        element 0 queue.elementSize.toNat
      some (true, some { queue with
        buffer := buffer, rear := (queue.rear + 1#32) % queue.capacity, size := queue.size + 1#32 })
    else some (false, some queue)
  | queue, _ => some (false, queue)

/-- `Queue_dequeue`. -/
def dequeue (queue : Ptr Queue) (element : Ptr (List Byte)) :
    Option (Bool × Ptr Queue × Ptr (List Byte)) :=
  match queue, element with
  | some queue, some element =>
    if !queue.empty then do
      let element ← Slots.copy element 0 queue.buffer (queue.front * queue.elementSize).toNat
        queue.elementSize.toNat
      some (true, some { queue with
        front := (queue.front + 1#32) % queue.capacity, size := queue.size - 1#32 }, some element)
    else some (false, some queue, some element)
  | queue, element => some (false, queue, element)

/-- `Queue_front` and `Queue_rear` copy the element at a cursor out and change nothing. -/
def peek (cursor : Queue → BitVec 32) (queue : Ptr Queue) (element : Ptr (List Byte)) :
    Option (Bool × Ptr (List Byte)) :=
  match queue, element with
  | some queue, some element =>
    if !queue.empty then do
      let element ← Slots.copy element 0 queue.buffer (cursor queue * queue.elementSize).toNat
        queue.elementSize.toNat
      some (true, some element)
    else some (false, some element)
  | _, element => some (false, element)

/-- `Queue_front`. -/
def getFront (queue : Ptr Queue) (element : Ptr (List Byte)) : Option (Bool × Ptr (List Byte)) :=
  peek Queue.front queue element

/-- `Queue_rear`. -/
def getRear (queue : Ptr Queue) (element : Ptr (List Byte)) : Option (Bool × Ptr (List Byte)) :=
  peek Queue.rear queue element

end Queue
end IMUtility
