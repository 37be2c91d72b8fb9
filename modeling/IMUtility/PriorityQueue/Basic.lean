import IMUtility.Typedefs
import IMUtility.Lib.Slots

/-! # `priority_queue.c`: two parallel arrays

`PriorityQueue_t` keeps the priorities in one array and the elements in a byte buffer, entry `i`
of both belonging together, in order of arrival. An entry is removed by moving every later entry
down, in both arrays. Offsets are computed in `uint32_t`; an access outside an array, or a
`memcpy` between overlapping windows, is `none`. -/

namespace IMUtility

/-- `PriorityQueueItem_t`: what its two pointers lead to. -/
structure PriorityQueueItem where
  priority : List (BitVec 32)
  element : List Byte

/-- `PriorityQueue_t`. -/
structure PriorityQueue where
  size : BitVec 32
  capacity : BitVec 32
  elementSize : BitVec 32
  priorityArray : List (BitVec 32)
  buffer : List Byte
  deriving DecidableEq

namespace PriorityQueue

/-- `Full`. -/
def full (queue : PriorityQueue) : Bool := queue.size == queue.capacity

/-! ## The scans

`GetHighestPriorityIndex` and `GetLowestPriorityIndex` are one loop with the comparison turned
round. Both begin with entry 0 as the best so far and compare it with itself in the first pass; on
equal priorities the earlier index stays.
-/

/-- One pass of a scan over the priorities, on the best priority so far and its index. -/
def scanStep (beats : BitVec 32 → BitVec 32 → Bool) (queue : PriorityQueue)
    (best : BitVec 32 × BitVec 32) (i : Nat) : Option (BitVec 32 × BitVec 32) := do
  let priority ← queue.priorityArray[i]?
  if beats best.1 priority then some (priority, BitVec.ofNat 32 i) else some best

/-- The scan shared by the two searches: it starts from entry 0, and moves on where the priority
of an entry `beats` the best so far. -/
def scan (beats : BitVec 32 → BitVec 32 → Bool) (queue : PriorityQueue) : Option (BitVec 32) := do
  let first ← queue.priorityArray[0]?
  let (_, index) ← (List.range queue.size.toNat).foldlM (scanStep beats queue) (first, 0#32)
  some index

/-- `GetHighestPriorityIndex`. -/
def getHighestPriorityIndex (queue : PriorityQueue) : Option (BitVec 32) :=
  scan (fun highest_priority priority => highest_priority < priority) queue

/-- `GetLowestPriorityIndex`. -/
def getLowestPriorityIndex (queue : PriorityQueue) : Option (BitVec 32) :=
  scan (fun lowest_priority priority => lowest_priority > priority) queue

/-- `PriorityQueue_init`. -/
def init (queue : Ptr PriorityQueue) (capacity element_size : BitVec 32)
    (items : Ptr PriorityQueueItem) : Bool × Ptr PriorityQueue :=
  match queue, items with
  | some queue, some items =>
    if capacity ≠ 0#32 ∧ element_size ≠ 0#32 then
      (true, some { size := 0#32, capacity := capacity, elementSize := element_size,
                    priorityArray := items.priority, buffer := items.element })
    else (false, some queue)
  | queue, _ => (false, queue)

/-- `PriorityQueue_empty`. -/
def empty (queue : PriorityQueue) : Bool := queue.size == 0#32

/-- `queue->priority_array[i] = priority`. -/
def setPriority (queue : PriorityQueue) (i : BitVec 32) (priority : BitVec 32) :
    Option PriorityQueue :=
  if i.toNat < queue.priorityArray.length then
    some { queue with priorityArray := queue.priorityArray.set i.toNat priority }
  else none

/-! ## The operations

`enqueue` and `dequeue` write the shift loop and the appending statements out twice. Here each is
a definition of its own, with the two places calling it. The loop runs with the new size already
stored, and an entry in front of `index` is never touched.
-/

/-- The three statements that put an item behind the last entry. -/
def append (queue : PriorityQueue) (item : PriorityQueueItem) : Option PriorityQueue := do
  let buffer ← Slots.copy queue.buffer (queue.size * queue.elementSize).toNat
    item.element 0 queue.elementSize.toNat
  let priority ← item.priority[0]?
  let queue ← setPriority { queue with buffer := buffer } queue.size priority
  some { queue with size := queue.size + 1#32 }

/-- The body of the shift loops: entry `i + 1` moves onto entry `i`. -/
def shiftStep (queue : PriorityQueue) (i : BitVec 32) : Option PriorityQueue := do
  let buffer ← Slots.copyWithin queue.buffer (i * queue.elementSize).toNat
    ((i * queue.elementSize) + queue.elementSize).toNat queue.elementSize.toNat
  let priority ← queue.priorityArray[(i + 1#32).toNat]?
  setPriority { queue with buffer := buffer } i priority

/-- `for (i = index; i < current_size; ++i)` around `shiftStep`. -/
def shiftDown (queue : PriorityQueue) (index current_size : BitVec 32) : Option PriorityQueue :=
  (List.range' index.toNat (current_size.toNat - index.toNat)).foldlM
    (fun queue i => shiftStep queue (BitVec.ofNat 32 i)) queue

/-- `PriorityQueue_enqueue`. -/
def enqueue (queue : PriorityQueue) (item : PriorityQueueItem) : Option (Bool × PriorityQueue) :=
  if !queue.full then do
    let queue ← queue.append item
    some (true, queue)
  else do
    let lowest_priority_index ← queue.getLowestPriorityIndex
    let lowest ← queue.priorityArray[lowest_priority_index.toNat]?
    let priority ← item.priority[0]?
    -- the new item has to be better than the worst one, not only as good
    if lowest < priority then do
      let current_size := queue.size - 1#32
      let queue ← shiftDown { queue with size := current_size } lowest_priority_index current_size
      let queue ← queue.append item
      some (true, queue)
    else some (false, queue)

/-- `PriorityQueue_dequeue`. -/
def dequeue (queue : PriorityQueue) (element : List Byte) :
    Option (Bool × PriorityQueue × List Byte) :=
  if !queue.empty then do
    let highest_priority_index ← queue.getHighestPriorityIndex
    let element ← Slots.copy element 0 queue.buffer
      (highest_priority_index * queue.elementSize).toNat queue.elementSize.toNat
    let current_size := queue.size - 1#32
    let queue ← shiftDown { queue with size := current_size } highest_priority_index current_size
    some (true, queue, element)
  else some (false, queue, element)

end PriorityQueue
end IMUtility
