import IMUtility.PriorityQueue.Refinement
import IMUtility.Queue.Offsets

/-! # The offsets of the priority queue

The same question for `PriorityQueue_t`, whose entries are also moved one slot down, from the
offset `i * element_size + element_size`. The condition is the same as for the queue, and the
result of the module, `queueOffsets_iff`, says so of both. -/

namespace IMUtility
namespace PriorityQueue

open PriorityList

/-! ## The accesses

Read off the source, in the order in which an operation computes them. The shift loop copies from
the entry above, at an offset that the code forms by adding `element_size` to that of the entry
below: for the last entries the sum may wrap even where the product does not.
-/

/-- The source of a pass of the shift loops, `&buffer[(i * element_size) + element_size]`. -/
def slotAfter (i element_size : BitVec 32) : SlotAccess :=
  ⟨i.toNat + 1, (i * element_size) + element_size⟩

/-- Those of the shift loop. -/
def shiftAccesses (element_size index current_size : BitVec 32) : List SlotAccess :=
  (List.range' index.toNat (current_size.toNat - index.toNat)).flatMap fun i =>
    [slotAt (BitVec.ofNat 32 i) element_size, slotAfter (BitVec.ofNat 32 i) element_size]

/-- Those of `PriorityQueue_enqueue` for an item of this priority. -/
def enqueueAccesses (queue : PriorityQueue) (priority : BitVec 32) : List SlotAccess :=
  if !queue.full then [slotAt queue.size queue.elementSize]
  else match queue.getLowestPriorityIndex with
    | none => []
    | some index => match queue.priorityArray[index.toNat]? with
      | none => []
      | some lowest =>
        if lowest < priority then
          shiftAccesses queue.elementSize index (queue.size - 1#32) ++
            [slotAt (queue.size - 1#32) queue.elementSize]
        else []

/-- Those of `PriorityQueue_dequeue`. -/
def dequeueAccesses (queue : PriorityQueue) : List SlotAccess :=
  if !queue.empty then match queue.getHighestPriorityIndex with
    | none => []
    | some index =>
      slotAt index queue.elementSize ::
        shiftAccesses queue.elementSize index (queue.size - 1#32)
  else []

/-- Those of a call. -/
def accesses (queue : PriorityQueue) : Call (BitVec 32) (List Byte) → List SlotAccess
  | .enqueue priority _ => enqueueAccesses queue priority
  | .dequeue _ => dequeueAccesses queue
  | .empty => []

theorem slotAt_size_mem {queue : PriorityQueue} (hroom : queue.full = false) (priority : BitVec 32)
    (x : List Byte) :
    slotAt queue.size queue.elementSize ∈ accesses queue (.enqueue priority x) := by
  show _ ∈ enqueueAccesses queue priority
  rw [enqueueAccesses, hroom]
  exact List.mem_singleton_self _

/-! ### The operations, in terms of the accesses

These are the offsets that the operations copy to and from. -/

theorem enqueue_eq (queue : PriorityQueue) (item : PriorityQueueItem) :
    enqueue queue item = if !queue.full then
      (append queue item).bind fun queue => some (true, queue)
    else queue.getLowestPriorityIndex.bind fun index =>
      (queue.priorityArray[index.toNat]?).bind fun lowest =>
        (item.priority[0]?).bind fun priority =>
          if lowest < priority then
            (shiftDown { queue with size := queue.size - 1#32 } index (queue.size - 1#32)).bind
              fun queue => (append queue item).bind fun queue => some (true, queue)
          else some (false, queue) := rfl

theorem append_eq (queue : PriorityQueue) (item : PriorityQueueItem) :
    append queue item = (Slots.copy queue.buffer (slotAt queue.size queue.elementSize).offset.toNat
      item.element 0 queue.elementSize.toNat).bind fun buffer =>
        (item.priority[0]?).bind fun priority =>
          (setPriority { queue with buffer := buffer } queue.size priority).bind fun queue =>
            some { queue with size := queue.size + 1#32 } := rfl

theorem shiftStep_copies (queue : PriorityQueue) (i : BitVec 32) :
    shiftStep queue i = (Slots.copyWithin queue.buffer (slotAt i queue.elementSize).offset.toNat
      (slotAfter i queue.elementSize).offset.toNat queue.elementSize.toNat).bind fun buffer =>
        (queue.priorityArray[(i + 1#32).toNat]?).bind fun priority =>
          setPriority { queue with buffer := buffer } i priority := rfl

theorem dequeue_eq (queue : PriorityQueue) (element : List Byte) :
    dequeue queue element = if !queue.empty then
      queue.getHighestPriorityIndex.bind fun index =>
        (Slots.copy element 0 queue.buffer (slotAt index queue.elementSize).offset.toNat
          queue.elementSize.toNat).bind fun element =>
            (shiftDown { queue with size := queue.size - 1#32 } index (queue.size - 1#32)).bind
              fun queue => some (true, queue, element)
    else some (false, queue, element) := rfl

/-! ## What the operations keep

The offsets depend on the size and on the configuration, never on what the copies bring. Appending
adds one to the size, and the shift loop leaves it, whatever the two do to the bytes.
-/

/-- The configuration is unchanged, and the size is `size`. -/
structure Keeps (queue : PriorityQueue) (size : BitVec 32) (queue' : PriorityQueue) : Prop where
  capacity_eq : queue'.capacity = queue.capacity
  element_size_eq : queue'.elementSize = queue.elementSize
  size_eq : queue'.size = size

variable {queue queue' : PriorityQueue} {i : BitVec 32} {item : PriorityQueueItem}

theorem keeps_setPriority {priority : BitVec 32}
    (h : setPriority queue i priority = some queue') : Keeps queue queue.size queue' := by
  rw [setPriority] at h
  split at h
  · cases h
    exact ⟨rfl, rfl, rfl⟩
  · cases h

theorem buffer_setPriority {priority : BitVec 32}
    (h : setPriority queue i priority = some queue') : queue'.buffer = queue.buffer := by
  rw [setPriority] at h
  split at h
  · cases h
    rfl
  · cases h

theorem keeps_append (h : append queue item = some queue') :
    Keeps queue (queue.size + 1#32) queue' := by
  rw [append_eq] at h
  obtain ⟨buffer, -, h⟩ := Option.bind_eq_some_iff.mp h
  obtain ⟨priority, -, h⟩ := Option.bind_eq_some_iff.mp h
  obtain ⟨q, hset, h⟩ := Option.bind_eq_some_iff.mp h
  cases h
  obtain ⟨hcapacity, hsize, hcount⟩ := keeps_setPriority hset
  exact ⟨hcapacity, hsize, congrArg (· + 1#32) hcount⟩

theorem keeps_shiftStep (h : shiftStep queue i = some queue') : Keeps queue queue.size queue' := by
  rw [shiftStep_copies] at h
  obtain ⟨buffer, -, h⟩ := Option.bind_eq_some_iff.mp h
  obtain ⟨priority, -, h⟩ := Option.bind_eq_some_iff.mp h
  obtain ⟨hcapacity, hsize, hcount⟩ := keeps_setPriority h
  exact ⟨hcapacity, hsize, hcount⟩

theorem keeps_shiftLoop (is : List Nat)
    (h : is.foldlM (fun queue i => shiftStep queue (BitVec.ofNat 32 i)) queue = some queue') :
    Keeps queue queue.size queue' := by
  induction is generalizing queue with
  | nil =>
      cases h
      exact ⟨rfl, rfl, rfl⟩
  | cons i is ih =>
      rw [List.foldlM_cons] at h
      obtain ⟨q, hq, h⟩ := Option.bind_eq_some_iff.mp h
      obtain ⟨hcapacity, hsize, hcount⟩ := keeps_shiftStep hq
      obtain ⟨hcapacity', hsize', hcount'⟩ := ih h
      exact ⟨hcapacity'.trans hcapacity, hsize'.trans hsize, hcount'.trans hcount⟩

/-! ## The copies

The accesses of an operation were listed from its text. What follows ties the lists to the
operations: each is the accesses of the copies that the operation performs, in order, and these
copies are all that happens to the buffer and to the client's object. For the shift loop this is an
induction over its passes. -/

variable {out out' : List Byte} {index current_size : BitVec 32} {status : Bool}

theorem append_copiesAt (h : append queue item = some queue') :
    CopiesAt queue.elementSize.toNat [slotAt queue.size queue.elementSize]
      (queue.buffer, item.element) (queue'.buffer, item.element) := by
  rw [append_eq] at h
  obtain ⟨buffer, hcopy, h⟩ := Option.bind_eq_some_iff.mp h
  obtain ⟨priority, -, h⟩ := Option.bind_eq_some_iff.mp h
  obtain ⟨q, hset, h⟩ := Option.bind_eq_some_iff.mp h
  cases h
  -- the priority goes into the other array
  have hbuffer : q.buffer = buffer := buffer_setPriority hset
  rw [hbuffer]
  exact CopiesAt.store hcopy

theorem shiftStep_copiesAt (object : List Byte) (h : shiftStep queue i = some queue') :
    CopiesAt queue.elementSize.toNat
      [slotAt i queue.elementSize, slotAfter i queue.elementSize]
      (queue.buffer, object) (queue'.buffer, object) := by
  rw [shiftStep_copies] at h
  obtain ⟨buffer, hcopy, h⟩ := Option.bind_eq_some_iff.mp h
  obtain ⟨priority, -, h⟩ := Option.bind_eq_some_iff.mp h
  rw [buffer_setPriority h]
  exact CopiesAt.move hcopy

/-- The shift loop moves one entry in each pass. -/
theorem shiftDown_copiesAt (object : List Byte)
    (h : shiftDown queue index current_size = some queue') :
    CopiesAt queue.elementSize.toNat (shiftAccesses queue.elementSize index current_size)
      (queue.buffer, object) (queue'.buffer, object) := by
  have hpass : ∀ (q : PriorityQueue) (i : Nat) (q' : PriorityQueue),
      q.elementSize = queue.elementSize → shiftStep q (BitVec.ofNat 32 i) = some q' →
        q'.elementSize = queue.elementSize ∧ CopiesAt queue.elementSize.toNat
          [slotAt (BitVec.ofNat 32 i) queue.elementSize,
            slotAfter (BitVec.ofNat 32 i) queue.elementSize]
          (q.buffer, object) (q'.buffer, object) := by
    intro q i q' hsize hstep
    have hcopies := shiftStep_copiesAt object hstep
    rw [hsize] at hcopies
    exact ⟨(keeps_shiftStep hstep).element_size_eq.trans hsize, hcopies⟩
  exact (Footprint.Follows.of_foldlM (fun q : PriorityQueue => (q.buffer, object)) hpass rfl h).2

theorem enqueue_copiesAt {priority : BitVec 32} {x : List Byte}
    (hop : enqueue queue ⟨[priority], x⟩ = some (status, queue')) :
    CopiesAt queue.elementSize.toNat (enqueueAccesses queue priority) (queue.buffer, x)
      (queue'.buffer, x) := by
  rw [enqueue_eq] at hop
  rw [enqueueAccesses]
  split at hop
  case isTrue hroom =>
    obtain ⟨q, happend, hres⟩ := Option.bind_eq_some_iff.mp hop
    cases hres
    rw [if_pos hroom]
    exact append_copiesAt happend
  case isFalse hfull =>
    obtain ⟨index, hscan, hop⟩ := Option.bind_eq_some_iff.mp hop
    obtain ⟨lowest, hlowest, hop⟩ := Option.bind_eq_some_iff.mp hop
    rw [List.getElem?_cons_zero, Option.bind_some] at hop
    rw [if_neg hfull, hscan]
    show CopiesAt _ (match queue.priorityArray[index.toNat]? with
      | none => []
      | some lowest => if lowest < priority then _ else []) _ _
    rw [hlowest]
    show CopiesAt _ (if lowest < priority then _ else []) _ _
    split at hop
    case isTrue hgreater =>
      obtain ⟨q₁, hshift, hop⟩ := Option.bind_eq_some_iff.mp hop
      obtain ⟨q₂, happend, hres⟩ := Option.bind_eq_some_iff.mp hop
      cases hres
      rw [if_pos hgreater]
      -- the new item goes behind the entries that are left
      have hkeeps := keeps_shiftLoop _ hshift
      have hstore := append_copiesAt happend
      rw [hkeeps.element_size_eq, hkeeps.size_eq] at hstore
      exact (shiftDown_copiesAt x hshift).append hstore
    case isFalse hless =>
      cases hop
      rw [if_neg hless]
      exact Footprint.Follows.nil _ _ _

theorem dequeue_copiesAt (hop : dequeue queue out = some (status, queue', out')) :
    CopiesAt queue.elementSize.toNat (dequeueAccesses queue) (queue.buffer, out)
      (queue'.buffer, out') := by
  rw [dequeue_eq] at hop
  rw [dequeueAccesses]
  split at hop
  case isTrue hsome =>
    obtain ⟨index, hscan, hop⟩ := Option.bind_eq_some_iff.mp hop
    obtain ⟨element, hcopy, hop⟩ := Option.bind_eq_some_iff.mp hop
    obtain ⟨q, hshift, hres⟩ := Option.bind_eq_some_iff.mp hop
    cases hres
    have hmoves := shiftDown_copiesAt out' hshift
    rw [if_pos hsome, hscan]
    exact (CopiesAt.fetch hcopy).append hmoves
  case isFalse hnone =>
    cases hop
    rw [if_neg hnone]
    exact Footprint.Follows.nil _ _ _

/-- The client's object before a call. -/
def object (call : Call (BitVec 32) (List Byte)) : List Byte := call.element?.getD []

/-- **The accesses of a call are those of its copies**, and these make up what it does to the
buffer and to the client's object. -/
theorem step_copiesAt {call : Call (BitVec 32) (List Byte)} {reply}
    (hstep : step queue call = some (reply, queue')) :
    CopiesAt queue.elementSize.toNat (accesses queue call) (queue.buffer, object call)
      (queue'.buffer, reply.element.getD (object call)) := by
  cases call with
  | enqueue priority x =>
      obtain ⟨⟨status, q⟩, hop, heq⟩ := Option.bind_eq_some_iff.mp hstep
      cases heq
      exact enqueue_copiesAt hop
  | dequeue out =>
      obtain ⟨⟨status, q, out'⟩, hop, heq⟩ := Option.bind_eq_some_iff.mp hstep
      cases heq
      exact dequeue_copiesAt hop
  | empty =>
      cases hstep
      exact Footprint.Follows.nil _ _ _

/-! ## The scans

The index that a scan answers is the subscript of the entry to be removed. That it is one of an
entry needs no invariant on the priorities.
-/

/-- A scan of a queue that is not empty ends at one of its entries. -/
theorem scan_lt {beats : BitVec 32 → BitVec 32 → Bool} (hpos : 0 < queue.size.toNat)
    (h : scan beats queue = some i) : i.toNat < queue.size.toNat := by
  obtain ⟨first, -, h⟩ := Option.bind_eq_some_iff.mp h
  obtain ⟨⟨best, index⟩, hloop, h⟩ := Option.bind_eq_some_iff.mp h
  cases h
  -- by induction on the passes: the index is that of a pass already made, or 0
  have hkeep : ∀ (is : List Nat), (∀ j ∈ is, j < queue.size.toNat) →
      ∀ start best : BitVec 32 × BitVec 32, start.2.toNat < queue.size.toNat →
        is.foldlM (scanStep beats queue) start = some best → best.2.toNat < queue.size.toNat := by
    intro is
    induction is with
    | nil =>
        intro _ start best hstart hrun
        cases hrun
        exact hstart
    | cons j is ih =>
        intro his start best hstart hrun
        rw [List.foldlM_cons] at hrun
        obtain ⟨next, hstep, hrun⟩ := Option.bind_eq_some_iff.mp hrun
        refine ih (fun k hk => his k (List.mem_cons_of_mem j hk)) next best ?_ hrun
        obtain ⟨priority, -, hstep⟩ := Option.bind_eq_some_iff.mp hstep
        have hj := his j List.mem_cons_self
        have hsize := queue.size.isLt
        split at hstep
        · cases hstep
          rwa [toNat_ofNat_of_lt (by omega)]
        · cases hstep
          exact hstart
  exact hkeep _ (fun j hj => List.mem_range.mp hj) (first, 0#32) (best, i) hpos hloop

/-! ## The size

The cursor of this queue is its size. The invariant `Sized` says only that it stays in range, and
is kept by calls whose offsets wrap as well: this is what lets the condition be exact.
-/

/-- The size never exceeds the capacity, whether or not the offsets are right. -/
structure Sized (capacity element_size : BitVec 32) (queue : PriorityQueue) : Prop where
  capacity_eq : queue.capacity = capacity
  element_size_eq : queue.elementSize = element_size
  size_le : queue.size.toNat ≤ capacity.toNat

variable {capacity element_size : BitVec 32}

theorem Sized.size_lt (h : Sized capacity element_size queue) (hroom : queue.full = false) :
    queue.size.toNat < capacity.toNat := by
  rw [full, beq_eq_decide_toNat, h.capacity_eq] at hroom
  have hne := of_decide_eq_false hroom
  have hle := h.size_le
  omega

theorem size_of_full (hfull : queue.full = true) : queue.size = queue.capacity :=
  eq_of_beq hfull

theorem size_pos_of_not_empty (hempty : queue.empty = false) : 0 < queue.size.toNat := by
  rw [PriorityQueue.empty, beq_eq_decide_toNat] at hempty
  exact Nat.pos_of_ne_zero (of_decide_eq_false hempty)

/-- Removing an entry takes one off the size. -/
theorem Sized.shiftDown (h : Sized capacity element_size queue) (hempty : queue.empty = false)
    {index : BitVec 32} (hshift : shiftDown { queue with size := queue.size - 1#32 } index
      (queue.size - 1#32) = some queue') :
    queue'.capacity = capacity ∧ queue'.elementSize = element_size ∧
      queue'.size.toNat + 1 ≤ capacity.toNat := by
  obtain ⟨hcapacity, hsize, hcount⟩ := keeps_shiftLoop _ hshift
  have hpos := size_pos_of_not_empty hempty
  have hpred := toNat_pred_of_pos hpos
  have hle := h.size_le
  refine ⟨hcapacity.trans h.capacity_eq, hsize.trans h.element_size_eq, ?_⟩
  rw [hcount]
  show (queue.size - 1#32).toNat + 1 ≤ capacity.toNat
  omega

theorem sized_append (hcapacity : queue.capacity = capacity)
    (hsize : queue.elementSize = element_size) (hroom : queue.size.toNat + 1 ≤ capacity.toNat)
    (happend : append queue item = some queue') : Sized capacity element_size queue' := by
  obtain ⟨hcapacity', hsize', hcount⟩ := keeps_append happend
  refine ⟨hcapacity'.trans hcapacity, hsize'.trans hsize, ?_⟩
  have hcap := capacity.isLt
  rw [hcount, toNat_succ_of_lt (by omega)]
  exact hroom

theorem Sized.not_empty_of_full (hpos : 0 < capacity.toNat) (h : Sized capacity element_size queue)
    (hfull : queue.full = true) : queue.empty = false := by
  rw [PriorityQueue.empty, beq_eq_decide_toNat, size_of_full hfull, h.capacity_eq]
  exact decide_eq_false (Nat.ne_of_gt hpos)

theorem Sized.enqueue (hpos : 0 < capacity.toNat) (h : Sized capacity element_size queue)
    {status : Bool} (hop : enqueue queue item = some (status, queue')) :
    Sized capacity element_size queue' := by
  rw [enqueue_eq] at hop
  cases hfull : queue.full with
  | false =>
      rw [hfull] at hop
      obtain ⟨q, happend, hres⟩ := Option.bind_eq_some_iff.mp hop
      cases hres
      exact sized_append h.capacity_eq h.element_size_eq (h.size_lt hfull) happend
  -- a full queue first removes an entry, if the new item is better than its worst
  | true =>
      rw [hfull] at hop
      obtain ⟨index, -, hop⟩ := Option.bind_eq_some_iff.mp hop
      obtain ⟨lowest, -, hop⟩ := Option.bind_eq_some_iff.mp hop
      obtain ⟨priority, -, hop⟩ := Option.bind_eq_some_iff.mp hop
      split at hop
      · obtain ⟨q₁, hshift, hop⟩ := Option.bind_eq_some_iff.mp hop
        obtain ⟨q₂, happend, hres⟩ := Option.bind_eq_some_iff.mp hop
        cases hres
        obtain ⟨hcapacity, hsize, hroom⟩ := h.shiftDown (h.not_empty_of_full hpos hfull) hshift
        exact sized_append hcapacity hsize hroom happend
      · cases hop
        exact h

theorem Sized.dequeue (h : Sized capacity element_size queue) {out out' : List Byte} {status : Bool}
    (hop : dequeue queue out = some (status, queue', out')) :
    Sized capacity element_size queue' := by
  rw [dequeue_eq] at hop
  cases hempty : queue.empty with
  | false =>
      rw [hempty] at hop
      obtain ⟨index, -, hop⟩ := Option.bind_eq_some_iff.mp hop
      obtain ⟨element, -, hop⟩ := Option.bind_eq_some_iff.mp hop
      obtain ⟨q, hshift, hres⟩ := Option.bind_eq_some_iff.mp hop
      cases hres
      obtain ⟨hcapacity, hsize, hroom⟩ := h.shiftDown hempty hshift
      exact ⟨hcapacity, hsize, Nat.le_of_succ_le hroom⟩
  | true =>
      rw [hempty] at hop
      cases hop
      exact h

theorem Sized.step (hpos : 0 < capacity.toNat) (h : Sized capacity element_size queue)
    {call : Call (BitVec 32) (List Byte)} {reply}
    (hstep : step queue call = some (reply, queue')) : Sized capacity element_size queue' := by
  cases call with
  | enqueue priority element =>
      obtain ⟨⟨status, q⟩, hop, heq⟩ := Option.bind_eq_some_iff.mp hstep
      cases heq
      exact h.enqueue hpos hop
  | dequeue out =>
      obtain ⟨⟨status, q, out'⟩, hop, heq⟩ := Option.bind_eq_some_iff.mp hstep
      cases heq
      exact h.dequeue hop
  | empty =>
      cases hstep
      exact h

/-! ## The slots that are meant

In a sized queue every subscript is below the capacity. If the last offset fits, no product wraps,
nor does the sum in the source of a shift, so each access is at its slot.
-/

theorem slotAfter_meets (hfits : LastOffsetFits capacity.toNat element_size.toNat)
    (hi : i.toNat + 1 < capacity.toNat) :
    (slotAfter i element_size).Meets capacity.toNat element_size.toNat where
  index_lt := hi
  offset_eq := by
    have hlt := hfits.mul_lt hi
    have hmul : (i * element_size).toNat = i.toNat * element_size.toNat :=
      BitVec.toNat_mul_of_lt (hfits.mul_lt (Nat.lt_of_succ_lt hi))
    rw [Nat.add_one_mul, ← hmul] at hlt
    show (i * element_size + element_size).toNat = (i.toNat + 1) * element_size.toNat
    rw [BitVec.toNat_add_of_lt hlt, hmul, Nat.add_one_mul]

/-- The shift loop moves entries below the last one of the queue. -/
theorem shiftAccesses_meet (hfits : LastOffsetFits capacity.toNat element_size.toNat)
    {index current_size : BitVec 32} (hlt : current_size.toNat < capacity.toNat) :
    ∀ a ∈ shiftAccesses element_size index current_size,
      a.Meets capacity.toNat element_size.toNat := by
  intro a ha
  obtain ⟨k, hk, ha⟩ := List.mem_flatMap.mp ha
  have hrange := List.mem_range'_1.mp hk
  have hcap := capacity.isLt
  have hk32 : (BitVec.ofNat 32 k).toNat = k := toNat_ofNat_of_lt (by omega)
  -- the target of pass `k`, and its source
  rcases List.mem_cons.mp ha with rfl | ha
  · exact slotAt_meets hfits (by omega)
  · rw [List.mem_singleton.mp ha]
    exact slotAfter_meets hfits (by omega)

/-- The last entry of a queue is below its capacity. -/
theorem Sized.last_lt (h : Sized capacity element_size queue) (hempty : queue.empty = false) :
    (queue.size - 1#32).toNat < capacity.toNat := by
  have hpos := size_pos_of_not_empty hempty
  have hpred := toNat_pred_of_pos hpos
  have hle := h.size_le
  omega

theorem Sized.enqueueAccesses_meet (hpos : 0 < capacity.toNat)
    (hfits : LastOffsetFits capacity.toNat element_size.toNat)
    (h : Sized capacity element_size queue) (priority : BitVec 32) :
    ∀ a ∈ enqueueAccesses queue priority, a.Meets capacity.toNat element_size.toNat := by
  intro a ha
  rw [enqueueAccesses, h.element_size_eq] at ha
  cases hfull : queue.full with
  | false =>
      rw [hfull] at ha
      rw [List.mem_singleton.mp ha]
      exact slotAt_meets hfits (h.size_lt hfull)
  | true =>
      -- full: the shift, then the last slot
      have hlt := h.last_lt (h.not_empty_of_full hpos hfull)
      rw [hfull] at ha
      change a ∈ (match queue.getLowestPriorityIndex with
        | none => []
        | some index => match queue.priorityArray[index.toNat]? with
          | none => []
          | some lowest => if lowest < priority then
              shiftAccesses element_size index (queue.size - 1#32) ++
                [slotAt (queue.size - 1#32) element_size]
            else []) at ha
      split at ha
      · cases ha
      · split at ha
        · cases ha
        · split at ha
          · rcases List.mem_append.mp ha with ha | ha
            · exact shiftAccesses_meet hfits hlt a ha
            · rw [List.mem_singleton.mp ha]
              exact slotAt_meets hfits hlt
          · cases ha

theorem Sized.dequeueAccesses_meet (hfits : LastOffsetFits capacity.toNat element_size.toNat)
    (h : Sized capacity element_size queue) :
    ∀ a ∈ dequeueAccesses queue, a.Meets capacity.toNat element_size.toNat := by
  intro a ha
  rw [dequeueAccesses, h.element_size_eq] at ha
  cases hempty : queue.empty with
  | true =>
      rw [hempty] at ha
      cases ha
  | false =>
      rw [hempty] at ha
      cases hscan : queue.getHighestPriorityIndex with
      | none =>
          rw [hscan] at ha
          cases ha
      | some index =>
          have hindex := scan_lt (size_pos_of_not_empty hempty) hscan
          rw [hscan] at ha
          rcases List.mem_cons.mp ha with rfl | ha
          · exact slotAt_meets hfits (Nat.lt_of_lt_of_le hindex h.size_le)
          · exact shiftAccesses_meet hfits (h.last_lt hempty) a ha

/-- Every access means a slot of the buffer. -/
theorem Sized.accesses_meet (hpos : 0 < capacity.toNat)
    (hfits : LastOffsetFits capacity.toNat element_size.toNat)
    (h : Sized capacity element_size queue) (call : Call (BitVec 32) (List Byte)) :
    ∀ a ∈ accesses queue call, a.Meets capacity.toNat element_size.toNat := by
  cases call with
  | enqueue priority element => exact h.enqueueAccesses_meet hpos hfits priority
  | dequeue out => exact h.dequeueAccesses_meet hfits
  | empty => exact fun _ ha => absurd ha List.not_mem_nil

/-! ## Filling the queue

For the other direction the last slot has to be reached, which enqueues do. They succeed even
where an offset has wrapped, for a wrapped offset is smaller than the one that was meant.
-/

/-- `n` elements have been stored into the first `n` slots. -/
structure Filled (capacity element_size : BitVec 32) (n : Nat) (queue : PriorityQueue) : Prop where
  capacity_eq : queue.capacity = capacity
  element_size_eq : queue.elementSize = element_size
  size_eq : queue.size.toNat = n
  array_le : capacity.toNat ≤ queue.priorityArray.length
  buffer_le : capacity.toNat * element_size.toNat ≤ queue.buffer.length

theorem Filled.full_eq {n : Nat} (h : Filled capacity element_size n queue)
    (hn : n < capacity.toNat) : queue.full = false := by
  rw [full, beq_eq_decide_toNat, h.size_eq, h.capacity_eq, decide_eq_false]
  omega

/-- One more element. The copy stays inside the buffer even where its offset has wrapped. -/
theorem Filled.enqueue {n : Nat} (h : Filled capacity element_size n queue)
    (hn : n < capacity.toNat) (priority : BitVec 32) {x : List Byte}
    (hx : x.length = element_size.toNat) :
    ∃ queue', PriorityQueue.step queue (.enqueue priority x) = some (⟨true, none⟩, queue') ∧
      Filled capacity element_size (n + 1) queue' := by
  have hfull := h.full_eq hn
  obtain ⟨hcapacity, hsize, hcount, harray, hbuffer⟩ := h
  have hcap := capacity.isLt
  have hoffset : (slotAt queue.size element_size).offset.toNat ≤ n * element_size.toNat := by
    rw [← hcount]
    exact slotAt_offset_le _ _
  have hend := Slots.slot_end_le element_size.toNat hn
  -- the buffer has room for all slots in front of the one that is meant, and for one more
  obtain ⟨buffer, hcopy, hlength⟩ := Slots.exists_copy
    (show (slotAt queue.size element_size).offset.toNat + element_size.toNat
      ≤ queue.buffer.length by omega) hx
  have hset : queue.size.toNat < queue.priorityArray.length := by omega
  refine ⟨{ queue with
    buffer := buffer, priorityArray := queue.priorityArray.set queue.size.toNat priority,
    size := queue.size + 1#32 }, ?_, hcapacity, hsize, ?_, ?_, ?_⟩
  · show (PriorityQueue.enqueue queue ⟨[priority], x⟩).bind _ = _
    rw [enqueue_eq, hfull, append_eq, hsize, hcopy]
    simp only [setPriority, Bool.not_false, if_true, Option.bind_some, List.getElem?_cons_zero,
      if_pos hset]
  · rw [toNat_succ_of_lt (by omega), hcount]
  · rwa [List.length_set]
  · rwa [hlength]

theorem hasSize_enqueue {n : Nat} (priority : BitVec 32) {x : List Byte} (hx : x.length = n) :
    HasSize n (.enqueue priority x) := by
  intro y hy
  cases hy
  exact hx

/-- Every slot becomes the next one. -/
theorem exists_filled {queue₀ : PriorityQueue} (h₀ : Filled capacity element_size 0 queue₀)
    (n : Nat) (hn : n ≤ capacity.toNat) :
    ∃ queue, Refinement.Reaches PriorityQueue.step (HasSize element_size.toNat) queue₀ queue ∧
      Filled capacity element_size n queue := by
  refine Refinement.exists_reaches_of_progress ?_ h₀ n hn
  intro n hn queue h
  have hx : (List.replicate element_size.toNat (0 : Byte)).length = element_size.toNat :=
    List.length_replicate
  obtain ⟨queue', hstep, h'⟩ := h.enqueue hn 0#32 hx
  exact ⟨_, _, queue', hasSize_enqueue 0#32 hx, hstep, h'⟩

/-! ## All runs

The condition is enough by the invariant of a run, and it is necessary by the access of the
enqueue that fills the queue.
-/

/-- **The offsets of the priority queue are exact precisely when the last one fits.** -/
theorem offsetsExact_iff {queue₀ : PriorityQueue} (hpos : 0 < capacity.toNat)
    (hfilled : Filled capacity element_size 0 queue₀) :
    OffsetsExact accesses
        (Refinement.Reaches PriorityQueue.step (HasSize element_size.toNat) queue₀)
        (HasSize element_size.toNat) capacity.toNat element_size.toNat
      ↔ LastOffsetFits capacity.toNat element_size.toNat := by
  constructor
  · intro hexact
    -- the state in front of the enqueue that fills the queue
    obtain ⟨queue, hreach, h⟩ := exists_filled hfilled (capacity.toNat - 1) (Nat.sub_le _ _)
    have hmem := slotAt_size_mem (h.full_eq (by omega)) 0#32
      (List.replicate element_size.toNat 0)
    have hsize := hasSize_enqueue 0#32
      (List.length_replicate (n := element_size.toNat) (a := (0 : Byte)))
    have hoffset := hexact.exact queue _ hreach hsize _ hmem
    rw [h.element_size_eq] at hoffset
    exact lastOffsetFits_of_slotAt h.size_eq hoffset
  · intro hfits
    have h₀ : Sized capacity element_size queue₀ :=
      ⟨hfilled.capacity_eq, hfilled.element_size_eq, by rw [hfilled.size_eq]; exact Nat.zero_le _⟩
    apply offsetsExact_of_meets
    intro queue call hreach _
    have h := hreach.invariant (fun _ _ _ _ hI _ hstep => Sized.step hpos hI hstep) h₀
    exact h.accesses_meet hpos hfits call

/-- After `PriorityQueue_init` the first slot is the next one. -/
theorem init_filled {items : PriorityQueueItem} {queue₀ : PriorityQueue}
    (hinit : init (some queue) capacity element_size (some items) = (true, some queue₀))
    (hbuf : capacity.toNat * element_size.toNat ≤ items.element.length)
    (harray : capacity.toNat ≤ items.priority.length) :
    0 < capacity.toNat ∧ Filled capacity element_size 0 queue₀ := by
  simp only [init] at hinit
  split at hinit
  case isFalse => simp at hinit
  case isTrue hargs =>
    obtain rfl := Option.some.inj (Prod.mk.inj hinit).2
    exact ⟨toNat_pos_of_ne_zero hargs.1, rfl, rfl, rfl, harray, hbuf⟩

end PriorityQueue

/-! ## Both queues

The result puts the two components side by side: a buffer that is large enough does not make the
offsets right, and the condition that does is the same.
-/

/-- **When offsets do not wrap.** For both queues, with the buffer their initialisation asks for:
in the states that are reached, every offset is that of the slot it means, inside the buffer and
apart from the other slots, precisely when `(capacity - 1) * element_size` fits `uint32_t`. The
offsets are those of the code: the copies at the accesses of a call, in their order, are what the
call does to the buffer and to the client's object, in every state. -/
theorem queueOffsets_iff (capacity element_size : BitVec 32) :
    (∀ (queue : Queue) (buffer : List Byte),
      (Queue.init queue capacity element_size (some buffer)).1 = true →
      capacity.toNat * element_size.toNat ≤ buffer.length →
      (OffsetsExact Queue.accesses
          (Refinement.Reaches Queue.step (Queue.HasSize element_size.toNat)
            (Queue.init queue capacity element_size (some buffer)).2)
          (Queue.HasSize element_size.toNat) capacity.toNat element_size.toNat
        ↔ LastOffsetFits capacity.toNat element_size.toNat)) ∧
    (∀ (queue queue₀ : PriorityQueue) (items : PriorityQueueItem),
      PriorityQueue.init (some queue) capacity element_size (some items) = (true, some queue₀) →
      capacity.toNat * element_size.toNat ≤ items.element.length →
      capacity.toNat ≤ items.priority.length →
      (OffsetsExact PriorityQueue.accesses
          (Refinement.Reaches PriorityQueue.step (PriorityQueue.HasSize element_size.toNat) queue₀)
          (PriorityQueue.HasSize element_size.toNat) capacity.toNat element_size.toNat
        ↔ LastOffsetFits capacity.toNat element_size.toNat)) ∧
    (∀ queue call reply queue', Queue.step queue call = some (reply, queue') →
      CopiesAt queue.elementSize.toNat (Queue.accesses queue call)
        (queue.buffer, Queue.object call)
        (queue'.buffer, reply.element.getD (Queue.object call))) ∧
    ∀ queue call reply queue', PriorityQueue.step queue call = some (reply, queue') →
      CopiesAt queue.elementSize.toNat (PriorityQueue.accesses queue call)
        (queue.buffer, PriorityQueue.object call)
        (queue'.buffer, reply.element.getD (PriorityQueue.object call)) := by
  refine ⟨?_, ?_, fun _ _ _ _ hstep => Queue.step_copiesAt hstep,
    fun _ _ _ _ hstep => PriorityQueue.step_copiesAt hstep⟩
  · intro queue buffer hinit hbuf
    obtain ⟨hcursors, hfilled⟩ := Queue.init_filled hinit hbuf
    exact Queue.offsetsExact_iff hcursors hfilled
  · intro queue queue₀ items hinit hbuf harray
    obtain ⟨hpos, hfilled⟩ := PriorityQueue.init_filled hinit hbuf harray
    exact PriorityQueue.offsetsExact_iff hpos hfilled

theorem queueOffsets_iff_bytes :
    OffsetsExact Queue.accesses
      (Refinement.Reaches Queue.step (Queue.HasSize 1)
        (Queue.init ⟨0, 0, 0, 0, 0, []⟩ 2#32 1#32 (some [0xAA#8, 0xAA#8])).2)
      (Queue.HasSize 1) 2 1 ∧
    OffsetsExact PriorityQueue.accesses
      (Refinement.Reaches PriorityQueue.step (PriorityQueue.HasSize 1)
        ⟨0, 2, 1, [0, 0], [0xAA#8, 0xAA#8]⟩)
      (PriorityQueue.HasSize 1) 2 1 := by
  obtain ⟨hqueue, hpriority, -⟩ := queueOffsets_iff 2#32 1#32
  constructor
  · exact (hqueue ⟨0, 0, 0, 0, 0, []⟩ [0xAA#8, 0xAA#8] (by decide) (by decide)).mpr (by decide)
  · exact (hpriority ⟨0, 0, 0, [], []⟩ _ ⟨[0, 0], [0xAA#8, 0xAA#8]⟩ (by decide) (by decide)
      (by decide)).mpr (by decide)

/-- With three slots of `2 ^ 31` bytes, the third element is stored at offset 0. -/
theorem queueOffsets_wrap :
    let queue₀ := Queue.init ⟨0, 0, 0, 0, 0, []⟩ 3#32 0x80000000#32
      (some (List.replicate (3 * 2 ^ 31) 0#8))
    queue₀.1 = true ∧
    (∃ queue, Refinement.Reaches Queue.step (Queue.HasSize (2 ^ 31)) queue₀.2 queue ∧
      ∃ a ∈ Queue.accesses queue (.enqueue (List.replicate (2 ^ 31) 0#8)),
        a.index = 2 ∧ a.offset = 0#32) ∧
    ¬ OffsetsExact Queue.accesses
      (Refinement.Reaches Queue.step (Queue.HasSize (2 ^ 31)) queue₀.2)
      (Queue.HasSize (2 ^ 31)) 3 (2 ^ 31) := by
  intro queue₀
  have hinit : (Queue.init ⟨0, 0, 0, 0, 0, []⟩ 3#32 0x80000000#32
    (some (List.replicate (3 * 2 ^ 31) 0#8))).1 = true := rfl
  have hbuf : (3#32).toNat * (0x80000000#32).toNat ≤ (List.replicate (3 * 2 ^ 31) 0#8).length := by
    rw [List.length_replicate]
    decide
  have hwraps : ¬ LastOffsetFits (3#32).toNat (0x80000000#32).toNat := by decide
  obtain ⟨hcursors, hfilled⟩ := Queue.init_filled hinit hbuf
  obtain ⟨queue, hreach, h⟩ := Queue.exists_filled hfilled 2 (by decide)
  -- the third element goes to slot 2, and 2 * 2^31 is 0 in 32 bits
  have hnext : (queue.rear + 1#32) % queue.capacity = 2#32 := by
    rw [h.capacity_eq]
    exact BitVec.eq_of_toNat_eq h.next_eq
  refine ⟨hinit, ⟨queue, hreach, Queue.enqueueAccess queue, ?_, ?_, ?_⟩,
    fun hexact => hwraps ((Queue.offsetsExact_iff hcursors hfilled).mp hexact)⟩
  · exact Queue.enqueueAccess_mem (h.full_eq (by decide)) _
  · rw [Queue.enqueueAccess, hnext]
    rfl
  · rw [Queue.enqueueAccess, hnext, h.element_size_eq]
    rfl

end IMUtility
