import IMUtility.Queue.Refinement
import IMUtility.SlotAccess

/-! # The offsets of the queue

`Queue_init` accepts every capacity and element size that is not zero. In the runs behind it the
cursors stay below the capacity whatever the offsets do, and by filling the queue every slot is
reached. So the offsets are exact precisely when that of the last slot fits
(`offsetsExact_iff`). -/

namespace IMUtility
namespace Queue

open Fifo

/-! ## The accesses

Read off the source: each call that copies has one access, at a cursor or behind one. The index of
an access is the slot that is meant, and its offset is what the code computes for it in
`uint32_t`.
-/

/-- The slot that `Queue_enqueue` stores into. -/
def enqueueAccess (queue : Queue) : SlotAccess :=
  slotAt ((queue.rear + 1#32) % queue.capacity) queue.elementSize

/-- The accesses of a call to the buffer. -/
def accesses (queue : Queue) : Call (List Byte) → List SlotAccess
  | .enqueue _ => if !queue.full then [enqueueAccess queue] else []
  | .dequeue _ => if !queue.empty then [slotAt queue.front queue.elementSize] else []
  | .front _ => if !queue.empty then [slotAt queue.front queue.elementSize] else []
  | .rear _ => if !queue.empty then [slotAt queue.rear queue.elementSize] else []
  | .full => []
  | .empty => []

theorem enqueueAccess_mem {queue : Queue} (hroom : queue.full = false) (x : List Byte) :
    enqueueAccess queue ∈ accesses queue (.enqueue x) := by
  show _ ∈ if !queue.full then [enqueueAccess queue] else []
  rw [hroom]
  exact List.mem_singleton_self _

/-! ### The operations, in terms of the accesses

These are the offsets that the operations copy to and from. -/

theorem enqueue_eq (queue : Queue) (element : List Byte) :
    enqueue (some queue) (some element) = if !queue.full then
      (Slots.copy queue.buffer (enqueueAccess queue).offset.toNat element 0
        queue.elementSize.toNat).bind fun buffer => some (true, some { queue with
          buffer := buffer, rear := (queue.rear + 1#32) % queue.capacity,
          size := queue.size + 1#32 })
    else some (false, some queue) := rfl

theorem dequeue_eq (queue : Queue) (element : List Byte) :
    dequeue (some queue) (some element) = if !queue.empty then
      (Slots.copy element 0 queue.buffer (slotAt queue.front queue.elementSize).offset.toNat
        queue.elementSize.toNat).bind fun element => some (true, some { queue with
          front := (queue.front + 1#32) % queue.capacity, size := queue.size - 1#32 },
          some element)
    else some (false, some queue, some element) := rfl

theorem peek_eq (cursor : Queue → BitVec 32) (queue : Queue) (element : List Byte) :
    peek cursor (some queue) (some element) = if !queue.empty then
      (Slots.copy element 0 queue.buffer (slotAt (cursor queue) queue.elementSize).offset.toNat
        queue.elementSize.toNat).bind fun element => some (true, some element)
    else some (false, some element) := rfl

/-- The client's object before a call. -/
def object (call : Call (List Byte)) : List Byte := call.element?.getD []

variable {queue queue' : Queue} {x out : List Byte} {status : Bool} {q : Ptr Queue}
  {out' : Ptr (List Byte)}

theorem enqueue_copiesAt (hop : enqueue (some queue) (some x) = some (status, q)) :
    CopiesAt queue.elementSize.toNat (if !queue.full then [enqueueAccess queue] else [])
      (queue.buffer, x) ((q.getD queue).buffer, x) := by
  rw [enqueue_eq] at hop
  split at hop
  case isTrue hroom =>
    obtain ⟨buffer, hcopy, hres⟩ := Option.bind_eq_some_iff.mp hop
    cases hres
    rw [if_pos hroom]
    exact CopiesAt.store hcopy
  case isFalse hfull =>
    cases hop
    rw [if_neg hfull]
    exact Footprint.Follows.nil _ _ _

theorem dequeue_copiesAt (hop : dequeue (some queue) (some out) = some (status, q, out')) :
    CopiesAt queue.elementSize.toNat
      (if !queue.empty then [slotAt queue.front queue.elementSize] else [])
      (queue.buffer, out) ((q.getD queue).buffer, out'.getD out) := by
  rw [dequeue_eq] at hop
  split at hop
  case isTrue hsome =>
    obtain ⟨element, hcopy, hres⟩ := Option.bind_eq_some_iff.mp hop
    cases hres
    rw [if_pos hsome]
    exact CopiesAt.fetch hcopy
  case isFalse hnone =>
    cases hop
    rw [if_neg hnone]
    exact Footprint.Follows.nil _ _ _

/-- Both peeking calls copy the slot of their cursor. -/
theorem peek_copiesAt {cursor : Queue → BitVec 32}
    (hpeek : peek cursor (some queue) (some out) = some (status, out')) :
    CopiesAt queue.elementSize.toNat
      (if !queue.empty then [slotAt (cursor queue) queue.elementSize] else [])
      (queue.buffer, out) (queue.buffer, out'.getD out) := by
  rw [peek_eq] at hpeek
  split at hpeek
  case isTrue hsome =>
    obtain ⟨element, hcopy, hres⟩ := Option.bind_eq_some_iff.mp hpeek
    cases hres
    rw [if_pos hsome]
    exact CopiesAt.fetch hcopy
  case isFalse hnone =>
    cases hpeek
    rw [if_neg hnone]
    exact Footprint.Follows.nil _ _ _

/-- **The accesses of a call are those of its copies**, and these make up what it does to the
buffer and to the client's object. -/
theorem step_copiesAt {call : Call (List Byte)} {reply}
    (hstep : step queue call = some (reply, queue')) :
    CopiesAt queue.elementSize.toNat (accesses queue call) (queue.buffer, object call)
      (queue'.buffer, reply.element.getD (object call)) := by
  cases call with
  | enqueue x =>
      obtain ⟨⟨status, q⟩, hop, heq⟩ := Option.bind_eq_some_iff.mp hstep
      cases heq
      exact enqueue_copiesAt hop
  | dequeue out =>
      obtain ⟨⟨status, q, out'⟩, hop, heq⟩ := Option.bind_eq_some_iff.mp hstep
      cases heq
      exact dequeue_copiesAt hop
  | front out =>
      obtain ⟨⟨status, out'⟩, hop, heq⟩ := Option.bind_eq_some_iff.mp hstep
      cases heq
      exact peek_copiesAt hop
  | rear out =>
      obtain ⟨⟨status, out'⟩, hop, heq⟩ := Option.bind_eq_some_iff.mp hstep
      cases heq
      exact peek_copiesAt hop
  | full =>
      cases hstep
      exact Footprint.Follows.nil _ _ _
  | empty =>
      cases hstep
      exact Footprint.Follows.nil _ _ _

/-! ## The cursors

The cursors are reduced modulo the capacity by the code itself. So they name slots in every run,
whatever the offsets computed from them do to the bytes, and a call whose offset has wrapped can
be followed like any other.
-/

/-- The cursors name slots, whether or not the offsets are right. -/
structure Cursors (capacity element_size : BitVec 32) (queue : Queue) : Prop where
  capacity_eq : queue.capacity = capacity
  element_size_eq : queue.elementSize = element_size
  front_lt : queue.front < capacity
  rear_lt : queue.rear < capacity

variable {capacity element_size : BitVec 32}

theorem umod_lt {capacity x : BitVec 32} (hpos : 0 < capacity.toNat) : x % capacity < capacity := by
  show (x % capacity).toNat < capacity.toNat
  rw [BitVec.toNat_umod]
  exact Nat.mod_lt _ hpos

theorem Cursors.enqueue (hpos : 0 < capacity.toNat) (h : Cursors capacity element_size queue)
    (hop : enqueue (some queue) (some x) = some (status, q)) :
    Cursors capacity element_size (q.getD queue) := by
  obtain ⟨hcapacity, hsize, hfront, hrear⟩ := h
  rw [enqueue_eq] at hop
  split at hop
  · obtain ⟨buffer, -, hres⟩ := Option.bind_eq_some_iff.mp hop
    cases hres
    -- `rear` moves on, a remainder by the capacity
    exact ⟨hcapacity, hsize, hfront, by rw [hcapacity]; exact umod_lt hpos⟩
  · cases hop
    exact ⟨hcapacity, hsize, hfront, hrear⟩

theorem Cursors.dequeue (hpos : 0 < capacity.toNat) (h : Cursors capacity element_size queue)
    (hop : dequeue (some queue) (some out) = some (status, q, out')) :
    Cursors capacity element_size (q.getD queue) := by
  obtain ⟨hcapacity, hsize, hfront, hrear⟩ := h
  rw [dequeue_eq] at hop
  split at hop
  · obtain ⟨element, -, hres⟩ := Option.bind_eq_some_iff.mp hop
    cases hres
    -- `front` moves on the same way
    exact ⟨hcapacity, hsize, by rw [hcapacity]; exact umod_lt hpos, hrear⟩
  · cases hop
    exact ⟨hcapacity, hsize, hfront, hrear⟩

/-- The other calls leave the queue as it is. -/
theorem Cursors.step (hpos : 0 < capacity.toNat) (h : Cursors capacity element_size queue)
    {call : Call (List Byte)} {reply} (hstep : step queue call = some (reply, queue')) :
    Cursors capacity element_size queue' := by
  cases call with
  | enqueue x =>
      obtain ⟨⟨status, q⟩, hop, heq⟩ := Option.bind_eq_some_iff.mp hstep
      cases heq
      exact h.enqueue hpos hop
  | dequeue out =>
      obtain ⟨⟨status, q, out'⟩, hop, heq⟩ := Option.bind_eq_some_iff.mp hstep
      cases heq
      exact h.dequeue hpos hop
  | front out =>
      obtain ⟨⟨status, out'⟩, -, heq⟩ := Option.bind_eq_some_iff.mp hstep
      cases heq
      exact h
  | rear out =>
      obtain ⟨⟨status, out'⟩, -, heq⟩ := Option.bind_eq_some_iff.mp hstep
      cases heq
      exact h
  | full =>
      cases hstep
      exact h
  | empty =>
      cases hstep
      exact h

/-- Every access means the slot of a cursor. -/
theorem Cursors.accesses_meet (hpos : 0 < capacity.toNat)
    (hfits : LastOffsetFits capacity.toNat element_size.toNat)
    (h : Cursors capacity element_size queue) (call : Call (List Byte)) :
    ∀ a ∈ accesses queue call, a.Meets capacity.toNat element_size.toNat := by
  obtain ⟨hcapacity, hsize, hfront, hrear⟩ := h
  have hnext : (enqueueAccess queue).Meets capacity.toNat element_size.toNat := by
    rw [enqueueAccess, hsize, hcapacity]
    exact slotAt_meets hfits (umod_lt hpos)
  have hfrontAt :
      (slotAt queue.front queue.elementSize).Meets capacity.toNat element_size.toNat := by
    rw [hsize]
    exact slotAt_meets hfits hfront
  have hrearAt :
      (slotAt queue.rear queue.elementSize).Meets capacity.toNat element_size.toNat := by
    rw [hsize]
    exact slotAt_meets hfits hrear
  -- each call has one access or none
  have hguard : ∀ (guard : Bool) (a : SlotAccess), a.Meets capacity.toNat element_size.toNat →
      ∀ b ∈ (if guard then [a] else []), b.Meets capacity.toNat element_size.toNat := by
    intro guard a ha b hb
    cases guard with
    | false => cases hb
    | true => rwa [List.mem_singleton.mp hb]
  cases call with
  | enqueue x => exact hguard _ _ hnext
  | dequeue out => exact hguard _ _ hfrontAt
  | front out => exact hguard _ _ hfrontAt
  | rear out => exact hguard _ _ hrearAt
  | full => exact fun _ ha => absurd ha List.not_mem_nil
  | empty => exact fun _ ha => absurd ha List.not_mem_nil

/-! ## Filling the queue

Enqueues alone fill the slots from 0 on. They do not fail, for a wrapped offset is smaller than
the one that was meant and the buffer has room for that one.
-/

/-- `n` elements have been stored into the first `n` slots. -/
structure Filled (capacity element_size : BitVec 32) (n : Nat) (queue : Queue) : Prop where
  capacity_eq : queue.capacity = capacity
  element_size_eq : queue.elementSize = element_size
  size_eq : queue.size.toNat = n
  next_eq : ((queue.rear + 1#32) % capacity).toNat = n
  buffer_le : capacity.toNat * element_size.toNat ≤ queue.buffer.length

theorem Filled.full_eq {n : Nat} (h : Filled capacity element_size n queue)
    (hn : n < capacity.toNat) : queue.full = false := by
  rw [full, beq_eq_decide_toNat, h.size_eq, h.capacity_eq, decide_eq_false]
  omega

/-- One more element, while the slot it makes the next one is still below the capacity. The copy
stays inside the buffer even where its offset has wrapped. -/
theorem Filled.enqueue {n : Nat} (h : Filled capacity element_size n queue)
    (hn : n + 1 < capacity.toNat) {x : List Byte} (hx : x.length = element_size.toNat) :
    ∃ queue', step queue (.enqueue x) = some (⟨true, none⟩, queue') ∧
      Filled capacity element_size (n + 1) queue' := by
  have hfull := h.full_eq (Nat.lt_of_succ_lt hn)
  obtain ⟨hcapacity, hsize, hcount, hnext, hbuffer⟩ := h
  have hcap := capacity.isLt
  have hoffset : (enqueueAccess queue).offset.toNat ≤ n * element_size.toNat := by
    rw [enqueueAccess, hsize, hcapacity, ← hnext]
    exact slotAt_offset_le _ _
  have hend := Slots.slot_end_le element_size.toNat (show n < capacity.toNat by omega)
  -- the buffer has room for all slots in front of the one that is meant, and for one more
  obtain ⟨buffer, hcopy, hlength⟩ := Slots.exists_copy
    (show (enqueueAccess queue).offset.toNat + element_size.toNat ≤ queue.buffer.length by omega) hx
  refine ⟨{ queue with
    buffer := buffer, rear := (queue.rear + 1#32) % queue.capacity, size := queue.size + 1#32 },
    ?_, hcapacity, hsize, ?_, ?_, ?_⟩
  · show (Queue.enqueue (some queue) (some x)).bind _ = _
    rw [enqueue_eq, hfull, hsize, hcopy]
    rfl
  · rw [toNat_succ_of_lt (by omega), hcount]
  · show (((queue.rear + 1#32) % queue.capacity + 1#32) % capacity).toNat = n + 1
    rw [hcapacity, BitVec.toNat_umod, toNat_succ_of_lt (by omega), hnext, Nat.mod_eq_of_lt hn]
  · rwa [hlength]

theorem hasSize_enqueue {n : Nat} {x : List Byte} (hx : x.length = n) :
    HasSize n (.enqueue x) := by
  intro y hy
  cases hy
  exact hx

/-- Every slot becomes the next one. -/
theorem exists_filled {queue₀ : Queue} (h₀ : Filled capacity element_size 0 queue₀) (n : Nat)
    (hn : n ≤ capacity.toNat - 1) :
    ∃ queue, Refinement.Reaches step (HasSize element_size.toNat) queue₀ queue ∧
      Filled capacity element_size n queue := by
  refine Refinement.exists_reaches_of_progress ?_ h₀ n hn
  intro n hn queue h
  have hx : (List.replicate element_size.toNat (0 : Byte)).length = element_size.toNat :=
    List.length_replicate
  obtain ⟨queue', hstep, h'⟩ := h.enqueue (by omega) hx
  exact ⟨_, _, queue', hasSize_enqueue hx, hstep, h'⟩

/-! ## All runs

If the last offset fits, so do all, and the cursors name slots. If it does not, the enqueue into
the last slot is reached, and its offset is wrong.
-/

/-- **The offsets of the queue are exact precisely when the last one fits.** -/
theorem offsetsExact_iff {queue₀ : Queue} (hcursors : Cursors capacity element_size queue₀)
    (hfilled : Filled capacity element_size 0 queue₀) :
    OffsetsExact accesses (Refinement.Reaches step (HasSize element_size.toNat) queue₀)
        (HasSize element_size.toNat) capacity.toNat element_size.toNat
      ↔ LastOffsetFits capacity.toNat element_size.toNat := by
  have hpos : 0 < capacity.toNat := Nat.zero_lt_of_lt hcursors.front_lt
  constructor
  · intro hexact
    -- the state in which only the last slot is left
    obtain ⟨queue, hreach, h⟩ := exists_filled hfilled (capacity.toNat - 1) le_rfl
    have hmem := enqueueAccess_mem (h.full_eq (by omega)) (List.replicate element_size.toNat 0)
    have hsize := hasSize_enqueue (List.length_replicate (n := element_size.toNat) (a := (0 : Byte)))
    have hoffset := hexact.exact queue _ hreach hsize _ hmem
    rw [enqueueAccess, h.capacity_eq, h.element_size_eq] at hoffset
    exact lastOffsetFits_of_slotAt h.next_eq hoffset
  · intro hfits
    apply offsetsExact_of_meets
    intro queue call hreach _
    have h := hreach.invariant (fun _ _ _ _ hI _ hstep => Cursors.step hpos hI hstep) hcursors
    exact h.accesses_meet hpos hfits call

/-- After `Queue_init` the cursors are in place, and the first slot is the next one. -/
theorem init_filled {queue : Queue} {buffer : List Byte}
    (hinit : (init queue capacity element_size (some buffer)).1 = true)
    (hbuf : capacity.toNat * element_size.toNat ≤ buffer.length) :
    Cursors capacity element_size (init queue capacity element_size (some buffer)).2 ∧
      Filled capacity element_size 0 (init queue capacity element_size (some buffer)).2 := by
  have hargs : element_size ≠ 0#32 ∧ capacity ≠ 0#32 := by
    by_contra hne
    simp [init, hne] at hinit
  have hpos : 0 < capacity.toNat := toNat_pos_of_ne_zero hargs.2
  have hrear := toNat_pred_of_pos hpos
  have hqueue : (init queue capacity element_size (some buffer)).2
      = { front := 0#32, rear := capacity - 1#32, size := 0#32, capacity := capacity,
          elementSize := element_size, buffer := buffer } := by
    simp [init, hargs]
  rw [hqueue]
  refine ⟨⟨rfl, rfl, hpos, ?_⟩, rfl, rfl, rfl, ?_, hbuf⟩
  · show (capacity - 1#32).toNat < capacity.toNat
    omega
  · show ((capacity - 1#32 + 1#32) % capacity).toNat = 0
    -- `rear` starts at the last slot, so the next one is slot 0
    rw [BitVec.sub_add_cancel, BitVec.umod_self]
    rfl

end Queue
end IMUtility
