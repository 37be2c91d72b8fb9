import Mathlib.Data.Nat.ModEq
import IMUtility.Lib.Refinement
import IMUtility.Queue.Basic

/-! # The queue is a bounded FIFO

The specification is a list with a length bound. The ring represents it by three cursors that
repeat each other: `front` and `size` say which slots are live, and `rear` is the slot before the
next free one. `Represents` ties them and the live slots together; each operation preserves it,
and `queue_refines_fifo` is the statement about all runs from `Queue_init`. -/

namespace IMUtility

/-! ## The specification

A fetching call hands the client's object back if there is nothing to fetch, as the C function
leaves it alone, so that a reply tells what the object holds in either case.
-/

namespace Fifo

open Refinement (Reply)

variable {α : Type}

/-- The calls of a client. The fetching calls bring the object the element is copied to. -/
inductive Call (α : Type) where
  | enqueue (element : α)
  | dequeue (element : α)
  | front (element : α)
  | rear (element : α)
  | full
  | empty

/-- The bounded FIFO, oldest element first. -/
def step (capacity : Nat) (l : List α) : Call α → Reply α × List α
  | .enqueue x => if l.length = capacity then (⟨false, none⟩, l) else (⟨true, none⟩, l ++ [x])
  | .dequeue out =>
    match l with
    | []      => (⟨false, some out⟩, [])
    | x :: xs => (⟨true, some x⟩, xs)
  | .front out =>
    match l.head? with
    | none   => (⟨false, some out⟩, l)
    | some x => (⟨true, some x⟩, l)
  | .rear out =>
    match l.getLast? with
    | none   => (⟨false, some out⟩, l)
    | some x => (⟨true, some x⟩, l)
  | .full => (⟨l.length = capacity, none⟩, l)
  | .empty => (⟨l.length = 0, none⟩, l)

/-- The element a call carries. -/
def Call.element? : Call α → Option α
  | .enqueue x | .dequeue x | .front x | .rear x => some x
  | .full | .empty => none

/-- The object that a fetching call brings. -/
def Call.out? : Call α → Option α
  | .dequeue x | .front x | .rear x => some x
  | .enqueue _ | .full | .empty => none

end Fifo

namespace Queue

open Fifo
open Refinement (Reply succeeds_true succeeds_bind eq_of_guarded_false)

/-- One call of the C interface, with pointers that are not null. -/
def step (queue : Queue) : Call (List Byte) → Option (Reply (List Byte) × Queue)
  | .enqueue element => do
    let (status, queue') ← enqueue (some queue) (some element)
    some (⟨status, none⟩, queue'.getD queue)
  | .dequeue element => do
    let (status, queue', element) ← dequeue (some queue) (some element)
    some (⟨status, element⟩, queue'.getD queue)
  | .front element => do
    let (status, element) ← getFront (some queue) (some element)
    some (⟨status, element⟩, queue)
  | .rear element => do
    let (status, element) ← getRear (some queue) (some element)
    some (⟨status, element⟩, queue)
  | .full => some (⟨queue.full, none⟩, queue)
  | .empty => some (⟨queue.empty, none⟩, queue)

/-! ## The ring arithmetic

Element `i` of the list is in slot `(front + i) % capacity`. Up to `capacity` elements these slots
are different, which is all that is needed of the ring: a store into the slot behind the last
element changes no live one.

The product of the sizes is at most `2 ^ 32`, so that the offset of a slot does not wrap. What
happens beyond is in `IMUtility.Queue.Offsets`.
-/

/-- Positions less than a full turn apart are different slots. -/
theorem ring_ne {cap f i j : Nat} (hi : i < cap) (hj : j < cap) (hne : i ≠ j) :
    (f + i) % cap ≠ (f + j) % cap := by
  intro h
  have hmod : i ≡ j [MOD cap] := Nat.ModEq.add_left_cancel' f h
  exact hne (Nat.ModEq.eq_of_lt_of_lt hmod hi hj)

/-- The invariant: `queue` holds the list `l`. -/
structure Represents (capacity element_size : Nat) (queue : Queue) (l : List (List Byte)) :
    Prop where
  capacity_eq : queue.capacity.toNat = capacity
  element_size_eq : queue.elementSize.toNat = element_size
  element_size_pos : 0 < element_size
  product_le : capacity * element_size ≤ 2 ^ 32
  buffer_le : capacity * element_size ≤ queue.buffer.length
  front_lt : queue.front.toNat < capacity
  rear_lt : queue.rear.toNat < capacity
  size_eq : queue.size.toNat = l.length
  length_le : l.length ≤ capacity
  /-- The slot after `rear` is the first free one. -/
  rear_succ : (queue.rear.toNat + 1) % capacity = (queue.front.toNat + l.length) % capacity
  slot_eq : ∀ i (hi : i < l.length),
    Slots.slot element_size queue.buffer ((queue.front.toNat + i) % capacity) = l[i]

variable {capacity element_size : Nat} {queue : Queue} {l : List (List Byte)}

namespace Represents

theorem capacity_lt (h : Represents capacity element_size queue l) : capacity < 2 ^ 32 := by
  have hlt := queue.capacity.isLt
  have heq := h.capacity_eq
  omega

theorem capacity_pos (h : Represents capacity element_size queue l) : 0 < capacity :=
  Nat.zero_lt_of_lt h.front_lt

/-- A cursor plus one, taken modulo the capacity, does not wrap at `2 ^ 32`. -/
theorem toNat_succ (h : Represents capacity element_size queue l) {x : BitVec 32}
    (hx : x.toNat < capacity) : ((x + 1#32) % queue.capacity).toNat = (x.toNat + 1) % capacity := by
  have hcap := h.capacity_lt
  rw [BitVec.toNat_umod, h.capacity_eq, toNat_succ_of_lt (by omega)]

/-- The offset of a slot does not wrap. -/
theorem toNat_offset (h : Represents capacity element_size queue l) {x : BitVec 32}
    (hx : x.toNat < capacity) : (x * queue.elementSize).toNat = x.toNat * element_size := by
  have hpos := h.element_size_pos
  have hprod := h.product_le
  rw [← h.element_size_eq] at hpos hprod ⊢
  exact toNat_mul_of_lt hx hpos hprod

theorem full_eq (h : Represents capacity element_size queue l) :
    queue.full = decide (l.length = capacity) := by
  rw [full, beq_eq_decide_toNat, h.size_eq, h.capacity_eq]

theorem empty_eq (h : Represents capacity element_size queue l) :
    queue.empty = decide (l.length = 0) := by
  rw [empty, beq_eq_decide_toNat, h.size_eq]
  rfl

end Represents

/-! ## The operations

Each is followed once, with room or with an element to fetch. The refusing branches leave
everything, and are settled in the proof of `step_refines`.
-/

/-- Enqueue on a queue that is not full: the element goes into the slot after the last. -/
theorem Represents.enqueue (h : Represents capacity element_size queue l) {x : List Byte}
    (hx : x.length = element_size) (hroom : l.length < capacity) :
    ∃ queue', Queue.enqueue (some queue) (some x) = some (true, some queue') ∧
      Represents capacity element_size queue' (l ++ [x]) := by
  have hcap := h.capacity_lt
  have hnext := h.toNat_succ h.rear_lt
  have hnext_lt : ((queue.rear + 1#32) % queue.capacity).toNat < capacity := by
    rw [hnext]; exact Nat.mod_lt _ h.capacity_pos
  have hfull : queue.full = false := by
    rw [h.full_eq, decide_eq_false]; omega
  have hcopy := Slots.copy_to_slot h.buffer_le hnext_lt hx
  refine ⟨{ queue with
    buffer := Slots.setSlot element_size queue.buffer ((queue.rear + 1#32) % queue.capacity).toNat x,
    rear := (queue.rear + 1#32) % queue.capacity, size := queue.size + 1#32 }, ?_, ?_⟩
  · simp only [Queue.enqueue, hfull, Bool.not_false, if_true, h.toNat_offset hnext_lt,
      h.element_size_eq, hcopy]
    rfl
  · have hrear : ((queue.rear + 1#32) % queue.capacity).toNat
        = (queue.front.toNat + l.length) % capacity := by rw [hnext, h.rear_succ]
    -- only the slot behind the last element, `rear` and the size have changed
    refine ⟨h.capacity_eq, h.element_size_eq, h.element_size_pos, h.product_le, ?_, h.front_lt,
      hnext_lt, ?_, ?_, ?_, ?_⟩
    · rw [Slots.length_setSlot h.buffer_le hnext_lt hx]
      exact h.buffer_le
    · rw [toNat_succ_of_lt (by rw [h.size_eq]; omega), h.size_eq, List.length_append,
        List.length_singleton]
    · rw [List.length_append, List.length_singleton]; omega
    · rw [hrear, Nat.mod_add_mod, List.length_append, List.length_singleton, Nat.add_assoc]
    · intro i hi
      rw [List.length_append, List.length_singleton] at hi
      rw [hrear]
      -- the new element stands in the slot written; the live slots are others
      by_cases hlast : i = l.length
      · subst hlast
        rw [Slots.slot_setSlot_self h.buffer_le (hrear ▸ hnext_lt) hx]
        simp
      · have hil : i < l.length := by omega
        rw [Slots.slot_setSlot_of_ne h.buffer_le (hrear ▸ hnext_lt) hx
          (ring_ne (by omega) hroom hlast), h.slot_eq i hil, List.getElem_append_left hil]

/-- Dequeue on a queue that is not empty: the element of the front slot comes out. -/
theorem Represents.dequeue {x : List Byte} (h : Represents capacity element_size queue (x :: l))
    {out : List Byte} (hout : out.length = element_size) :
    ∃ queue', Queue.dequeue (some queue) (some out) = some (true, some queue', some x) ∧
      Represents capacity element_size queue' l := by
  have hlen := h.length_le
  rw [List.length_cons] at hlen
  have hempty : queue.empty = false := by
    rw [h.empty_eq]; simp
  have hnext := h.toNat_succ h.front_lt
  have hcopy := Slots.copy_from_slot h.buffer_le h.front_lt hout
  have hslot := h.slot_eq 0 (by simp)
  rw [Nat.add_zero, Nat.mod_eq_of_lt h.front_lt, List.getElem_cons_zero] at hslot
  refine ⟨{ queue with
    front := (queue.front + 1#32) % queue.capacity, size := queue.size - 1#32 }, ?_, ?_⟩
  · simp only [Queue.dequeue, hempty, Bool.not_false, if_true, h.toNat_offset h.front_lt,
      h.element_size_eq, hcopy, hslot]
    rfl
  · refine ⟨h.capacity_eq, h.element_size_eq, h.element_size_pos, h.product_le, h.buffer_le, ?_,
      h.rear_lt, ?_, by omega, ?_, ?_⟩
    · rw [hnext]
      exact Nat.mod_lt _ h.capacity_pos
    · rw [toNat_pred_of_pos (by rw [h.size_eq]; exact Nat.succ_pos _), h.size_eq, List.length_cons,
        Nat.add_sub_cancel]
    · rw [hnext, Nat.mod_add_mod, h.rear_succ, List.length_cons]
      congr 1
      omega
    · intro i hi
      -- `front` has moved by one, and so has every position of the list
      have hsucc := h.slot_eq (i + 1) (by simpa using hi)
      rw [List.getElem_cons_succ] at hsucc
      rw [hnext, Nat.mod_add_mod, ← hsucc]
      congr 2
      omega

/-- Copying the element at a cursor out. -/
theorem Represents.peek (h : Represents capacity element_size queue l)
    (cursor : Queue → BitVec 32) (i : Nat) (hi : i < l.length)
    (hcursor : (cursor queue).toNat = (queue.front.toNat + i) % capacity)
    {out : List Byte} (hout : out.length = element_size) :
    Queue.peek cursor (some queue) (some out) = some (true, some l[i]) := by
  have hempty : queue.empty = false := by
    rw [h.empty_eq, decide_eq_false]; omega
  have hlt : (cursor queue).toNat < capacity := by
    rw [hcursor]; exact Nat.mod_lt _ h.capacity_pos
  have hcopy := Slots.copy_from_slot h.buffer_le hlt hout
  simp only [Queue.peek, hempty, Bool.not_false, if_true, h.toNat_offset hlt, h.element_size_eq,
    hcopy]
  rw [hcursor, h.slot_eq i hi]
  rfl

/-- `rear` points at the last element. -/
theorem Represents.rear_eq (h : Represents capacity element_size queue l) (hne : 0 < l.length) :
    queue.rear.toNat = (queue.front.toNat + (l.length - 1)) % capacity := by
  -- `rear_succ` says so of the next slot; one can be cancelled modulo the capacity
  have hmod : queue.rear.toNat + 1 ≡ queue.front.toNat + (l.length - 1) + 1 [MOD capacity] := by
    rw [Nat.add_assoc queue.front.toNat, Nat.sub_add_cancel hne]
    exact h.rear_succ
  have hrear : queue.rear.toNat ≡ queue.front.toNat + (l.length - 1) [MOD capacity] :=
    Nat.ModEq.add_right_cancel' 1 hmod
  rw [Nat.ModEq, Nat.mod_eq_of_lt h.rear_lt] at hrear
  exact hrear

/-! ## All runs

One call refines one step, and a run refines a run. `Queue_init` starts the relation with the
empty list, for `rear` plus one is a multiple of the capacity.
-/

/-- Every element a call brings has the size of the queue's elements. -/
def HasSize (element_size : Nat) (call : Call (List Byte)) : Prop :=
  ∀ x, call.element? = some x → x.length = element_size

/-- **One call**, in the invariant: the reply of the FIFO, and the invariant again. -/
theorem step_refines :
    Refinement.StepRefines step (Fifo.step capacity) (HasSize element_size)
      (Represents capacity element_size) := by
  intro queue l call h hsize
  cases call with
  | enqueue x =>
      have hx := hsize x rfl
      by_cases hfull : l.length = capacity
      · refine ⟨queue, ?_, ?_⟩
        · simp [step, Queue.enqueue, h.full_eq, Fifo.step, hfull]
        · simpa [Fifo.step, hfull] using h
      · obtain ⟨queue', hstep, h'⟩ := h.enqueue hx (by have := h.length_le; omega)
        refine ⟨queue', ?_, ?_⟩
        · simp [step, hstep, Fifo.step, hfull]
        · simpa [Fifo.step, hfull] using h'
  | dequeue out =>
      cases l with
      | nil => exact ⟨queue, by simp [step, Queue.dequeue, h.empty_eq, Fifo.step], h⟩
      | cons x l =>
          obtain ⟨queue', hstep, h'⟩ := h.dequeue (hsize out rfl)
          exact ⟨queue', by simp [step, hstep, Fifo.step], h'⟩
  | front out =>
      cases l with
      | nil =>
          exact ⟨queue, by simp [step, getFront, Queue.peek, h.empty_eq, Fifo.step], h⟩
      | cons x l =>
          have hpeek := h.peek Queue.front 0 (by simp)
            (by rw [Nat.add_zero, Nat.mod_eq_of_lt h.front_lt]) (hsize out rfl)
          exact ⟨queue, by simp [step, getFront, hpeek, Fifo.step], h⟩
  | rear out =>
      by_cases hnil : l.length = 0
      · have hl := List.length_eq_zero_iff.mp hnil
        subst hl
        exact ⟨queue, by simp [step, getRear, Queue.peek, h.empty_eq, Fifo.step], h⟩
      · have hpos : 0 < l.length := Nat.pos_of_ne_zero hnil
        have hpeek := h.peek Queue.rear (l.length - 1) (by omega) (h.rear_eq hpos) (hsize out rfl)
        -- `rear` names the last element of the list
        have hlast : l.getLast? = some l[l.length - 1] := by
          rw [List.getLast?_eq_getElem?, List.getElem?_eq_getElem (by omega)]
        exact ⟨queue, by simp [step, getRear, hpeek, Fifo.step, hlast], by
          simpa [Fifo.step, hlast] using h⟩
  | full => exact ⟨queue, by simp [step, h.full_eq, Fifo.step], h⟩
  | empty => exact ⟨queue, by simp [step, h.empty_eq, Fifo.step], h⟩

/-- `Queue_init` establishes the invariant for the empty list. -/
theorem represents_init {queue : Queue} {capacity element_size : BitVec 32} {buffer : List Byte}
    (hinit : (init queue capacity element_size (some buffer)).1 = true)
    (hprod : capacity.toNat * element_size.toNat ≤ 2 ^ 32)
    (hbuf : capacity.toNat * element_size.toNat ≤ buffer.length) :
    Represents capacity.toNat element_size.toNat
      (init queue capacity element_size (some buffer)).2 [] := by
  have hargs : element_size ≠ 0#32 ∧ capacity ≠ 0#32 := by
    by_contra hne
    simp [init, hne] at hinit
  have hpos : 0 < element_size.toNat ∧ 0 < capacity.toNat :=
    ⟨toNat_pos_of_ne_zero hargs.1, toNat_pos_of_ne_zero hargs.2⟩
  have hrear := toNat_pred_of_pos hpos.2
  simp only [init, hargs, ne_eq, not_false_eq_true, and_self, if_true]
  refine ⟨rfl, rfl, hpos.1, hprod, hbuf, hpos.2, by rw [hrear]; omega, rfl, by simp, ?_, by simp⟩
  -- `rear` plus one is the capacity, and `front` is 0
  rw [hrear, Nat.sub_add_cancel hpos.2]
  simp

/-! ### Failing calls

These need no invariant: they are read off the operations. -/

theorem enqueue_false {queue : Queue} {x : List Byte} {queue' : Ptr Queue}
    (h : enqueue (some queue) (some x) = some (false, queue')) : queue' = some queue :=
  eq_of_guarded_false (succeeds_bind fun _ => succeeds_true _) h

theorem dequeue_false {queue : Queue} {out : List Byte} {queue' : Ptr Queue}
    {out' : Ptr (List Byte)}
    (h : dequeue (some queue) (some out) = some (false, queue', out')) :
    queue' = some queue ∧ out' = some out :=
  Prod.mk.inj (eq_of_guarded_false (succeeds_bind fun _ => succeeds_true _) h)

theorem peek_false {cursor : Queue → BitVec 32} {queue : Queue} {out : List Byte}
    {out' : Ptr (List Byte)}
    (h : peek cursor (some queue) (some out) = some (false, out')) : out' = some out :=
  eq_of_guarded_false (succeeds_bind fun _ => succeeds_true _) h

/-- A call with a false status changes neither the queue nor the client's object. -/
theorem step_false {queue queue' : Queue} {call : Call (List Byte)} {reply : Reply (List Byte)}
    (hstep : step queue call = some (reply, queue')) (hfalse : reply.status = false) :
    queue' = queue ∧ reply.element = call.out? := by
  cases call with
  | enqueue x =>
      obtain ⟨⟨status, q⟩, hop, heq⟩ := Option.bind_eq_some_iff.mp hstep
      cases heq
      cases hfalse
      rw [enqueue_false hop]
      exact ⟨rfl, rfl⟩
  | dequeue out =>
      obtain ⟨⟨status, q, out'⟩, hop, heq⟩ := Option.bind_eq_some_iff.mp hstep
      cases heq
      cases hfalse
      obtain ⟨hq, hout⟩ := dequeue_false hop
      rw [hq, hout]
      exact ⟨rfl, rfl⟩
  | front out =>
      obtain ⟨⟨status, out'⟩, hop, heq⟩ := Option.bind_eq_some_iff.mp hstep
      cases heq
      cases hfalse
      exact ⟨rfl, peek_false hop⟩
  | rear out =>
      obtain ⟨⟨status, out'⟩, hop, heq⟩ := Option.bind_eq_some_iff.mp hstep
      cases heq
      cases hfalse
      exact ⟨rfl, peek_false hop⟩
  | full => cases hstep; exact ⟨rfl, rfl⟩
  | empty => cases hstep; exact ⟨rfl, rfl⟩

/-- **The queue refines a bounded FIFO.** After a successful `Queue_init` with a buffer of
`capacity * element_size` bytes or more, every sequence of calls gets the replies of the list
bounded by `capacity`; and in every state so reached, a call that fails leaves the queue and the
client's object as they were. -/
theorem queue_refines_fifo (queue : Queue) (capacity element_size : BitVec 32) (buffer : List Byte)
    (hinit : (init queue capacity element_size (some buffer)).1 = true)
    (hprod : capacity.toNat * element_size.toNat ≤ 2 ^ 32)
    (hbuf : capacity.toNat * element_size.toNat ≤ buffer.length)
    (calls : List (Call (List Byte))) (hcalls : ∀ c ∈ calls, HasSize element_size.toNat c) :
    ∃ queue', Refinement.run step (init queue capacity element_size (some buffer)).2 calls
        = some ((Refinement.specRun (Fifo.step capacity.toNat) [] calls).1, queue') ∧
      ∀ call reply queue'', step queue' call = some (reply, queue'') → reply.status = false →
        queue'' = queue' ∧ reply.element = call.out? := by
  obtain ⟨queue', hrun, -⟩ := Refinement.run_refines step_refines
    (represents_init hinit hprod hbuf) calls hcalls
  exact ⟨queue', hrun, fun call reply queue'' hstep hfalse => step_false hstep hfalse⟩

/-- Two one-byte slots: the third byte is refused, and the fourth wraps around. -/
theorem queue_refines_fifo_wrap :
    ∃ queue', Refinement.run step
        (init ⟨0, 0, 0, 0, 0, []⟩ 2#32 1#32 (some [0xAA#8, 0xAA#8])).2
        [.enqueue [1#8], .enqueue [2#8], .enqueue [3#8], .dequeue [0#8], .enqueue [4#8],
          .rear [0#8], .dequeue [0#8], .dequeue [0#8], .dequeue [9#8]]
      = some ([⟨true, none⟩, ⟨true, none⟩, ⟨false, none⟩, ⟨true, some [1#8]⟩, ⟨true, none⟩,
          ⟨true, some [4#8]⟩, ⟨true, some [2#8]⟩, ⟨true, some [4#8]⟩, ⟨false, some [9#8]⟩],
          queue') := by
  obtain ⟨queue', hrun, -⟩ := queue_refines_fifo ⟨0, 0, 0, 0, 0, []⟩ 2#32 1#32 [0xAA#8, 0xAA#8]
    rfl (by decide) (by decide)
    [.enqueue [1#8], .enqueue [2#8], .enqueue [3#8], .dequeue [0#8], .enqueue [4#8],
      .rear [0#8], .dequeue [0#8], .dequeue [0#8], .dequeue [9#8]]
    (by simp [HasSize, Call.element?])
  exact ⟨queue', hrun⟩

end Queue
end IMUtility
