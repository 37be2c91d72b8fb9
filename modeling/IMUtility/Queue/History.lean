import IMUtility.Queue.Refinement

/-! # The queue loses nothing

What has been accepted is what has been delivered and what is still stored, in this order: no
element is lost, delivered twice, or overtaken. Every call keeps the balance
(`step_conserves`), and through the refinement the ring does. -/

namespace IMUtility

namespace Fifo

open Refinement (Reply specRun specRun_cons)

variable {α : Type} {capacity : Nat}

/-! ## What comes and what leaves

Both are told from the calls and their replies. A peek takes nothing out, so of the fetching calls
only `dequeue` delivers.
-/

/-- The element that a call and its reply put into the queue. -/
def acceptedElement : Call α × Reply α → Option α
  | (.enqueue x, reply) => if reply.status then some x else none
  | _ => none

/-- The element that a call and its reply took out of it. -/
def deliveredElement : Call α × Reply α → Option α
  | (.dequeue _, reply) => if reply.status then reply.element else none
  | _ => none

/-- What has been accepted, in order. -/
def accepted (trace : List (Call α × Reply α)) : List α := trace.filterMap acceptedElement

/-- What has been delivered, in order. -/
def delivered (trace : List (Call α × Reply α)) : List α := trace.filterMap deliveredElement

theorem accepted_cons (e : Call α × Reply α) (trace : List (Call α × Reply α)) :
    accepted (e :: trace) = accepted [e] ++ accepted trace := by
  rw [accepted, ← List.singleton_append, List.filterMap_append]
  rfl

theorem delivered_cons (e : Call α × Reply α) (trace : List (Call α × Reply α)) :
    delivered (e :: trace) = delivered [e] ++ delivered trace := by
  rw [delivered, ← List.singleton_append, List.filterMap_append]
  rfl

/-- One call keeps the balance. -/
theorem step_conserves (l : List α) (call : Call α) :
    l ++ accepted [(call, (step capacity l call).1)]
      = delivered [(call, (step capacity l call).1)] ++ (step capacity l call).2 := by
  cases call with
  | enqueue x =>
      simp only [step]
      split
      case isTrue => exact List.append_nil l
      case isFalse => rfl
  | dequeue out =>
      -- nothing leaves an empty queue
      cases l with
      | nil => rfl
      | cons x xs => exact List.append_nil (x :: xs)
  | front out =>
      cases l with
      | nil => rfl
      | cons x xs => exact List.append_nil (x :: xs)
  | rear out =>
      have hsame : (step capacity l (.rear out)).2 = l := by
        simp only [step]
        split <;> rfl
      rw [hsame]
      exact List.append_nil l
  | full => exact List.append_nil l
  | empty => exact List.append_nil l

/-- So does a run. By induction on the calls. -/
theorem specRun_conserves (l : List α) (calls : List (Call α)) :
    l ++ accepted (calls.zip (specRun (step capacity) l calls).1)
      = delivered (calls.zip (specRun (step capacity) l calls).1)
        ++ (specRun (step capacity) l calls).2 := by
  induction calls generalizing l with
  | nil => exact List.append_nil l
  | cons call calls ih =>
      rw [specRun_cons, List.zip_cons_cons, accepted_cons, delivered_cons, ← List.append_assoc,
        step_conserves, List.append_assoc, ih, List.append_assoc]

end Fifo

namespace Queue

open Fifo

/-! ## Through the ring

The slots from `front` on hold the list of the refinement, so what is proved of the list is proved
of them.
-/

/-- The stored elements, oldest first, as the ring holds them. -/
def contents (queue : Queue) : List (List Byte) :=
  (List.range queue.size.toNat).map fun i =>
    Slots.slot queue.elementSize.toNat queue.buffer
      ((queue.front.toNat + i) % queue.capacity.toNat)

theorem Represents.contents_eq {capacity element_size : Nat} {queue : Queue}
    {l : List (List Byte)} (h : Represents capacity element_size queue l) : contents queue = l := by
  unfold contents
  apply List.ext_getElem
  · rw [List.length_map, List.length_range, h.size_eq]
  · intro i _ hi
    rw [List.getElem_map, List.getElem_range, h.element_size_eq, h.capacity_eq, h.slot_eq i hi]

/-- **Nothing is lost, repeated or overtaken.** Over every run after a successful `Queue_init`, the
accepted elements are the delivered ones followed by the stored ones, and no more are stored than
fit. -/
theorem queue_conserves (queue : Queue) (capacity element_size : BitVec 32) (buffer : List Byte)
    (hinit : (init queue capacity element_size (some buffer)).1 = true)
    (hprod : capacity.toNat * element_size.toNat ≤ 2 ^ 32)
    (hbuf : capacity.toNat * element_size.toNat ≤ buffer.length)
    (calls : List (Call (List Byte))) (hcalls : ∀ c ∈ calls, HasSize element_size.toNat c) :
    ∃ replies queue', Refinement.run step (init queue capacity element_size (some buffer)).2 calls
        = some (replies, queue') ∧
      accepted (calls.zip replies) = delivered (calls.zip replies) ++ contents queue' ∧
      (contents queue').length ≤ capacity.toNat := by
  obtain ⟨queue', hrun, hrep⟩ := Refinement.run_refines step_refines
    (represents_init hinit hprod hbuf) calls hcalls
  refine ⟨_, queue', hrun, ?_⟩
  rw [hrep.contents_eq]
  exact ⟨specRun_conserves [] calls, hrep.length_le⟩

/-- Two one-byte slots: the third byte is refused, and the fourth wraps around. -/
theorem queue_conserves_wrap :
    ∃ replies queue', Refinement.run step
        (init ⟨0, 0, 0, 0, 0, []⟩ 2#32 1#32 (some [0xAA#8, 0xAA#8])).2
        [.enqueue [1#8], .enqueue [2#8], .enqueue [3#8], .dequeue [0#8], .enqueue [4#8]]
      = some (replies, queue') ∧
      accepted ([Call.enqueue [1#8], .enqueue [2#8], .enqueue [3#8], .dequeue [0#8],
          .enqueue [4#8]].zip replies)
        = delivered ([Call.enqueue [1#8], .enqueue [2#8], .enqueue [3#8], .dequeue [0#8],
          .enqueue [4#8]].zip replies) ++ contents queue' ∧
      (contents queue').length ≤ 2 :=
  queue_conserves ⟨0, 0, 0, 0, 0, []⟩ 2#32 1#32 [0xAA#8, 0xAA#8] rfl (by decide) (by decide)
    [.enqueue [1#8], .enqueue [2#8], .enqueue [3#8], .dequeue [0#8], .enqueue [4#8]]
    (by simp [HasSize, Call.element?])

end Queue
end IMUtility
