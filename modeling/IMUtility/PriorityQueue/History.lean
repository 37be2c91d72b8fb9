import IMUtility.PriorityQueue.Ranking
import IMUtility.Queue.Refinement

/-! # What becomes of the items of a priority queue

Everything accepted has been delivered, has been evicted, or is still stored, each item once
(`priorityQueue_conserves`): an item is evicted only from a full queue, one for one, and only for an
item of greater priority. Where priorities never rise from one enqueue to the next there is nothing
to evict or to overtake, and the priority queue answers like the plain queue
(`priorityQueue_refines_queue`). -/

namespace IMUtility

namespace PriorityList

open Refinement (Reply run specRun specRun_cons)

variable {π α : Type} [LinearOrder π] {capacity : Nat}

/-! ## What leaves

Nothing tells an eviction from the reply alone: an enqueue that evicts is accepted like any other.
It shows in the size, so `evictions` counts along with it. The balance of a run is the sum of the
balances of its calls (`step_balance`, `specRun_balance`).
-/

/-- The element that a call and its reply took out. -/
def deliveredElement : Call π α × Reply α → Option α
  | (.dequeue _, reply) => if reply.status then reply.element else none
  | _ => none

/-- What has been delivered, in order. -/
def delivered (calls : List (Call π α)) (replies : List (Reply α)) : List α :=
  (calls.zip replies).filterMap deliveredElement

/-- How many enqueues were accepted by a full queue, which held `size` items at first. -/
def evictions (capacity : Nat) : (size : Nat) → List (Call π α × Reply α) → Nat
  | _, [] => 0
  | size, (.enqueue _ _, reply) :: trace =>
    if reply.status then
      if size = capacity then evictions capacity size trace + 1
      else evictions capacity (size + 1) trace
    else evictions capacity size trace
  | size, (.dequeue _, reply) :: trace =>
    if reply.status then evictions capacity (size - 1) trace else evictions capacity size trace
  | size, (.empty, _) :: trace => evictions capacity size trace

omit [LinearOrder π] in
theorem delivered_cons (call : Call π α) (calls : List (Call π α)) (r : Reply α)
    (replies : List (Reply α)) :
    delivered (call :: calls) (r :: replies) = delivered [call] [r] ++ delivered calls replies := by
  show List.filterMap _ ([(call, r)] ++ calls.zip replies) = _
  rw [List.filterMap_append]
  rfl

/-- The items of a run: those that came are those that were taken, those that were evicted, and
those that are left. -/
structure Balance (calls : List (Call π α)) (replies : List (Reply α)) (l l' : List (π × α))
    (taken evicted : List (π × α)) : Prop where
  perm : (l ++ accepted calls replies).Perm (taken ++ evicted ++ l')
  taken_eq : taken.map Prod.snd = delivered calls replies
  lower : ∀ x ∈ evicted, ∃ y ∈ accepted calls replies, x.1 < y.1

/-- A call that neither takes nor evicts. -/
theorem Balance.of_eq {call : Call π α} {r : Reply α} {l l' : List (π × α)}
    (heq : l ++ accepted [call] [r] = l') (hnone : delivered [call] [r] = []) :
    Balance [call] [r] l l' [] [] where
  perm := by rw [heq]; rfl
  taken_eq := hnone.symm
  lower := fun _ hx => absurd hx List.not_mem_nil

/-- One call keeps the balance, and evicts from a full queue only. -/
theorem step_balance (capacity : Nat) (l : List (π × α)) (call : Call π α) :
    ∃ taken evicted, Balance [call] [(step capacity l call).1] l (step capacity l call).2
        taken evicted ∧
      ∀ trace, evictions capacity l.length ((call, (step capacity l call).1) :: trace)
        = evictions capacity (step capacity l call).2.length trace + evicted.length := by
  cases call with
  | enqueue p x =>
      by_cases hfull : l.length = capacity
      · by_cases hany : (l.any fun y => decide (y.1 < p)) = true
        · -- the earliest item of minimal priority makes room
          obtain ⟨y, hy, hlt⟩ := List.any_eq_true.mp hany
          obtain ⟨l₁, m, l₂, rfl, hm, -, -, herase⟩ :=
            exists_split (exists_minimal (List.ne_nil_of_mem hy))
          have hstep : step capacity (l₁ ++ m :: l₂) (.enqueue p x)
              = (⟨true, none⟩, l₁ ++ l₂ ++ [(p, x)]) := by
            simp only [step, enqueue]
            rw [if_pos hfull, if_pos hany, herase]
          have hlower : m.1 < p :=
            lt_of_le_of_lt (not_lt.mp ((minimal_iff _ m).mp hm y hy)) (of_decide_eq_true hlt)
          rw [hstep]
          refine ⟨[], [m], ⟨?_, rfl, ?_⟩, ?_⟩
          · show (l₁ ++ m :: l₂ ++ [(p, x)]).Perm (m :: (l₁ ++ l₂ ++ [(p, x)]))
            exact List.perm_middle.append_right _
          · intro z hz
            rw [List.mem_singleton.mp hz]
            exact ⟨(p, x), List.mem_singleton_self _, hlower⟩
          · intro trace
            have hlen : (l₁ ++ l₂ ++ [(p, x)]).length = (l₁ ++ m :: l₂).length := by
              simp only [List.length_append, List.length_cons, List.length_nil]
              omega
            rw [hlen, hfull]
            simp [evictions]
        · have hstep : step capacity l (.enqueue p x) = (⟨false, none⟩, l) := by
            simp only [step, enqueue]
            rw [if_pos hfull, if_neg hany]
          rw [hstep]
          exact ⟨[], [], Balance.of_eq (List.append_nil l) rfl, fun trace => rfl⟩
      · have hstep : step capacity l (.enqueue p x) = (⟨true, none⟩, l ++ [(p, x)]) := by
          simp only [step, enqueue]
          rw [if_neg hfull]
        rw [hstep]
        refine ⟨[], [], Balance.of_eq rfl rfl, ?_⟩
        intro trace
        simp [evictions, hfull]
  | dequeue out =>
      -- an empty queue delivers nothing
      cases l with
      | nil => exact ⟨[], [], Balance.of_eq rfl rfl, fun trace => rfl⟩
      | cons y ys =>
          obtain ⟨l₁, x, l₂, hl, -, -, hfind, herase⟩ :=
            exists_split (exists_maximal (List.cons_ne_nil y ys))
          have hstep : step capacity (y :: ys) (.dequeue out) = (⟨true, some x.2⟩, l₁ ++ l₂) := by
            simp only [step]
            rw [hfind, herase]
            rfl
          rw [hstep]
          refine ⟨[x], [], ⟨?_, rfl, fun _ hx => absurd hx List.not_mem_nil⟩, ?_⟩
          · show (y :: ys ++ []).Perm (x :: (l₁ ++ l₂))
            rw [List.append_nil, hl]
            exact List.perm_middle
          · intro trace
            have hlen : (y :: ys).length - 1 = (l₁ ++ l₂).length := by
              rw [hl]
              simp only [List.length_append, List.length_cons]
              omega
            simp [evictions, ← hlen]
  | empty =>
      have hnone : accepted [(Call.empty : Call π α)] [(step capacity l .empty).1] = [] := by
        simp [accepted, Call.offer?]
      exact ⟨[], [], Balance.of_eq (by rw [hnone]; exact List.append_nil l) rfl, fun trace => rfl⟩

/-- So does a run. By induction on the calls. -/
theorem specRun_balance (capacity : Nat) (l : List (π × α)) (calls : List (Call π α)) :
    ∃ taken evicted, Balance calls (specRun (step capacity) l calls).1 l
        (specRun (step capacity) l calls).2 taken evicted ∧
      evicted.length
        = evictions capacity l.length (calls.zip (specRun (step capacity) l calls).1) := by
  induction calls generalizing l with
  | nil => exact ⟨[], [], ⟨by simp [accepted, specRun], rfl, by simp⟩, rfl⟩
  | cons call calls ih =>
      obtain ⟨taken₁, evicted₁, h₁, hcount₁⟩ := step_balance capacity l call
      obtain ⟨taken₂, evicted₂, h₂, hcount₂⟩ := ih (step capacity l call).2
      rw [specRun_cons]
      refine ⟨taken₁ ++ taken₂, evicted₁ ++ evicted₂, ⟨?_, ?_, ?_⟩, ?_⟩
      · rw [accepted_cons, ← List.append_assoc]
        have hbefore := h₁.perm.append_right (accepted calls (specRun (step capacity)
          (step capacity l call).2 calls).1)
        rw [List.append_assoc _ (step capacity l call).2] at hbefore
        apply hbefore.trans
        apply (h₂.perm.append_left (taken₁ ++ evicted₁)).trans
        -- what the call evicts and what the others take change places
        simp only [List.append_assoc]
        exact (List.perm_append_comm_assoc _ _ _).append_left taken₁
      · rw [delivered_cons, List.map_append, h₁.taken_eq, h₂.taken_eq]
      · rw [accepted_cons]
        intro x hx
        rcases List.mem_append.mp hx with hx | hx
        · obtain ⟨y, hy, hlt⟩ := h₁.lower x hx
          exact ⟨y, List.mem_append_left _ hy, hlt⟩
        · obtain ⟨y, hy, hlt⟩ := h₂.lower x hx
          exact ⟨y, List.mem_append_right _ hy, hlt⟩
      · rw [List.length_append, hcount₂, List.zip_cons_cons, hcount₁, Nat.add_comm]

/-! ## Priorities that never rise

`Falling` is the invariant: the priorities of what is stored, and behind them those of what is
still to come, never rise. Then the first item is the one to be dequeued, as in a plain queue, and
an item that comes to a full queue has nothing smaller to evict, so it is refused, as there.
-/

/-- The same call to a plain queue. -/
def Call.toFifo : Call π α → Fifo.Call α
  | .enqueue _ x => .enqueue x
  | .dequeue out => .dequeue out
  | .empty => .empty

/-- The priorities that are offered. -/
def priorities (calls : List (Call π α)) : List π := (calls.filterMap Call.offer?).map Prod.fst

/-- The items that are stored and those still to come have priorities that never rise. -/
def Falling (l : List (π × α)) (calls : List (Call π α)) : Prop :=
  (l.map Prod.fst ++ priorities calls).Pairwise fun p q => q ≤ p

/-- In front of a falling list stands its earliest item of maximal priority. -/
theorem maximal_head {x : π × α} {l : List (π × α)} {calls : List (Call π α)}
    (h : Falling (x :: l) calls) : maximal (x :: l) x = true := by
  rw [maximal_iff]
  intro y hy
  rcases List.mem_cons.mp hy with rfl | hy
  · exact lt_irrefl _
  · rw [Falling, List.map_cons, List.cons_append, List.pairwise_cons] at h
    exact not_lt.mpr (h.1 y.1 (List.mem_append_left _ (List.mem_map_of_mem hy)))

/-- One call answers like the plain queue, and what is left goes on falling. -/
theorem step_falling (capacity : Nat) {l : List (π × α)} {call : Call π α}
    {calls : List (Call π α)} (h : Falling l (call :: calls)) :
    (step capacity l call).1 = (Fifo.step capacity (l.map Prod.snd) call.toFifo).1 ∧
      (step capacity l call).2.map Prod.snd
        = (Fifo.step capacity (l.map Prod.snd) call.toFifo).2 ∧
      Falling (step capacity l call).2 calls := by
  cases call with
  | enqueue p x =>
      have hsplit : l.map Prod.fst ++ priorities (.enqueue p x :: calls)
          = (l ++ [(p, x)]).map Prod.fst ++ priorities calls := by
        rw [List.map_append, List.append_assoc]
        rfl
      rw [Falling, hsplit] at h
      by_cases hfull : l.length = capacity
      · -- nothing stored has a smaller priority
        have hany : ¬ (l.any fun y => decide (y.1 < p)) = true := by
          rw [List.any_eq_true]
          rintro ⟨y, hy, hlt⟩
          rw [List.map_append, List.append_assoc, List.pairwise_append] at h
          have hle := h.2.2 y.1 (List.mem_map_of_mem hy) p List.mem_cons_self
          exact absurd (of_decide_eq_true hlt) (not_lt.mpr hle)
        have hstep : step capacity l (.enqueue p x) = (⟨false, none⟩, l) := by
          simp only [step, enqueue]
          rw [if_pos hfull, if_neg hany]
        have hfifo : Fifo.step capacity (l.map Prod.snd) (.enqueue x)
            = (⟨false, none⟩, l.map Prod.snd) := by
          simp only [Fifo.step]
          rw [if_pos (by rw [List.length_map, hfull])]
        refine ⟨?_, ?_, ?_⟩
        · rw [hstep, Call.toFifo, hfifo]
        · rw [hstep, Call.toFifo, hfifo]
        · rw [hstep, Falling]
          rw [List.map_append] at h
          exact h.sublist ((List.sublist_append_left _ _).append (List.Sublist.refl _))
      · have hstep : step capacity l (.enqueue p x) = (⟨true, none⟩, l ++ [(p, x)]) := by
          simp only [step, enqueue]
          rw [if_neg hfull]
        have hfifo : Fifo.step capacity (l.map Prod.snd) (.enqueue x)
            = (⟨true, none⟩, l.map Prod.snd ++ [x]) := by
          simp only [Fifo.step]
          rw [if_neg (by rwa [List.length_map])]
        refine ⟨?_, ?_, ?_⟩
        · rw [hstep, Call.toFifo, hfifo]
        · rw [hstep, Call.toFifo, hfifo, List.map_append]
          rfl
        · rw [hstep]
          exact h
  | dequeue out =>
      -- the first item is of maximal priority
      cases l with
      | nil => exact ⟨rfl, rfl, h⟩
      | cons x xs =>
          have hmax := maximal_head h
          have hstep : step capacity (x :: xs) (.dequeue out) = (⟨true, some x.2⟩, xs) := by
            simp only [step]
            rw [List.find?_cons_of_pos hmax, List.eraseP_cons_of_pos hmax]
            rfl
          rw [hstep]
          exact ⟨rfl, rfl, (List.pairwise_cons.mp h).2⟩
  | empty =>
      refine ⟨?_, rfl, h⟩
      simp only [step, Call.toFifo, Fifo.step, List.length_map]

/-- So does a run. By induction on the calls. -/
theorem specRun_falling {l : List (π × α)} {calls : List (Call π α)} (h : Falling l calls) :
    (specRun (step capacity) l calls).1
      = (specRun (Fifo.step capacity) (l.map Prod.snd) (calls.map Call.toFifo)).1 := by
  induction calls generalizing l with
  | nil => rfl
  | cons call calls ih =>
      obtain ⟨hreply, hstate, hfalling⟩ := step_falling capacity h
      rw [specRun_cons, List.map_cons, specRun_cons, hreply, ih hfalling, hstate]

end PriorityList

namespace PriorityQueue

open PriorityList
open Refinement (Reply run run_refines specRun)

section Runs

variable (queue queue₀ : PriorityQueue) (capacity element_size : BitVec 32)
  (items : PriorityQueueItem)

/-- **Only evictions lose items.** Over every run after a successful `PriorityQueue_init`, the
accepted items are those delivered, those evicted and those stored, each as often as it came. As
many are evicted as enqueues were accepted by a full queue, each of them lower than an accepted
item. -/
theorem priorityQueue_conserves
    (hinit : init (some queue) capacity element_size (some items) = (true, some queue₀))
    (hprod : capacity.toNat * element_size.toNat ≤ 2 ^ 32)
    (hbuf : capacity.toNat * element_size.toNat ≤ items.element.length)
    (harray : capacity.toNat ≤ items.priority.length)
    (calls : List (Call (BitVec 32) (List Byte)))
    (hcalls : ∀ c ∈ calls, HasSize element_size.toNat c) :
    ∃ replies queue' taken evicted, run step queue₀ calls = some (replies, queue') ∧
      (accepted calls replies).Perm (taken ++ evicted ++ contents queue') ∧
      taken.map Prod.snd = delivered calls replies ∧
      evicted.length = evictions capacity.toNat 0 (calls.zip replies) ∧
      ∀ x ∈ evicted, ∃ y ∈ accepted calls replies, x.1 < y.1 := by
  obtain ⟨queue', hrun, hrep⟩ :=
    run_refines step_refines (represents_init hinit hprod hbuf harray) calls hcalls
  obtain ⟨taken, evicted, hbalance, hcount⟩ := specRun_balance capacity.toNat [] calls
  refine ⟨_, queue', taken, evicted, hrun, ?_, hbalance.taken_eq, hcount, hbalance.lower⟩
  rw [hrep.contents_eq]
  exact hbalance.perm

/-- **Without rising priorities it is a plain queue.** A priority queue and a queue of the same
capacity and element size give the same replies to every run in which no enqueue has a greater
priority than one before it. -/
theorem priorityQueue_refines_queue (plain : Queue) (buffer : List Byte)
    (hinit : init (some queue) capacity element_size (some items) = (true, some queue₀))
    (hplain : (Queue.init plain capacity element_size (some buffer)).1 = true)
    (hprod : capacity.toNat * element_size.toNat ≤ 2 ^ 32)
    (hbuf : capacity.toNat * element_size.toNat ≤ items.element.length)
    (harray : capacity.toNat ≤ items.priority.length)
    (hbuf' : capacity.toNat * element_size.toNat ≤ buffer.length)
    (calls : List (Call (BitVec 32) (List Byte)))
    (hcalls : ∀ c ∈ calls, HasSize element_size.toNat c)
    (hfalling : (priorities calls).Pairwise fun p q => q ≤ p) :
    ∃ replies queue' plain', run step queue₀ calls = some (replies, queue') ∧
      run Queue.step (Queue.init plain capacity element_size (some buffer)).2
        (calls.map Call.toFifo) = some (replies, plain') := by
  have hcalls' : ∀ c ∈ calls.map Call.toFifo, Queue.HasSize element_size.toNat c := by
    intro c hc x hx
    obtain ⟨d, hd, rfl⟩ := List.mem_map.mp hc
    cases d with
    | enqueue p y => exact hcalls _ hd x hx
    | dequeue y => exact hcalls _ hd x hx
    | empty => cases hx
  -- both refine a list, and the lists give the same replies
  obtain ⟨queue', hrun, -⟩ :=
    run_refines step_refines (represents_init hinit hprod hbuf harray) calls hcalls
  obtain ⟨plain', hrun', -⟩ :=
    run_refines Queue.step_refines (Queue.represents_init hplain hprod hbuf') _ hcalls'
  refine ⟨_, queue', plain', hrun, ?_⟩
  rw [hrun', specRun_falling (show Falling [] calls from hfalling)]
  rfl

end Runs

/-- Three one-byte items offered to a queue for two: the one of priority 3 is evicted. -/
theorem priorityQueue_conserves_three :
    ∃ (replies : List (Reply (List Byte))) (queue' : PriorityQueue)
      (taken evicted : List (BitVec 32 × List Byte)),
      run step ⟨0, 2, 1, [0, 0], [0xAA#8, 0xAA#8]⟩
        [.enqueue 5 [1#8], .enqueue 3 [2#8], .enqueue 7 [3#8], .dequeue [0#8]]
        = some (replies, queue') ∧
      (accepted [.enqueue 5 [1#8], .enqueue 3 [2#8], .enqueue 7 [3#8], .dequeue [0#8]]
        replies).Perm (taken ++ evicted ++ contents queue') ∧
      taken.map Prod.snd
        = delivered [.enqueue 5#32 [1#8], .enqueue 3 [2#8], .enqueue 7 [3#8], .dequeue [0#8]]
          replies ∧
      evicted.length = evictions 2 0
        ([Call.enqueue 5#32 [1#8], .enqueue 3 [2#8], .enqueue 7 [3#8], .dequeue [0#8]].zip
          replies) ∧
      ∀ x ∈ evicted, ∃ y ∈ accepted
        [.enqueue 5 [1#8], .enqueue 3 [2#8], .enqueue 7 [3#8], .dequeue [0#8]] replies,
        x.1 < y.1 :=
  priorityQueue_conserves ⟨0, 0, 0, [], []⟩ ⟨0, 2, 1, [0, 0], [0xAA#8, 0xAA#8]⟩ 2#32 1#32
    ⟨[0, 0], [0xAA#8, 0xAA#8]⟩ (by decide) (by decide) (by decide) (by decide)
    [.enqueue 5 [1#8], .enqueue 3 [2#8], .enqueue 7 [3#8], .dequeue [0#8]]
    (by simp [HasSize, Call.element?])

/-- Three one-byte items of falling priorities, of which the last is refused. -/
theorem priorityQueue_refines_queue_three :
    ∃ replies queue' plain', run step ⟨0, 2, 1, [0, 0], [0xAA#8, 0xAA#8]⟩
        [.enqueue 5 [1#8], .enqueue 5 [2#8], .enqueue 3 [3#8], .dequeue [0#8]]
        = some (replies, queue') ∧
      run Queue.step (Queue.init ⟨0, 0, 0, 0, 0, []⟩ 2#32 1#32 (some [0xAA#8, 0xAA#8])).2
        [.enqueue [1#8], .enqueue [2#8], .enqueue [3#8], .dequeue [0#8]]
        = some (replies, plain') :=
  priorityQueue_refines_queue ⟨0, 0, 0, [], []⟩ ⟨0, 2, 1, [0, 0], [0xAA#8, 0xAA#8]⟩ 2#32 1#32
    ⟨[0, 0], [0xAA#8, 0xAA#8]⟩ ⟨0, 0, 0, 0, 0, []⟩ [0xAA#8, 0xAA#8] (by decide) rfl (by decide)
    (by decide) (by decide) (by decide)
    [.enqueue 5 [1#8], .enqueue 5 [2#8], .enqueue 3 [3#8], .dequeue [0#8]]
    (by simp [HasSize, Call.element?]) (by decide)

end PriorityQueue
end IMUtility
