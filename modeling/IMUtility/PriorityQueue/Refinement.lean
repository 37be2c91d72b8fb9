import IMUtility.Lib.FirstBest
import IMUtility.Lib.Refinement
import IMUtility.PriorityQueue.Basic

/-! # The priority queue is a list in order of arrival

The specification keeps `(priority, element)` pairs in the order in which they arrived; an
eviction takes the earliest pair of minimal priority and a dequeue the earliest of maximal
priority. The two arrays represent it entry by entry. A scan finds the index of that earliest
pair (`FirstBest`), and the shift loop removes the entry at an index from both arrays. -/

namespace IMUtility

/-! ## The specification

The list is in order of arrival, and its capacity counts as in the code: a full list takes a new
pair only for one that it evicts. `minimal` and `maximal` are what the two scans look for;
`find_of_firstBest` connects the first best index of an array with the earliest such pair of the
list.
-/

namespace PriorityList

open Refinement (Reply)

variable {π α : Type} [LinearOrder π]

/-- The calls of a client. Dequeue brings the object the element is copied to. -/
inductive Call (π α : Type) where
  | enqueue (priority : π) (element : α)
  | dequeue (element : α)
  | empty

/-- No pair of the list has a smaller priority than `x`. -/
def minimal (l : List (π × α)) (x : π × α) : Bool := l.all fun y => x.1 ≤ y.1

/-- No pair of the list has a greater priority than `x`. -/
def maximal (l : List (π × α)) (x : π × α) : Bool := l.all fun y => y.1 ≤ x.1

/-- Append to a list that is not full; on a full one, evict the earliest pair of minimal priority
for a pair of greater priority, and refuse any other. -/
def enqueue (capacity : Nat) (l : List (π × α)) (x : π × α) : Bool × List (π × α) :=
  if l.length = capacity then
    if l.any fun y => y.1 < x.1 then (true, l.eraseP (minimal l) ++ [x]) else (false, l)
  else (true, l ++ [x])

/-- The priority list. -/
def step (capacity : Nat) (l : List (π × α)) : Call π α → Reply α × List (π × α)
  | .enqueue p x => (⟨(enqueue capacity l (p, x)).1, none⟩, (enqueue capacity l (p, x)).2)
  | .dequeue out =>
    match l with
    | []     => (⟨false, some out⟩, [])
    | _ :: _ => (⟨true, (l.find? (maximal l)).map Prod.snd⟩, l.eraseP (maximal l))
  | .empty => (⟨l.length = 0, none⟩, l)

/-- The element a call carries. -/
def Call.element? : Call π α → Option α
  | .enqueue _ x | .dequeue x => some x
  | .empty => none

/-- The client's object before a call that copies into it. -/
def Call.out? : Call π α → Option α
  | .dequeue x => some x
  | .enqueue _ _ | .empty => none

theorem minimal_iff (l : List (π × α)) (x : π × α) :
    minimal l x = true ↔ ∀ y ∈ l, ¬ x.1 > y.1 := by
  simp [minimal]

theorem maximal_iff (l : List (π × α)) (x : π × α) :
    maximal l x = true ↔ ∀ y ∈ l, ¬ x.1 < y.1 := by
  simp [maximal]

omit [LinearOrder π] in
/-- A first best index is where the earliest pair beaten by no other stands. -/
theorem find_of_firstBest {r : π → π → Prop} {l : List (π × α)} {p : π × α → Bool}
    (hp : ∀ x, p x = true ↔ ∀ y ∈ l, ¬ r x.1 y.1) {f : Nat → π}
    (hf : ∀ j (hj : j < l.length), f j = l[j].1) {i : Nat} (h : FirstBest r f l.length i) :
    ∃ hi : i < l.length, l.find? p = some l[i] ∧ l.eraseP p = l.eraseIdx i := by
  have hi := h.lt
  have hbest : p l[i] = true := by
    rw [hp]
    intro y hy
    obtain ⟨j, hj, rfl⟩ := List.mem_iff_getElem.mp hy
    rw [← hf i hi, ← hf j hj]
    exact h.not_beaten j hj
  -- an earlier pair is beaten by the best one
  have hearlier : ∀ j (hjl : j < l.length), j < i → ¬ p l[j] = true := by
    intro j hjl hj hgood
    have hnot := (hp _).mp hgood l[i] (List.getElem_mem hi)
    rw [← hf i hi, ← hf j hjl] at hnot
    exact hnot (h.beats_earlier j hj)
  refine ⟨hi, ?_, ?_⟩
  · rw [List.find?_eq_some_iff_getElem]
    refine ⟨hbest, i, hi, rfl, ?_⟩
    intro j hj
    simpa using hearlier j (hj.trans hi) hj
  · have hfind : l.findIdx? p = some i := by
      rw [List.findIdx?_eq_some_iff_getElem]
      exact ⟨hi, hbest, fun j hj => hearlier j (hj.trans hi) hj⟩
    rw [List.eraseP_eq_eraseIdx, hfind]

end PriorityList

namespace PriorityQueue

open PriorityList
open Refinement (Reply succeeds_true succeeds_bind eq_of_guarded_false)

/-- One call of the C interface. -/
def step (queue : PriorityQueue) :
    Call (BitVec 32) (List Byte) → Option (Reply (List Byte) × PriorityQueue)
  | .enqueue priority element => do
    let (status, queue) ← enqueue queue { priority := [priority], element := element }
    some (⟨status, none⟩, queue)
  | .dequeue element => do
    let (status, queue, element) ← dequeue queue element
    some (⟨status, some element⟩, queue)
  | .empty => some (⟨queue.empty, none⟩, queue)

/-! ## The invariant

`Represents` keeps the two arrays aligned: entry `i` of each belongs to pair `i` of the list.
Beyond the size they may hold anything. The product of the sizes is at most `2 ^ 32`, so that no
offset of an entry wraps.
-/

/-- Entry `i` of the two arrays. -/
def Holds (element_size : Nat) (queue : PriorityQueue) (i : Nat) (x : BitVec 32 × List Byte) :
    Prop :=
  queue.priorityArray[i]? = some x.1 ∧ Slots.slot element_size queue.buffer i = x.2

/-- The part of the invariant that never changes. -/
structure WellFormed (capacity element_size : Nat) (queue : PriorityQueue) : Prop where
  capacity_eq : queue.capacity.toNat = capacity
  element_size_eq : queue.elementSize.toNat = element_size
  capacity_pos : 0 < capacity
  element_size_pos : 0 < element_size
  product_le : capacity * element_size ≤ 2 ^ 32
  buffer_le : capacity * element_size ≤ queue.buffer.length
  array_le : capacity ≤ queue.priorityArray.length

/-- The invariant: `queue` holds the list `l`, the two arrays aligned entry by entry. -/
structure Represents (capacity element_size : Nat) (queue : PriorityQueue)
    (l : List (BitVec 32 × List Byte)) : Prop extends WellFormed capacity element_size queue where
  size_eq : queue.size.toNat = l.length
  length_le : l.length ≤ capacity
  holds : ∀ i (hi : i < l.length), Holds element_size queue i l[i]

variable {capacity element_size : Nat} {queue : PriorityQueue} {l : List (BitVec 32 × List Byte)}

namespace WellFormed

theorem capacity_lt (h : WellFormed capacity element_size queue) : capacity < 2 ^ 32 := by
  have hlt := queue.capacity.isLt
  have heq := h.capacity_eq
  omega

/-- The offset of an entry does not wrap. -/
theorem toNat_offset (h : WellFormed capacity element_size queue) {x : BitVec 32}
    (hx : x.toNat < capacity) : (x * queue.elementSize).toNat = x.toNat * element_size := by
  have hpos := h.element_size_pos
  have hprod := h.product_le
  rw [← h.element_size_eq] at hpos hprod ⊢
  exact toNat_mul_of_lt hx hpos hprod

end WellFormed

theorem toNat_ofNat_of_lt {i : Nat} (hi : i < 2 ^ 32) : (BitVec.ofNat 32 i).toNat = i := by
  rw [BitVec.toNat_ofNat, Nat.mod_eq_of_lt hi]

/-- Writing both arrays at `i`: what entry `i` holds then, and that no other entry changes. -/
theorem WellFormed.set (h : WellFormed capacity element_size queue) {i : Nat} (hi : i < capacity)
    (x : BitVec 32 × List Byte) (hx : x.2.length = element_size) (size : BitVec 32) :
    let queue' := { queue with
      size := size, priorityArray := queue.priorityArray.set i x.1,
      buffer := Slots.setSlot element_size queue.buffer i x.2 }
    WellFormed capacity element_size queue' ∧ Holds element_size queue' i x ∧
      ∀ j y, j ≠ i → Holds element_size queue j y → Holds element_size queue' j y := by
  have hlen := h.array_le
  refine ⟨⟨h.capacity_eq, h.element_size_eq, h.capacity_pos, h.element_size_pos, h.product_le,
    ?_, ?_⟩, ⟨?_, ?_⟩, ?_⟩
  · rw [Slots.length_setSlot h.buffer_le hi hx]
    exact h.buffer_le
  · rw [List.length_set]
    exact h.array_le
  · exact List.getElem?_set_self (by omega)
  · exact Slots.slot_setSlot_self h.buffer_le hi hx
  · rintro j y hne ⟨hp, hs⟩
    refine ⟨?_, ?_⟩
    · show (queue.priorityArray.set i x.1)[j]? = _
      rw [List.getElem?_set_ne (Ne.symm hne), hp]
    · show Slots.slot element_size (Slots.setSlot element_size queue.buffer i x.2) j = _
      rw [Slots.slot_setSlot_of_ne h.buffer_le hi hx hne, hs]

/-! ## Appending

The item goes into both arrays at the size, and the size grows by one. Used by an enqueue with
room and, after an eviction, by one without.
-/

theorem Represents.append (h : Represents capacity element_size queue l)
    (hroom : l.length < capacity) {p : BitVec 32} {x : List Byte} (hx : x.length = element_size) :
    ∃ queue', append queue { priority := [p], element := x } = some queue' ∧
      Represents capacity element_size queue' (l ++ [(p, x)]) := by
  have hsize : queue.size.toNat < capacity := by rw [h.size_eq]; exact hroom
  have hcopy := Slots.copy_to_slot h.buffer_le hsize hx
  have harray := h.array_le
  have hset : queue.size.toNat < queue.priorityArray.length := by omega
  obtain ⟨hwf, hself, hother⟩ := h.toWellFormed.set hsize (p, x) hx (queue.size + 1#32)
  refine ⟨{ queue with
    size := queue.size + 1#32, priorityArray := queue.priorityArray.set queue.size.toNat p,
    buffer := Slots.setSlot element_size queue.buffer queue.size.toNat x }, ?_, ?_⟩
  · simp only [PriorityQueue.append, h.toNat_offset hsize, h.element_size_eq, hcopy, setPriority]
    simp [hset]
  · refine ⟨hwf, ?_, ?_, ?_⟩
    · have hcap := h.capacity_lt
      show (queue.size + 1#32).toNat = _
      rw [toNat_succ_of_lt (by omega), h.size_eq, List.length_append, List.length_singleton]
    · rw [List.length_append, List.length_singleton]; omega
    · intro i hi
      rw [List.length_append, List.length_singleton] at hi
      -- the new entry, or one that was there
      by_cases hlast : i = l.length
      · subst hlast
        rw [List.getElem_concat_length rfl]
        rw [h.size_eq] at hself
        simpa only [h.size_eq] using hself
      · have hil : i < l.length := by omega
        rw [List.getElem_append_left hil]
        exact hother i _ (by rw [h.size_eq]; exact hlast) (h.holds i hil)

/-! ## Removing an entry

Between two passes the arrays hold no list: entry `index + n` is there twice. The invariant of the
loop therefore says of each entry which pair it holds (`shiftLoop_eq`), and only at the end, with
the last entry cut off by the new size, is it again a list.
-/

/-- One pass of the shift loop copies entry `i + 1` onto entry `i`, and nothing else. -/
theorem shiftStep_eq (h : WellFormed capacity element_size queue) {i : Nat} (hi : i + 1 < capacity)
    {x : BitVec 32 × List Byte} (hx : Holds element_size queue (i + 1) x) :
    ∃ queue', shiftStep queue (BitVec.ofNat 32 i) = some queue' ∧
      WellFormed capacity element_size queue' ∧ queue'.size = queue.size ∧
      Holds element_size queue' i x ∧
      ∀ j y, j ≠ i → Holds element_size queue j y → Holds element_size queue' j y := by
  have hcap := h.capacity_lt
  have harray := h.array_le
  have hi32 : (BitVec.ofNat 32 i).toNat = i := toNat_ofNat_of_lt (by omega)
  have hsucc : (BitVec.ofNat 32 i + 1#32).toNat = i + 1 := by
    rw [toNat_succ_of_lt (by omega), hi32]
  have hdst : (BitVec.ofNat 32 i * queue.elementSize).toNat = i * element_size := by
    rw [h.toNat_offset (by omega), hi32]
  -- the sum is the offset of the next entry, which is still below the product of the sizes
  have hsrc : (BitVec.ofNat 32 i * queue.elementSize + queue.elementSize).toNat
      = (i + 1) * element_size := by
    have hend := Slots.slot_end_le element_size hi
    have hpos := h.element_size_pos
    have hprod := h.product_le
    rw [BitVec.toNat_add, hdst, h.element_size_eq, ← Nat.succ_mul, Nat.succ_eq_add_one]
    exact Nat.mod_eq_of_lt (by omega)
  obtain ⟨hp, hs⟩ := hx
  have hlen : x.2.length = element_size := by
    rw [← hs]; exact Slots.length_slot h.buffer_le hi
  have hcopy := Slots.copyWithin_slot h.buffer_le (Nat.lt_of_succ_lt hi) hi (Nat.lt_succ_self i).ne
  rw [hs] at hcopy
  obtain ⟨hwf, hself, hother⟩ := h.set (Nat.lt_of_succ_lt hi) x hlen queue.size
  refine ⟨{ queue with
    priorityArray := queue.priorityArray.set i x.1,
    buffer := Slots.setSlot element_size queue.buffer i x.2 }, ?_, hwf, rfl, hself, hother⟩
  have hset : i < queue.priorityArray.length := by omega
  simp only [shiftStep, hdst, hsrc, h.element_size_eq, hcopy, hsucc, hp, setPriority, hi32]
  simp [hset]

/-- After `n` passes from `index` on, the entries from `index` up to `index + n` have moved down
by one. By induction on the passes. -/
theorem shiftLoop_eq (h : WellFormed capacity element_size queue)
    (hlen : l.length ≤ capacity) (hl : ∀ i (hi : i < l.length), Holds element_size queue i l[i])
    (index n : Nat) (hn : index + n < l.length) :
    ∃ queue', (List.range' index n).foldlM
        (fun queue i => shiftStep queue (BitVec.ofNat 32 i)) queue = some queue' ∧
      WellFormed capacity element_size queue' ∧ queue'.size = queue.size ∧
      ∀ i (hi : i < l.length), Holds element_size queue' i
        (if hmove : index ≤ i ∧ i < index + n then l[i + 1] else l[i]) := by
  induction n with
  | zero =>
      refine ⟨queue, rfl, h, rfl, ?_⟩
      intro i hi
      rw [dif_neg (by omega)]
      exact hl i hi
  | succ n ih =>
      obtain ⟨q, hq, hwf, hsize, hholds⟩ := ih (by omega)
      -- the source of this pass has not moved yet
      have hnext : Holds element_size q (index + n + 1) l[index + n + 1] := by
        have hhere := hholds (index + n + 1) (by omega)
        rwa [dif_neg (by omega)] at hhere
      obtain ⟨q', hq', hwf', hsize', hself, hother⟩ :=
        shiftStep_eq hwf (show index + n + 1 < capacity by omega) hnext
      refine ⟨q', ?_, hwf', hsize'.trans hsize, ?_⟩
      · rw [List.range'_1_concat, List.foldlM_append, hq]
        simp [hq']
      · intro i hi
        -- this pass writes entry `index + n`; what the others hold is known from before
        by_cases hlast : i = index + n
        · subst hlast
          rw [dif_pos (by omega)]
          exact hself
        · have hkeep := hother i _ hlast (hholds i hi)
          by_cases hmove : index ≤ i ∧ i < index + n
          · rw [dif_pos hmove] at hkeep
            rwa [dif_pos (by omega)]
          · rw [dif_neg hmove] at hkeep
            rwa [dif_neg (by omega)]

/-- **The shift loop removes** the entry at `index`. -/
theorem Represents.shiftDown (h : Represents capacity element_size queue l) {index : Nat}
    (hindex : index < l.length) :
    ∃ queue', shiftDown { queue with size := queue.size - 1#32 } (BitVec.ofNat 32 index)
        (queue.size - 1#32) = some queue' ∧
      Represents capacity element_size queue' (l.eraseIdx index) := by
  have hcap := h.capacity_lt
  have hlen := h.length_le
  have hsub : (queue.size - 1#32).toNat = l.length - 1 := by
    rw [toNat_pred_of_pos (by rw [h.size_eq]; omega), h.size_eq]
  have hwf : WellFormed capacity element_size { queue with size := queue.size - 1#32 } :=
    { h.toWellFormed with }
  obtain ⟨queue', hrun, hwf', hsize, hholds⟩ :=
    shiftLoop_eq hwf hlen h.holds index (l.length - 1 - index) (by omega)
  have hlen' : (l.eraseIdx index).length = l.length - 1 := List.length_eraseIdx_of_lt hindex
  refine ⟨queue', ?_, hwf', ?_, by omega, ?_⟩
  · rw [PriorityQueue.shiftDown, toNat_ofNat_of_lt (by omega), hsub]
    exact hrun
  · rw [hsize, hsub, hlen']
  · intro i hi
    have hentry := hholds i (by omega)
    -- in front of `index` nothing has moved, from there on everything by one
    rw [List.getElem_eraseIdx]
    by_cases hbefore : i < index
    · rw [dif_neg (by omega)] at hentry
      rwa [dif_pos hbefore]
    · rw [dif_pos (by omega)] at hentry
      rwa [dif_neg hbefore]

/-! ## The scans

Both are instances of one scan, by a strict total order on the priorities.
-/

/-- The scan ends at the first best priority. By induction on the passes; the first one compares
entry 0 with itself. -/
theorem scan_eq {r : BitVec 32 → BitVec 32 → Prop} [IsStrictTotalOrder (BitVec 32) r]
    {beats : BitVec 32 → BitVec 32 → Bool} (hbeats : ∀ a b, beats a b = true ↔ r a b)
    {f : Nat → BitVec 32} {n : Nat} (hsize : queue.size.toNat = n + 1)
    (hf : ∀ j < n + 1, queue.priorityArray[j]? = some (f j)) :
    ∃ i, scan beats queue = some (BitVec.ofNat 32 i) ∧ FirstBest r f (n + 1) i := by
  have hloop : ∀ k ≤ n, ∃ i, (List.range (k + 1)).foldlM (scanStep beats queue) (f 0, 0#32)
      = some (f i, BitVec.ofNat 32 i) ∧ FirstBest r f (k + 1) i := by
    intro k
    induction k with
    | zero =>
        intro _
        have hself : ¬ beats (f 0) (f 0) = true := by
          rw [hbeats]
          exact irrefl (f 0)
        refine ⟨0, ?_, FirstBest.one⟩
        simp [List.range_succ, scanStep, hf 0 (Nat.succ_pos n), hself]
    | succ k ih =>
        intro hk
        obtain ⟨i, hrun, hbest⟩ := ih (by omega)
        have hnext := hf (k + 1) (by omega)
        -- entry `k + 1` is compared with the best of the entries up to `k`
        by_cases hb : r (f i) (f (k + 1))
        · refine ⟨k + 1, ?_, hbest.succ_of_beats hb⟩
          rw [List.range_succ, List.foldlM_append, hrun]
          simp [scanStep, hnext, (hbeats _ _).mpr hb]
        · refine ⟨i, ?_, hbest.succ_of_not_beats hb⟩
          have hnot : ¬ beats (f i) (f (k + 1)) = true := fun hgood => hb ((hbeats _ _).mp hgood)
          rw [List.range_succ, List.foldlM_append, hrun]
          simp [scanStep, hnext, hnot]
  obtain ⟨i, hrun, hbest⟩ := hloop n le_rfl
  refine ⟨i, ?_, hbest⟩
  rw [scan, hf 0 (Nat.succ_pos n), hsize]
  simp [hrun]

/-- The scan over a represented list finds the earliest pair beaten by no other. -/
theorem Represents.scan (h : Represents capacity element_size queue l) (hpos : 0 < l.length)
    {r : BitVec 32 → BitVec 32 → Prop} [IsStrictTotalOrder (BitVec 32) r]
    {beats : BitVec 32 → BitVec 32 → Bool} (hbeats : ∀ a b, beats a b = true ↔ r a b)
    {p : BitVec 32 × List Byte → Bool} (hp : ∀ x, p x = true ↔ ∀ y ∈ l, ¬ r x.1 y.1) :
    ∃ i, ∃ hi : i < l.length, scan beats queue = some (BitVec.ofNat 32 i) ∧
      l.find? p = some l[i] ∧ l.eraseP p = l.eraseIdx i := by
  let f : Nat → BitVec 32 := fun j => l[j]?.elim 0#32 Prod.fst
  have hf : ∀ j (hj : j < l.length), f j = l[j].1 := by
    intro j hj
    simp [f, List.getElem?_eq_getElem hj]
  obtain ⟨n, hn⟩ : ∃ n, l.length = n + 1 := ⟨l.length - 1, by omega⟩
  have harray : ∀ j < n + 1, queue.priorityArray[j]? = some (f j) := by
    intro j hj
    rw [hf j (by omega)]
    exact (h.holds j (by omega)).1
  obtain ⟨i, hscan, hbest⟩ := scan_eq hbeats (h.size_eq.trans hn) harray
  rw [← hn] at hbest
  obtain ⟨hi, hfind, herase⟩ := find_of_firstBest hp hf hbest
  exact ⟨i, hi, hscan, hfind, herase⟩

theorem Represents.getHighestPriorityIndex (h : Represents capacity element_size queue l)
    (hpos : 0 < l.length) :
    ∃ i, ∃ hi : i < l.length, getHighestPriorityIndex queue = some (BitVec.ofNat 32 i) ∧
      l.find? (maximal l) = some l[i] ∧ l.eraseP (maximal l) = l.eraseIdx i :=
  h.scan hpos (r := (· < ·)) (fun _ _ => decide_eq_true_iff) (maximal_iff l)

theorem Represents.getLowestPriorityIndex (h : Represents capacity element_size queue l)
    (hpos : 0 < l.length) :
    ∃ i, ∃ hi : i < l.length, getLowestPriorityIndex queue = some (BitVec.ofNat 32 i) ∧
      l.find? (minimal l) = some l[i] ∧ l.eraseP (minimal l) = l.eraseIdx i :=
  h.scan hpos (r := (· > ·)) (fun _ _ => decide_eq_true_iff) (minimal_iff l)

/-! ## The operations

One theorem for each operation: it succeeds, answers as the specification does, and keeps the
invariant.
-/

theorem Represents.full_eq (h : Represents capacity element_size queue l) :
    queue.full = decide (l.length = capacity) := by
  rw [full, beq_eq_decide_toNat, h.size_eq, h.capacity_eq]

theorem Represents.empty_eq (h : Represents capacity element_size queue l) :
    queue.empty = decide (l.length = 0) := by
  rw [PriorityQueue.empty, beq_eq_decide_toNat, h.size_eq]
  rfl

theorem Represents.enqueue (h : Represents capacity element_size queue l) {p : BitVec 32}
    {x : List Byte} (hx : x.length = element_size) :
    ∃ queue', enqueue queue { priority := [p], element := x }
        = some ((PriorityList.enqueue capacity l (p, x)).1, queue') ∧
      Represents capacity element_size queue' (PriorityList.enqueue capacity l (p, x)).2 := by
  have hlen := h.length_le
  by_cases hfull : l.length = capacity
  · have hpos : 0 < l.length := by have := h.capacity_pos; omega
    obtain ⟨i, hi, hscan, hfind, herase⟩ := h.getLowestPriorityIndex hpos
    have hi32 : (BitVec.ofNat 32 i).toNat = i :=
      toNat_ofNat_of_lt (by have := h.capacity_lt; omega)
    have hlowest := (h.holds i hi).1
    -- some pair has a smaller priority exactly when the earliest minimal one has
    have hany : (l.any fun y => decide (y.1 < p)) = decide (l[i].1 < p) := by
      rw [Bool.eq_iff_iff, List.any_eq_true, decide_eq_true_iff]
      refine ⟨?_, fun hlt => ⟨l[i], List.getElem_mem hi, by simpa using hlt⟩⟩
      rintro ⟨y, hy, hlt⟩
      have hmin := (minimal_iff l _).mp (List.find?_some hfind) y hy
      exact lt_of_le_of_lt (not_lt.mp hmin) (by simpa using hlt)
    by_cases hlt : l[i].1 < p
    -- the earliest minimal pair goes, which makes room at the end
    · obtain ⟨q, hshift, hq⟩ := h.shiftDown hi
      have hroom : (l.eraseIdx i).length < capacity := by
        rw [List.length_eraseIdx_of_lt hi]; omega
      obtain ⟨queue', happ, h'⟩ := hq.append hroom (p := p) hx
      refine ⟨queue', ?_, ?_⟩
      · simp [PriorityQueue.enqueue, h.full_eq, hfull, hscan, hi32, hlowest, hlt, hshift, happ,
          PriorityList.enqueue, hany]
      · simpa [PriorityList.enqueue, hfull, hany, hlt, herase] using h'
    · refine ⟨queue, ?_, ?_⟩
      · simp [PriorityQueue.enqueue, h.full_eq, hfull, hscan, hi32, hlowest, hlt,
          PriorityList.enqueue, hany]
      · simpa [PriorityList.enqueue, hfull, hany, hlt] using h
  · obtain ⟨queue', happ, h'⟩ := h.append (by omega) (p := p) hx
    refine ⟨queue', ?_, ?_⟩
    · simp [PriorityQueue.enqueue, h.full_eq, hfull, happ, PriorityList.enqueue]
    · simpa [PriorityList.enqueue, hfull] using h'

theorem Represents.dequeue (h : Represents capacity element_size queue l) (hpos : 0 < l.length)
    {out : List Byte} (hout : out.length = element_size) :
    ∃ queue' x, dequeue queue out = some (true, queue', x) ∧
      (l.find? (maximal l)).map Prod.snd = some x ∧
      Represents capacity element_size queue' (l.eraseP (maximal l)) := by
  obtain ⟨i, hi, hscan, hfind, herase⟩ := h.getHighestPriorityIndex hpos
  have hlen := h.length_le
  have hi32 : (BitVec.ofNat 32 i).toNat = i :=
    toNat_ofNat_of_lt (by have := h.capacity_lt; omega)
  have hcopy := Slots.copy_from_slot h.buffer_le (show i < capacity by omega) hout
  -- the slot that is copied out holds the item that the list finds
  rw [(h.holds i hi).2] at hcopy
  have hoff : (BitVec.ofNat 32 i * queue.elementSize).toNat = i * element_size := by
    rw [h.toNat_offset (by omega), hi32]
  obtain ⟨queue', hshift, h'⟩ := h.shiftDown hi
  refine ⟨queue', l[i].2, ?_, by rw [hfind]; rfl, herase ▸ h'⟩
  have hnonempty : queue.empty = false := by
    rw [h.empty_eq, decide_eq_false_iff_not]
    omega
  simp only [PriorityQueue.dequeue, hnonempty, hscan, Option.bind_eq_bind, Option.bind_some, hoff,
    h.element_size_eq]
  simp [hcopy, hshift]

/-! ## All runs

The simulation of one call, and of a run through `Refinement.run_refines`.
-/

/-- Every element a call brings has the size of the queue's elements. -/
def HasSize (element_size : Nat) (call : Call (BitVec 32) (List Byte)) : Prop :=
  ∀ x, call.element? = some x → x.length = element_size

/-- **One call**, in the invariant: the reply of the list, and the invariant again. -/
theorem step_refines :
    Refinement.StepRefines step (PriorityList.step capacity) (HasSize element_size)
      (Represents capacity element_size) := by
  intro queue l call h hsize
  cases call with
  | enqueue p x =>
      obtain ⟨queue', hstep, h'⟩ := h.enqueue (p := p) (hsize x rfl)
      exact ⟨queue', by simp [step, hstep, PriorityList.step], h'⟩
  | dequeue out =>
      cases l with
      | nil =>
          refine ⟨queue, ?_, h⟩
          simp [step, PriorityQueue.dequeue, h.empty_eq, PriorityList.step]
      | cons y l =>
          obtain ⟨queue', x, hstep, hfind, h'⟩ := h.dequeue (by simp) (hsize out rfl)
          refine ⟨queue', ?_, h'⟩
          simp only [step, hstep, PriorityList.step, hfind]
          rfl
  | empty => exact ⟨queue, by simp [step, h.empty_eq, PriorityList.step], h⟩

/-- `PriorityQueue_init` establishes the invariant for the empty list. -/
theorem represents_init {queue queue' : PriorityQueue} {capacity element_size : BitVec 32}
    {items : PriorityQueueItem}
    (hinit : init (some queue) capacity element_size (some items) = (true, some queue'))
    (hprod : capacity.toNat * element_size.toNat ≤ 2 ^ 32)
    (hbuf : capacity.toNat * element_size.toNat ≤ items.element.length)
    (harray : capacity.toNat ≤ items.priority.length) :
    Represents capacity.toNat element_size.toNat queue' [] := by
  simp only [init] at hinit
  split at hinit
  case isFalse => simp at hinit
  case isTrue hargs =>
    obtain rfl := Option.some.inj (Prod.mk.inj hinit).2
    have hpos : 0 < capacity.toNat ∧ 0 < element_size.toNat :=
      ⟨toNat_pos_of_ne_zero hargs.1, toNat_pos_of_ne_zero hargs.2⟩
    exact ⟨⟨rfl, rfl, hpos.1, hpos.2, hprod, hbuf, harray⟩, rfl, by simp, by simp⟩

/-! ### Failing calls -/

theorem enqueue_false {queue queue' : PriorityQueue} {item : PriorityQueueItem}
    (h : PriorityQueue.enqueue queue item = some (false, queue')) : queue' = queue := by
  unfold PriorityQueue.enqueue at h
  split at h
  · exact absurd h (succeeds_bind (fun _ => succeeds_true _) queue')
  · obtain ⟨_, -, h⟩ := Option.bind_eq_some_iff.mp h
    obtain ⟨_, -, h⟩ := Option.bind_eq_some_iff.mp h
    obtain ⟨_, -, h⟩ := Option.bind_eq_some_iff.mp h
    exact eq_of_guarded_false (succeeds_bind fun _ => succeeds_bind fun _ => succeeds_true _) h

theorem dequeue_false {queue queue' : PriorityQueue} {out out' : List Byte}
    (h : PriorityQueue.dequeue queue out = some (false, queue', out')) :
    queue' = queue ∧ out' = out :=
  Prod.mk.inj (eq_of_guarded_false
    (succeeds_bind fun _ => succeeds_bind fun _ => succeeds_bind fun _ => succeeds_true _) h)

/-- A call with a false status changes neither the queue nor the client's object. -/
theorem step_false {queue queue' : PriorityQueue} {call : Call (BitVec 32) (List Byte)}
    {reply : Reply (List Byte)} (hstep : step queue call = some (reply, queue'))
    (hfalse : reply.status = false) : queue' = queue ∧ reply.element = call.out? := by
  cases call with
  | enqueue p x =>
      obtain ⟨⟨status, q⟩, hop, heq⟩ := Option.bind_eq_some_iff.mp hstep
      cases heq
      cases hfalse
      exact ⟨enqueue_false hop, rfl⟩
  | dequeue out =>
      obtain ⟨⟨status, q, out'⟩, hop, heq⟩ := Option.bind_eq_some_iff.mp hstep
      cases heq
      cases hfalse
      obtain ⟨hq, hout⟩ := dequeue_false hop
      exact ⟨hq, by rw [hout]; rfl⟩
  | empty => cases hstep; exact ⟨rfl, rfl⟩

/-- **The priority queue refines the list in order of arrival.** After a successful
`PriorityQueue_init` with arrays of `capacity` entries or more, every sequence of calls gets the
replies of the list; the state so reached holds that list with its two arrays aligned entry by
entry; and a call that fails there leaves the queue and the client's object as they were. -/
theorem priorityQueue_refines_list (queue queue₀ : PriorityQueue)
    (capacity element_size : BitVec 32) (items : PriorityQueueItem)
    (hinit : init (some queue) capacity element_size (some items) = (true, some queue₀))
    (hprod : capacity.toNat * element_size.toNat ≤ 2 ^ 32)
    (hbuf : capacity.toNat * element_size.toNat ≤ items.element.length)
    (harray : capacity.toNat ≤ items.priority.length)
    (calls : List (Call (BitVec 32) (List Byte)))
    (hcalls : ∀ c ∈ calls, HasSize element_size.toNat c) :
    ∃ replies l queue',
      Refinement.specRun (PriorityList.step capacity.toNat) [] calls = (replies, l) ∧
      Refinement.run step queue₀ calls = some (replies, queue') ∧
      queue'.size.toNat = l.length ∧
      (∀ i (hi : i < l.length), Holds element_size.toNat queue' i l[i]) ∧
      ∀ call reply queue'', step queue' call = some (reply, queue'') → reply.status = false →
        queue'' = queue' ∧ reply.element = call.out? := by
  obtain ⟨queue', hrun, hrep⟩ := Refinement.run_refines step_refines
    (represents_init hinit hprod hbuf harray) calls hcalls
  exact ⟨_, _, queue', rfl, hrun, hrep.size_eq, hrep.holds,
    fun call reply queue'' hstep hfalse => step_false hstep hfalse⟩

/-- Two one-byte entries, both of priority 5: a third such entry is refused, one of priority 7
evicts the earlier of the two and leaves first. -/
theorem priorityQueue_refines_list_eviction :
    ∃ queue', Refinement.run step ⟨0, 2, 1, [0, 0], [0xAA#8, 0xAA#8]⟩
        [.enqueue 5 [1#8], .enqueue 5 [2#8], .enqueue 5 [3#8], .enqueue 7 [4#8], .dequeue [0#8],
          .dequeue [0#8], .empty, .dequeue [9#8]]
      = some ([⟨true, none⟩, ⟨true, none⟩, ⟨false, none⟩, ⟨true, none⟩, ⟨true, some [4#8]⟩,
          ⟨true, some [2#8]⟩, ⟨true, none⟩, ⟨false, some [9#8]⟩], queue') := by
  obtain ⟨replies, l, queue', hspec, hrun, -⟩ := priorityQueue_refines_list ⟨0, 0, 0, [], []⟩
    ⟨0, 2, 1, [0, 0], [0xAA#8, 0xAA#8]⟩ 2#32 1#32 ⟨[0, 0], [0xAA#8, 0xAA#8]⟩
    (by decide) (by decide) (by decide) (by decide)
    [.enqueue 5 [1#8], .enqueue 5 [2#8], .enqueue 5 [3#8], .enqueue 7 [4#8], .dequeue [0#8],
      .dequeue [0#8], .empty, .dequeue [9#8]]
    (by simp [HasSize, Call.element?])
  obtain rfl := congrArg Prod.fst hspec
  exact ⟨queue', hrun⟩

end PriorityQueue
end IMUtility
