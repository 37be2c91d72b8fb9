import Mathlib.Data.Finset.Max
import IMUtility.Lib.Ranking
import IMUtility.PriorityQueue.Refinement

/-! # What a priority queue keeps, and how it drains

Over enqueues alone the priority list keeps the best of what it is offered (`KeepsBest`), and
dequeued to the end it sorts what it holds (`Drains`). Both carry over to the two arrays through
the refinement.

"In order of arrival" speaks of single items, and two items may have equal priorities and equal
bytes. The list is therefore also run on stamped calls, where every element carries the number of
the call that brought it. The priority list never looks at elements, so stamps change nothing. -/

namespace IMUtility

namespace PriorityList

open Refinement (Reply specRun specRun_cons)

variable {π α β : Type} [LinearOrder π] {capacity : Nat}

omit [LinearOrder π] in
/-- The first entry with a property splits the list, for the search and for the removal alike. -/
theorem exists_split {p : π × α → Bool} {l : List (π × α)} (h : ∃ x ∈ l, p x = true) :
    ∃ l₁ x l₂, l = l₁ ++ x :: l₂ ∧ p x = true ∧ (∀ y ∈ l₁, ¬ p y = true) ∧
      l.find? p = some x ∧ l.eraseP p = l₁ ++ l₂ := by
  obtain ⟨a, ha, hpa⟩ := h
  obtain ⟨x, l₁, l₂, hearlier, hpx, hl, herase⟩ := List.exists_of_eraseP ha hpa
  refine ⟨l₁, x, l₂, hl, hpx, hearlier, ?_, herase⟩
  rw [List.find?_eq_some_iff_append]
  exact ⟨hpx, l₁, l₂, hl, fun y hy => by simpa using hearlier y hy⟩

/-! ## Enqueues keep the best

`KeepsBest` has one rule for each thing an enqueue does: it appends while there is room, evicts
the earliest pair of minimal priority for a better one, or refuses.
-/

theorem exists_minimal {l : List (π × α)} (hl : l ≠ []) : ∃ x ∈ l, minimal l x = true := by
  have hne : (l : Multiset (π × α)) ≠ 0 := by simpa using hl
  obtain ⟨x, hx, hmin⟩ := Multiset.exists_min_image Prod.fst hne
  refine ⟨x, hx, ?_⟩
  rw [minimal_iff]
  intro y hy
  exact not_lt.mpr (hmin y hy)

theorem exists_maximal {l : List (π × α)} (hl : l ≠ []) : ∃ x ∈ l, maximal l x = true := by
  have hne : (l : Multiset (π × α)) ≠ 0 := by simpa using hl
  obtain ⟨x, hx, hmax⟩ := Multiset.exists_max_image Prod.fst hne
  refine ⟨x, hx, ?_⟩
  rw [maximal_iff]
  intro y hy
  exact not_lt.mpr (hmax y hy)

/-- One enqueue keeps the best. -/
theorem enqueue_keepsBest {offered l : List (π × α)} (h : KeepsBest Prod.fst capacity offered l)
    (x : π × α) : KeepsBest Prod.fst capacity (offered ++ [x]) (enqueue capacity l x).2 := by
  unfold enqueue
  split
  case isTrue hfull =>
    split
    case isTrue hany =>
      obtain ⟨y, hy, hlt⟩ := List.any_eq_true.mp hany
      -- full, and some entry has a lower priority: the least of them makes room
      obtain ⟨l₁, m, l₂, hl, hm, -, -, herase⟩ :=
        exists_split (exists_minimal (List.ne_nil_of_mem hy))
      have hmin : ∀ z ∈ l, m.1 ≤ z.1 := fun z hz => not_lt.mp ((minimal_iff l m).mp hm z hz)
      have hlt : y.1 < x.1 := by simpa using hlt
      rw [herase]
      exact h.evict hfull hl hmin ((hmin y hy).trans hlt.le)
    case isFalse hnone =>
      apply h.refuse hfull
      intro y hy
      by_contra hlt
      apply hnone
      exact List.any_eq_true.mpr ⟨y, hy, by simpa using hlt⟩
  case isFalse hroom =>
    apply h.append
    have hlen := h.length_eq
    omega

variable (capacity) in
/-- A run of enqueues keeps the best. By induction on the offers. -/
theorem specRun_enqueue_keepsBest (offers : List (π × α)) {offered l : List (π × α)}
    (h : KeepsBest Prod.fst capacity offered l) :
    KeepsBest Prod.fst capacity (offered ++ offers)
      (specRun (step capacity) l (offers.map fun x => .enqueue x.1 x.2)).2 := by
  induction offers generalizing offered l with
  | nil =>
      rw [List.append_nil]
      exact h
  | cons x xs ih =>
      rw [List.map_cons, specRun_cons, List.append_cons]
      exact ih (enqueue_keepsBest h x)

/-! ## Dequeues drain

A dequeue takes the earliest pair of maximal priority, which is the first step of `Drains`. A run
of dequeues takes all steps.
-/

/-- As many dequeues as there are entries drain the list; the next one finds it empty. By
induction on the dequeues. -/
theorem specRun_dequeue (outs : List α) (last : α) {l : List (π × α)}
    (hlen : outs.length = l.length) :
    ∃ taken, Drains Prod.fst l taken ∧
      specRun (step capacity) l ((outs ++ [last]).map Call.dequeue)
        = (taken.map (fun x => ⟨true, some x.2⟩) ++ [⟨false, some last⟩], []) := by
  induction outs generalizing l with
  | nil =>
      obtain rfl : l = [] := List.length_eq_zero_iff.mp hlen.symm
      exact ⟨[], Drains.nil, rfl⟩
  | cons out outs ih =>
      have hne : l ≠ [] := by
        rintro rfl
        simp at hlen
      obtain ⟨l₁, x, l₂, rfl, hx, hearlier, hfind, herase⟩ := exists_split (exists_maximal hne)
      -- a maximal pair is a best one
      have hbest (y : π × α) : maximal (l₁ ++ x :: l₂) y = true
          ↔ BestOf Prod.fst (l₁ ++ x :: l₂) y := by
        rw [maximal_iff]
        simp only [not_lt, BestOf]
      have hrest : outs.length = (l₁ ++ l₂).length := by
        simp only [List.length_append, List.length_cons] at hlen ⊢
        omega
      obtain ⟨taken, hdrains, hrun⟩ := ih hrest
      refine ⟨x :: taken, ?_, ?_⟩
      · apply Drains.cons l₁ l₂ x taken ((hbest x).mp hx) ?_ hdrains
        intro y hy
        rw [← hbest]
        exact hearlier y hy
      · have hstep : step capacity (l₁ ++ x :: l₂) (.dequeue out)
            = (⟨true, some x.2⟩, l₁ ++ l₂) := by
          obtain ⟨z, zs, hz⟩ := List.exists_cons_of_ne_nil hne
          rw [hz] at hfind herase ⊢
          show (Reply.mk true (((z :: zs).find? (maximal (z :: zs))).map Prod.snd),
            (z :: zs).eraseP (maximal (z :: zs))) = _
          rw [hfind, herase]
          rfl
        rw [List.cons_append, List.map_cons, specRun_cons, hstep, hrun]
        rfl

/-! ## Order of acceptance

What is stored is always a sublist of what was accepted. Nothing is said of priorities here:
removals keep the order of the rest, and an accepted item goes to the end.
-/

/-- What a call offers to the list. -/
def Call.offer? : Call π α → Option (π × α)
  | .enqueue p x => some (p, x)
  | .dequeue _ | .empty => none

/-- The offers of a run that were accepted, in order. -/
def accepted (calls : List (Call π α)) (replies : List (Reply α)) : List (π × α) :=
  (calls.zip replies).filterMap fun (c, r) => if r.status then c.offer? else none

theorem enqueue_sublist (l : List (π × α)) (x : π × α) :
    (enqueue capacity l x).2.Sublist (l ++ if (enqueue capacity l x).1 then [x] else []) := by
  unfold enqueue
  split
  case isTrue =>
    split
    case isTrue => exact List.eraseP_sublist.append (List.Sublist.refl [x])
    case isFalse => exact List.sublist_append_left l []
  case isFalse => exact List.Sublist.refl (l ++ [x])

/-- One call adds at most the item it offers, at the end, and only when that is accepted. -/
theorem step_sublist (l : List (π × α)) (call : Call π α) :
    (step capacity l call).2.Sublist (l ++ accepted [call] [(step capacity l call).1]) := by
  cases call with
  | enqueue p x =>
      have hsub : (enqueue capacity l (p, x)).2.Sublist _ := enqueue_sublist l (p, x)
      show (enqueue capacity l (p, x)).2.Sublist _
      cases hstatus : (enqueue capacity l (p, x)).1 with
      | false => simpa [accepted, step, Call.offer?, hstatus] using hsub
      | true => simpa [accepted, step, Call.offer?, hstatus] using hsub
  | dequeue out =>
      cases l with
      | nil => exact List.nil_sublist _
      | cons y l => exact List.eraseP_sublist.trans (List.sublist_append_left (y :: l) _)
  | empty => exact List.sublist_append_left l _

omit [LinearOrder π] in
theorem accepted_cons (call : Call π α) (calls : List (Call π α)) (r : Reply α)
    (replies : List (Reply α)) :
    accepted (call :: calls) (r :: replies) = accepted [call] [r] ++ accepted calls replies := by
  show List.filterMap _ ([(call, r)] ++ calls.zip replies) = _
  rw [List.filterMap_append]
  rfl

/-- **The list is in order of acceptance**: after a run it holds some of the accepted offers, as
they came. -/
theorem specRun_sublist (calls : List (Call π α)) (l : List (π × α)) :
    (specRun (step capacity) l calls).2.Sublist
      (l ++ accepted calls (specRun (step capacity) l calls).1) := by
  induction calls generalizing l with
  | nil => exact List.sublist_append_left l _
  | cons call calls ih =>
      rw [specRun_cons, accepted_cons, ← List.append_assoc]
      exact (ih _).trans ((step_sublist l call).append (List.Sublist.refl _))

/-! ### Stamps

A stamp is the number of a call, carried beside the element. Maps of elements commute with every
operation (`step_map`), so the run with stamps is the run without, and its list says of each item
which call brought it.
-/

/-- The same call with its element, or its object, replaced. -/
def Call.map (f : α → β) : Call π α → Call π β
  | .enqueue p x => .enqueue p (f x)
  | .dequeue out => .dequeue (f out)
  | .empty => .empty

/-- The same reply with the client's object replaced. -/
def mapReply (f : α → β) (r : Reply α) : Reply β := ⟨r.status, r.element.map f⟩

/-- The calls, each with its number on the element it brings. -/
def stamped (calls : List (Call π α)) : List (Call π (Nat × α)) :=
  calls.zipIdx.map fun c => c.1.map fun x => (c.2, x)

theorem enqueue_map (f : α → β) (l : List (π × α)) (x : π × α) :
    enqueue capacity (l.map (Prod.map id f)) (Prod.map id f x)
      = ((enqueue capacity l x).1, (enqueue capacity l x).2.map (Prod.map id f)) := by
  have hmin : minimal (l.map (Prod.map id f)) ∘ Prod.map id f = minimal l := by
    funext y
    simp [minimal, Function.comp_def]
  unfold enqueue
  rw [List.length_map, List.any_map, List.eraseP_map, hmin]
  split
  · show (if (l.any fun y => decide (y.1 < x.1)) then _ else _) = _
    split
    · simp
    · rfl
  · simp

/-- The list does not look at the elements. -/
theorem step_map (f : α → β) (l : List (π × α)) (call : Call π α) :
    step capacity (l.map (Prod.map id f)) (call.map f)
      = (mapReply f (step capacity l call).1,
          (step capacity l call).2.map (Prod.map id f)) := by
  cases call with
  | enqueue p x =>
      have henqueue : enqueue capacity (l.map (Prod.map id f)) (p, f x) = _ :=
        enqueue_map f l (p, x)
      show (Reply.mk (enqueue capacity (l.map (Prod.map id f)) (p, f x)).1 none,
        (enqueue capacity (l.map (Prod.map id f)) (p, f x)).2) = _
      rw [henqueue]
      rfl
  | dequeue out =>
      cases l with
      | nil => rfl
      | cons y l =>
          -- the priorities are unchanged, so the same item is maximal
          have hmax : maximal ((y :: l).map (Prod.map id f)) ∘ Prod.map id f
              = maximal (y :: l) := by
            funext z
            simp [maximal, Function.comp_def]
          show (Reply.mk true ((((y :: l).map (Prod.map id f)).find? _).map Prod.snd),
            ((y :: l).map (Prod.map id f)).eraseP _) = _
          rw [List.find?_map, List.eraseP_map, hmax, Option.map_map]
          show _ = (Reply.mk true ((((y :: l).find? (maximal (y :: l))).map Prod.snd).map f), _)
          rw [Option.map_map]
          rfl
  | empty => simp [step, mapReply, Call.map]

variable (capacity) in
theorem specRun_map (f : α → β) (calls : List (Call π α)) (l : List (π × α)) :
    specRun (step capacity) (l.map (Prod.map id f)) (calls.map (Call.map f))
      = ((specRun (step capacity) l calls).1.map (mapReply f),
          (specRun (step capacity) l calls).2.map (Prod.map id f)) := by
  induction calls generalizing l with
  | nil => rfl
  | cons call calls ih =>
      rw [List.map_cons, specRun_cons, step_map, ih, specRun_cons]
      rfl

omit [LinearOrder π] in
theorem map_snd_stamped (calls : List (Call π α)) :
    (stamped calls).map (Call.map Prod.snd) = calls := by
  have hcancel : (Call.map Prod.snd ∘ fun c : Call π α × Nat => c.1.map fun x => (c.2, x))
      = Prod.fst := by
    funext c
    obtain ⟨c, i⟩ := c
    cases c <;> rfl
  rw [stamped, List.map_map, hcancel, List.zipIdx_map_fst]

/-- The stamped items a run leaves stored. -/
def stored (capacity : Nat) (calls : List (Call π α)) : List (π × Nat × α) :=
  (specRun (step capacity) [] (stamped calls)).2

/-- Without its stamps the stamped run is the run. -/
theorem specRun_stamped (calls : List (Call π α)) :
    specRun (step capacity) [] calls
      = ((specRun (step capacity) [] (stamped calls)).1.map (mapReply Prod.snd),
          (stored capacity calls).map (Prod.map id Prod.snd)) := by
  conv_lhs => rw [← map_snd_stamped calls]
  exact specRun_map capacity Prod.snd (stamped calls) []

omit [LinearOrder π] in
/-- An accepted offer of stamped calls carries the number of the call that brought it, and the
stamps increase. -/
theorem accepted_stamped (calls : List (Call π α)) (replies : List (Reply (Nat × α))) :
    (∀ x ∈ accepted (stamped calls) replies, calls[x.2.1]? = some (.enqueue x.1 x.2.2) ∧
      (replies[x.2.1]?.map Reply.status) = some true) ∧
    (accepted (stamped calls) replies).Pairwise fun x y => x.2.1 < y.2.1 := by
  -- an entry of the zipped lists that yields an offer yields one stamped with its index
  have hentry : ∀ i (hi : i < ((stamped calls).zip replies).length) x,
      (if ((stamped calls).zip replies)[i].2.status then ((stamped calls).zip replies)[i].1.offer?
        else none) = some x →
      x.2.1 = i ∧ calls[i]? = some (.enqueue x.1 x.2.2) ∧
        replies[i]?.map Reply.status = some true := by
    intro i hi x hx
    have hic : i < calls.length ∧ i < replies.length := by
      simpa [stamped] using hi
    have hcall : ((stamped calls).zip replies)[i].1 = calls[i].map fun x => (i, x) := by
      simp [stamped]
    have hreply : ((stamped calls).zip replies)[i].2 = replies[i] := by simp
    rw [hcall, hreply] at hx
    split at hx
    case isTrue hstatus =>
      rw [List.getElem?_eq_getElem hic.1, List.getElem?_eq_getElem hic.2]
      cases hc : calls[i] with
      | enqueue p y =>
          rw [hc] at hx
          cases hx
          exact ⟨rfl, rfl, congrArg some hstatus⟩
      | dequeue out => rw [hc] at hx; cases hx
      | empty => rw [hc] at hx; cases hx
    case isFalse => cases hx
  constructor
  · intro x hx
    obtain ⟨e, he, hx⟩ := List.mem_filterMap.mp hx
    obtain ⟨i, hi, rfl⟩ := List.mem_iff_getElem.mp he
    obtain ⟨hstamp, hfacts⟩ := hentry i hi x hx
    rw [hstamp]
    exact hfacts
  · rw [accepted, List.pairwise_filterMap, List.pairwise_iff_getElem]
    intro i j hi hj hij x hx y hy
    rw [(hentry i hi x hx).1, (hentry j hj y hy).1]
    exact hij

variable (capacity) in
/-- What is stored after a run was accepted in it, and stands in the order of acceptance. -/
theorem stored_accepted (calls : List (Call π α)) :
    (∀ x ∈ stored capacity calls, calls[x.2.1]? = some (.enqueue x.1 x.2.2) ∧
      (specRun (step capacity) [] calls).1[x.2.1]?.map Reply.status = some true) ∧
    (stored capacity calls).Pairwise fun x y => x.2.1 < y.2.1 := by
  have hsub : (stored capacity calls).Sublist
      (accepted (stamped calls) (specRun (step capacity) [] (stamped calls)).1) :=
    specRun_sublist (stamped calls) []
  obtain ⟨hfacts, hincreasing⟩ :=
    accepted_stamped calls (specRun (step capacity) [] (stamped calls)).1
  refine ⟨?_, hincreasing.sublist hsub⟩
  intro x hx
  obtain ⟨hcall, hstatus⟩ := hfacts x (hsub.subset hx)
  refine ⟨hcall, ?_⟩
  rw [specRun_stamped, List.getElem?_map, Option.map_map]
  exact hstatus

end PriorityList

namespace PriorityQueue

open PriorityList
open Refinement (Reply run run_refines specRun)

/-- The stored `(priority, element)` pairs, as the two arrays hold them. -/
def contents (queue : PriorityQueue) : List (BitVec 32 × List Byte) :=
  (List.range queue.size.toNat).map fun i =>
    (queue.priorityArray[i]?.getD 0#32, Slots.slot queue.elementSize.toNat queue.buffer i)

theorem Represents.contents_eq {capacity element_size : Nat} {queue : PriorityQueue}
    {l : List (BitVec 32 × List Byte)} (h : Represents capacity element_size queue l) :
    contents queue = l := by
  unfold contents
  -- entry by entry
  apply List.ext_getElem
  · rw [List.length_map, List.length_range, h.size_eq]
  · intro i _ hi
    obtain ⟨hpriority, hslot⟩ := h.holds i hi
    rw [List.getElem_map, List.getElem_range, hpriority, h.element_size_eq, hslot]
    rfl

section Runs

variable (queue queue₀ : PriorityQueue) (capacity element_size : BitVec 32)
  (items : PriorityQueueItem)

/-- **A bounded priority queue keeps the best.** After any sequence of enqueues on a fresh queue
the stored pairs are a sublist of the offers, so each is an offered item and none is stored twice,
and the stored priorities are the greatest ones offered, as many as fit. -/
theorem enqueue_keeps_best
    (hinit : init (some queue) capacity element_size (some items) = (true, some queue₀))
    (hprod : capacity.toNat * element_size.toNat ≤ 2 ^ 32)
    (hbuf : capacity.toNat * element_size.toNat ≤ items.element.length)
    (harray : capacity.toNat ≤ items.priority.length)
    (offers : List (BitVec 32 × List Byte))
    (hoffers : ∀ x ∈ offers, x.2.length = element_size.toNat) :
    ∃ replies queue',
      run step queue₀ (offers.map fun x => .enqueue x.1 x.2) = some (replies, queue') ∧
      (contents queue').Sublist offers ∧
      (contents queue').length = min offers.length capacity.toNat ∧
      ((contents queue').map Prod.fst).Perm
        (((offers.map Prod.fst).mergeSort fun a b => decide (b ≤ a)).take capacity.toNat) := by
  have hcalls : ∀ c ∈ offers.map (fun x => Call.enqueue x.1 x.2),
      HasSize element_size.toNat c := by
    intro c hc y hy
    obtain ⟨x, hx, rfl⟩ := List.mem_map.mp hc
    cases hy
    exact hoffers x hx
  -- the run of the code is a run of the list, which keeps the best
  obtain ⟨queue', hrun, hrep⟩ :=
    run_refines step_refines (represents_init hinit hprod hbuf harray) _ hcalls
  have hbest := specRun_enqueue_keepsBest capacity.toNat offers KeepsBest.nil
  rw [List.nil_append] at hbest
  refine ⟨_, queue', hrun, ?_⟩
  rw [hrep.contents_eq]
  exact ⟨hbest.sublist, hbest.length_eq, hbest.map_perm_take⟩

/-- **Draining a priority queue is a stable sort.** After any run, the stored items are listed
with the numbers of the calls that brought them, which were accepted. As many dequeues as there
are items return each of them once, by decreasing priority and for equal priorities in the order
of acceptance, and the next dequeue fails. -/
theorem dequeue_drains_stably
    (hinit : init (some queue) capacity element_size (some items) = (true, some queue₀))
    (hprod : capacity.toNat * element_size.toNat ≤ 2 ^ 32)
    (hbuf : capacity.toNat * element_size.toNat ≤ items.element.length)
    (harray : capacity.toNat ≤ items.priority.length)
    (calls : List (Call (BitVec 32) (List Byte)))
    (hcalls : ∀ c ∈ calls, HasSize element_size.toNat c) :
    ∃ replies queue', run step queue₀ calls = some (replies, queue') ∧
      contents queue' = (stored capacity.toNat calls).map (Prod.map id Prod.snd) ∧
      (∀ x ∈ stored capacity.toNat calls, calls[x.2.1]? = some (.enqueue x.1 x.2.2) ∧
        replies[x.2.1]?.map Reply.status = some true) ∧
      ∀ (outs : List (List Byte)) (last : List Byte), outs.length = queue'.size.toNat →
        (∀ out ∈ outs, out.length = element_size.toNat) → last.length = element_size.toNat →
        ∃ (taken : List (BitVec 32 × Nat × List Byte)) (queue'' : PriorityQueue),
          run step queue' ((outs ++ [last]).map Call.dequeue)
            = some (taken.map (fun x => ⟨true, some x.2.2⟩) ++ [⟨false, some last⟩], queue'') ∧
          taken.Perm (stored capacity.toNat calls) ∧
          taken.Pairwise fun x y => y.1 < x.1 ∨ x.1 = y.1 ∧ x.2.1 < y.2.1 := by
  obtain ⟨queue', hrun, hrep⟩ :=
    run_refines step_refines (represents_init hinit hprod hbuf harray) calls hcalls
  obtain ⟨hfacts, hincreasing⟩ := stored_accepted capacity.toNat calls
  have hlist : (specRun (PriorityList.step capacity.toNat) [] calls).2
      = (stored capacity.toNat calls).map (Prod.map id Prod.snd) :=
    congrArg Prod.snd (specRun_stamped calls)
  rw [hlist] at hrep
  refine ⟨_, queue', hrun, hrep.contents_eq, hfacts, ?_⟩
  intro outs last hlen houts hlast
  have hsize : (outs.map (Prod.mk 0)).length = (stored capacity.toNat calls).length := by
    rw [List.length_map, hlen, hrep.size_eq, List.length_map]
  obtain ⟨taken, hdrains, hspec⟩ := specRun_dequeue (outs.map (Prod.mk 0)) (0, last) hsize
  have hdequeues : ∀ c ∈ (outs ++ [last]).map Call.dequeue, HasSize element_size.toNat c := by
    intro c hc y hy
    obtain ⟨out, hout, rfl⟩ := List.mem_map.mp hc
    cases hy
    rcases List.mem_append.mp hout with hout | hout
    · exact houts _ hout
    · rw [List.mem_singleton.mp hout]
      exact hlast
  obtain ⟨queue'', hdrain, -⟩ := run_refines step_refines hrep _ hdequeues
  -- the stamped list is drained by stamped dequeues, and the stamps taken off again
  have hunstamp : ((outs.map (Prod.mk 0) ++ [(0, last)]).map Call.dequeue).map (Call.map Prod.snd)
      = ((outs ++ [last]).map Call.dequeue : List (Call (BitVec 32) (List Byte))) := by
    simp [Call.map, Function.comp_def]
  have hreplies := specRun_map capacity.toNat Prod.snd
    ((outs.map (Prod.mk 0) ++ [(0, last)]).map Call.dequeue) (stored capacity.toNat calls)
  rw [hunstamp, hspec] at hreplies
  refine ⟨taken, queue'', ?_, hdrains.perm, hdrains.pairwise hincreasing⟩
  rw [hdrain, hreplies]
  simp [mapReply, Function.comp_def]

end Runs

/-- Three one-byte items offered to a queue for two: the one of priority 3 has to go. -/
theorem enqueue_keeps_best_three :
    ∃ replies queue', run step ⟨0, 2, 1, [0, 0], [0xAA#8, 0xAA#8]⟩
        [.enqueue 5 [1#8], .enqueue 3 [2#8], .enqueue 7 [3#8]] = some (replies, queue') ∧
      (contents queue').Sublist [(5, [1#8]), (3, [2#8]), (7, [3#8])] ∧
      (contents queue').length = 2 ∧
      ((contents queue').map Prod.fst).Perm [7, 5] := by
  obtain ⟨replies, queue', hrun, hsub, hlen, hperm⟩ := enqueue_keeps_best ⟨0, 0, 0, [], []⟩
    ⟨0, 2, 1, [0, 0], [0xAA#8, 0xAA#8]⟩ 2#32 1#32 ⟨[0, 0], [0xAA#8, 0xAA#8]⟩
    (by decide) (by decide) (by decide) (by decide)
    [(5, [1#8]), (3, [2#8]), (7, [3#8])] (by simp)
  refine ⟨replies, queue', hrun, hsub, hlen, ?_⟩
  simpa [List.mergeSort] using hperm

/-- Two equal items and a better one, offered to a queue for two: the earlier of the equal ones is
evicted, and the better one leaves first. -/
theorem dequeue_drains_stably_three :
    ∃ (replies : List (Reply (List Byte))) (queue' : PriorityQueue)
      (taken : List (BitVec 32 × Nat × List Byte)) (queue'' : PriorityQueue),
      run step ⟨0, 2, 1, [0, 0], [0xAA#8, 0xAA#8]⟩
        [.enqueue 5 [1#8], .enqueue 5 [1#8], .enqueue 7 [2#8]] = some (replies, queue') ∧
      contents queue' = [(5, [1#8]), (7, [2#8])] ∧
      run step queue' [.dequeue [0#8], .dequeue [0#8], .dequeue [9#8]]
        = some (taken.map (fun x => ⟨true, some x.2.2⟩) ++ [⟨false, some [9#8]⟩], queue'') ∧
      taken.Perm [(5, 1, [1#8]), (7, 2, [2#8])] ∧
      taken.Pairwise fun x y => y.1 < x.1 ∨ x.1 = y.1 ∧ x.2.1 < y.2.1 := by
  obtain ⟨replies, queue', hrun, hcontents, -, hdrain⟩ := dequeue_drains_stably ⟨0, 0, 0, [], []⟩
    ⟨0, 2, 1, [0, 0], [0xAA#8, 0xAA#8]⟩ 2#32 1#32 ⟨[0, 0], [0xAA#8, 0xAA#8]⟩
    (by decide) (by decide) (by decide) (by decide)
    [.enqueue 5 [1#8], .enqueue 5 [1#8], .enqueue 7 [2#8]] (by simp [HasSize, Call.element?])
  have hstored : (stored 2 [Call.enqueue 5#32 [1#8], .enqueue 5 [1#8], .enqueue 7 [2#8]]).length
      = 2 := by decide
  have hsize : queue'.size.toNat = 2 := by
    have hlen := congrArg List.length hcontents
    rw [contents, List.length_map, List.length_range, List.length_map] at hlen
    exact hlen.trans hstored
  obtain ⟨taken, queue'', hrun', hperm, hsorted⟩ :=
    hdrain [[0#8], [0#8]] [9#8] hsize.symm (by simp) rfl
  exact ⟨replies, queue', taken, queue'', hrun, hcontents, hrun', hperm, hsorted⟩

end PriorityQueue
end IMUtility
