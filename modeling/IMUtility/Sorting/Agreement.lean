import IMUtility.PriorityQueue.Ranking
import IMUtility.Sorting.Oracle

/-! # Where the sorts agree

The three sorts differ in what they do with equivalent elements. Where the order tells all elements
apart they end with the same buffer, byte for byte (`sorts_agree`). Where it does not, bubble sort
agrees with a priority queue: enqueuing the elements and dequeuing them again is a stable sort too,
and there is only one (`drain_eq_bubbleSort`). -/

namespace IMUtility

open Slots

namespace Sorting

variable {n s : Nat} {gt : List Byte → List Byte → Bool} {buffer buffer' buffer'' : List Byte}

/-! ## One order, one buffer

An array has only one arrangement that is in order when the order tells its elements apart. Each
of the sorts ends in order, so they end with the same elements; and outside the elements none of
them changes a byte.
-/

/-- No element is greater than a later one. -/
def InOrder (n s : Nat) (gt : List Byte → List Byte → Bool) (buffer : List Byte) : Prop :=
  ∀ a b, a < b → b < n → gt (slot s buffer a) (slot s buffer b) = false

theorem InOrder.pairwise (h : InOrder n s gt buffer) :
    (elements n s buffer).Pairwise fun x y => gt x y = false := by
  rw [elements, List.pairwise_map]
  apply List.pairwise_lt_range.imp_of_mem
  intro a b _ hb hab
  exact h a b hab (List.mem_range.mp hb)

/-- Ranks in order are elements in order. -/
theorem inOrder_of_keys (hgt : StrictWeakOn gt (elements n s buffer)) {run : Run}
    (harr : Arranged n s buffer run.buffer)
    (hkeys : ∀ a b, a < b → b < n → run.keys s (rankIn gt (elements n s buffer)) a
      ≤ run.keys s (rankIn gt (elements n s buffer)) b) : InOrder n s gt run.buffer := by
  intro a b hab hb
  exact gt_eq_false_of_keys_le hgt harr (by omega) hb (hkeys a b hab hb)

/-- The order leaves no choice. -/
theorem InOrder.unique (hdistinct : ∀ x ∈ elements n s buffer, ∀ y ∈ elements n s buffer,
      gt x y = false → gt y x = false → x = y)
    (harr' : Arranged n s buffer buffer') (harr'' : Arranged n s buffer buffer'')
    (h' : InOrder n s gt buffer') (h'' : InOrder n s gt buffer'') : buffer' = buffer'' := by
  apply harr'.eq_of_elements harr''
  apply List.Perm.eq_of_pairwise ?_ h'.pairwise h''.pairwise (harr'.perm.trans harr''.perm.symm)
  intro x y hx hy
  exact hdistinct x (harr'.perm.subset hx) y (harr''.perm.subset hy)

section Order

variable {compareFun : CompareFun} (hgt : StrictWeakOn gt (elements n s buffer))
  (hcompare : Answers compareFun s (fun _ => n) gt) (hn : n * s ≤ buffer.length)

include hgt hcompare hn

theorem bubbleSort_inOrder :
    InOrder n s gt (BubbleSort.sort n s compareFun ⟨buffer, []⟩).buffer := by
  have hbuffer : n * s ≤ (Run.mk buffer []).buffer.length := hn
  have hsorted := (BubbleSort.loop_sorts (hcompare.decides hgt fun _ => le_rfl) 0 hbuffer
    (Arranged.refl n s buffer) (SettledFrom.start _ n)).1
  apply inOrder_of_keys hgt (BubbleSort.loop_arranged compareFun 0 hbuffer).1
  intro a b hab hb
  exact hsorted a b hab (Nat.zero_le b) hb

theorem selectionSort_inOrder (hs : 0 < s) (hsize : n * s ≤ 2 ^ 32) :
    InOrder n s gt (SelectionSort.sort n s compareFun ⟨buffer, []⟩).buffer := by
  have hplaced : SelectionSort.Placed n s _ buffer _
      (SelectionSort.sort n s compareFun ⟨buffer, []⟩) :=
    SelectionSort.sort_placed (hcompare.decides hgt fun _ => le_rfl)
      (uint32Offset_eq (last_lt_of_mul_le hs (by decide) hsize)) hn rfl
  have hcount : n ≤ n * s := Nat.le_mul_of_pos_right n hs
  apply inOrder_of_keys hgt hplaced.arranged
  intro a b hab hb
  exact hplaced.settled a b hab (by omega) hb

theorem heapSort_inOrder : InOrder n s gt (HeapSort.sort n s compareFun ⟨buffer, []⟩).buffer := by
  -- a comparator that answers on the array answers below every heap bound
  have hinHeap : HeapSort.AnswersInHeap compareFun n s gt := by
    intro run i j hi hj
    exact hcompare run i j (lt_of_lt_of_le hi (min_le_left _ _))
      (lt_of_lt_of_le hj (min_le_left _ _))
  have hextracted : HeapSort.Extracted n s _ buffer 0 (HeapSort.sort n s compareFun ⟨buffer, []⟩) :=
    HeapSort.sort_extracted (hinHeap.decides hgt fun _ => min_le_left _ _) hn
  apply inOrder_of_keys hgt hextracted.arranged
  intro a b hab hb
  exact hextracted.settled a b hab (Nat.zero_le b) hb

end Order

/-- **The sorts agree** where the order tells all elements apart: the three buffers are the same,
whatever the comparator answers about anything but the elements. The sizes are those for which heap
sort is free of overflows. -/
theorem sorts_agree (n s : Nat) (hs : 0 < s) (hsize : 2 * n * s ≤ 2 ^ 31 - 1)
    (buffer : List Byte) (hn : n * s ≤ buffer.length) (gt : List Byte → List Byte → Bool)
    (hgt : StrictWeakOn gt (elements n s buffer))
    (hdistinct : ∀ x ∈ elements n s buffer, ∀ y ∈ elements n s buffer,
      gt x y = false → gt y x = false → x = y)
    (bubbleCompare selectionCompare heapCompare : CompareFun)
    (hbubble : Answers bubbleCompare s (fun _ => n) gt)
    (hselection : Answers selectionCompare s (fun _ => n) gt)
    (hheap : Answers heapCompare s (fun _ => n) gt) :
    (BubbleSort.sort n s bubbleCompare ⟨buffer, []⟩).buffer
        = (HeapSort.sort n s heapCompare ⟨buffer, []⟩).buffer ∧
      (SelectionSort.sort n s selectionCompare ⟨buffer, []⟩).buffer
        = (HeapSort.sort n s heapCompare ⟨buffer, []⟩).buffer := by
  have hbuffer : n * s ≤ (Run.mk buffer []).buffer.length := hn
  have hsize' : n * s ≤ 2 ^ 32 := by
    have hle : n * s ≤ 2 * n * s := Nat.mul_le_mul_right s (by omega)
    omega
  -- heap sort ties the two others together: what it leaves is arranged and in order
  have hheapArr : Arranged n s buffer (HeapSort.sort n s heapCompare ⟨buffer, []⟩).buffer :=
    HeapSort.sort_arranged hbuffer
  have hheapOrder := heapSort_inOrder hgt hheap hn
  refine ⟨?_, ?_⟩
  · exact InOrder.unique hdistinct (BubbleSort.loop_arranged bubbleCompare 0 hbuffer).1 hheapArr
      (bubbleSort_inOrder hgt hbubble hn) hheapOrder
  · exact InOrder.unique hdistinct
      (SelectionSort.sort_arranged
        (uint32Offset_eq (last_lt_of_mul_le hs (by decide) hsize')) hbuffer) hheapArr
      (selectionSort_inOrder hgt hselection hn hs hsize') hheapOrder

/-- Three bytes. -/
theorem sorts_agree_three :
    (BubbleSort.sort 3 1 (comparing 1 greaterByte) ⟨[7, 9, 5], []⟩).buffer
        = (HeapSort.sort 3 1 (comparing 1 greaterByte) ⟨[7, 9, 5], []⟩).buffer ∧
      (SelectionSort.sort 3 1 (comparing 1 greaterByte) ⟨[7, 9, 5], []⟩).buffer
        = (HeapSort.sort 3 1 (comparing 1 greaterByte) ⟨[7, 9, 5], []⟩).buffer :=
  sorts_agree 3 1 (by decide) (by decide) [7, 9, 5] (by decide) greaterByte
    (greaterByte_strictWeakOn _) (by decide) (comparing 1 greaterByte) (comparing 1 greaterByte)
    (comparing 1 greaterByte) (comparing_answers 1 greaterByte _)
    (comparing_answers 1 greaterByte _) (comparing_answers 1 greaterByte _)

end Sorting

/-! ## Sorting by a priority queue

With equal priorities there are several arrangements in order, but only one of them is stable
(`eq_of_stable`). A drained priority queue is stable by `Drains.filter_eq`, bubble sort by
`bubbleSort_filter`. The priority is read off the bytes of an element, so that both are given the
same keys.
-/

namespace PriorityList

open Refinement (Reply specRun specRun_cons specRun_append)

variable {π α : Type} [LinearOrder π] {capacity : Nat}

/-- While there is room, every enqueue is accepted at the end. -/
theorem specRun_enqueue (xs l : List (π × α)) (hroom : l.length + xs.length ≤ capacity) :
    specRun (step capacity) l (xs.map fun x => .enqueue x.1 x.2)
      = (List.replicate xs.length ⟨true, none⟩, l ++ xs) := by
  induction xs generalizing l with
  | nil => simp [specRun]
  | cons x xs ih =>
      rw [List.length_cons] at hroom
      have hstep : step capacity l (.enqueue x.1 x.2) = (⟨true, none⟩, l ++ [x]) := by
        have hne : l.length ≠ capacity := by omega
        simp [step, enqueue, hne]
      have hrest := ih (l ++ [x]) (by rw [List.length_append, List.length_singleton]; omega)
      rw [List.map_cons, specRun_cons, hstep, hrest, List.append_assoc]
      rfl

/-- A list drains into the one stable arrangement of its entries. -/
theorem specRun_drain (outs : List α) (last : α) {l ys : List (π × α)}
    (houts : outs.length = l.length) (horder : ys.Pairwise fun x y => y.1 ≤ x.1)
    (hstable : ∀ p, ys.filter (fun x => x.1 = p) = l.filter (fun x => x.1 = p)) :
    (specRun (step capacity) l ((outs ++ [last]).map Call.dequeue)).1
      = ys.map (fun x => ⟨true, some x.2⟩) ++ [⟨false, some last⟩] := by
  obtain ⟨taken, hdrains, hdequeue⟩ : ∃ taken, Drains Prod.fst l taken ∧
      specRun (step capacity) l ((outs ++ [last]).map Call.dequeue)
        = (taken.map (fun x => ⟨true, some x.2⟩) ++ [⟨false, some last⟩], []) :=
    specRun_dequeue outs last houts
  -- by decreasing priority, and stable
  have hdescending : taken.Pairwise fun x y => y.1 ≤ x.1 := by
    have hany : l.Pairwise fun _ _ => True := List.pairwise_of_forall fun _ _ => trivial
    apply (hdrains.pairwise hany).imp
    rintro x y (hlt | ⟨heq, -⟩)
    · exact hlt.le
    · exact heq.ge
  have htaken : taken = ys :=
    eq_of_stable hdescending horder fun p => (hdrains.filter_eq p).trans (hstable p).symm
  rw [hdequeue, htaken]

end PriorityList

namespace Sorting

variable {n s : Nat} {gt : List Byte → List Byte → Bool} {buffer : List Byte}
  {compareFun : CompareFun}

/-- Bubble sort leaves the elements of one key in their order. -/
theorem bubbleSort_filter {κ : Type} [LinearOrder κ] (key : List Byte → κ)
    (hcompare : Answers compareFun s (fun _ => n) fun x y => decide (key x < key y))
    (hn : n * s ≤ buffer.length) (k : κ) :
    (elements n s (BubbleSort.sort n s compareFun ⟨buffer, []⟩).buffer).filter (fun x => key x = k)
      = (elements n s buffer).filter fun x => key x = k := by
  have hbuffer : n * s ≤ (Run.mk buffer []).buffer.length := hn
  have hgt := StrictWeakOn.of_descending key (elements n s buffer)
  have harr := (BubbleSort.loop_arranged compareFun 0 hbuffer).1
  have hstable := (BubbleSort.loop_sorts (hcompare.decides hgt fun _ => le_rfl) 0 hbuffer
    (Arranged.refl n s buffer) (SettledFrom.start _ n)).2
  rw [BubbleSort.sort]
  generalize (BubbleSort.loop n s compareFun ⟨buffer, []⟩ 0).1 = result at harr hstable ⊢
  by_cases hk : ∃ x ∈ elements n s buffer, key x = k
  · obtain ⟨x, hx, rfl⟩ := hk
    -- the elements with the key of `x` are those of its rank
    have hrank : ∀ l : List (List Byte), l ⊆ elements n s buffer →
        l.filter (fun y => key y = key x) = l.filter fun y =>
          rankIn (fun x y => decide (key x < key y)) (elements n s buffer) y
            == rankIn (fun x y => decide (key x < key y)) (elements n s buffer) x := by
      intro l hl
      apply List.filter_congr
      intro y hy
      rw [← hgt.equivalent_eq hx (hl hy), equivalent_descending]
    rw [hrank _ harr.perm.subset, hrank _ (List.Subset.refl _)]
    exact hstable _
  · have hnone : ∀ l : List (List Byte), l ⊆ elements n s buffer →
        l.filter (fun y => key y = k) = [] := by
      intro l hl
      rw [List.filter_eq_nil_iff]
      intro y hy hky
      exact hk ⟨y, hl hy, of_decide_eq_true hky⟩
    rw [hnone _ harr.perm.subset, hnone _ (List.Subset.refl _)]

end Sorting

namespace PriorityQueue

open PriorityList Sorting
open Refinement (Reply run run_refines specRun specRun_append)

/-- **A priority queue sorts like bubble sort.** The elements of an array are enqueued, each with a
priority read off its bytes, and dequeued again. They come out as `BubbleSort_sort` leaves them in
the array, when its comparator puts the greater priority first, elements of one priority in the
order in which they were. No offset of the sort overflows. -/
theorem drain_eq_bubbleSort (queue queue₀ : PriorityQueue) (capacity element_size : BitVec 32)
    (items : PriorityQueueItem)
    (hinit : init (some queue) capacity element_size (some items) = (true, some queue₀))
    (hprod : capacity.toNat * element_size.toNat ≤ 2 ^ 32)
    (hbuf : capacity.toNat * element_size.toNat ≤ items.element.length)
    (harray : capacity.toNat ≤ items.priority.length)
    (n : Nat) (hroom : n ≤ capacity.toNat) (hsize : n * element_size.toNat < 2 ^ 31)
    (buffer : List Byte) (hn : n * element_size.toNat ≤ buffer.length)
    (priority : List Byte → BitVec 32) (compareFun : CompareFun)
    (hcompare : Answers compareFun element_size.toNat (fun _ => n)
      fun x y => decide (priority x < priority y))
    (outs : List (List Byte)) (last : List Byte) (houts : outs.length = n)
    (hout : ∀ out ∈ outs ++ [last], out.length = element_size.toNat) :
    (∃ queue', run step queue₀
        ((elements n element_size.toNat buffer).map (fun x => .enqueue (priority x) x)
          ++ (outs ++ [last]).map Call.dequeue)
      = some (List.replicate n ⟨true, none⟩
          ++ ((elements n element_size.toNat
              (BubbleSort.sort n element_size.toNat compareFun ⟨buffer, []⟩).buffer).map
                (fun x => ⟨true, some x⟩) ++ [⟨false, some last⟩]), queue')) ∧
      OffsetsFit element_size.toNat
        (BubbleSort.sort n element_size.toNat compareFun ⟨buffer, []⟩).log := by
  have hbuffer : n * element_size.toNat ≤ (Run.mk buffer []).buffer.length := hn
  have hlength : ∀ x ∈ elements n element_size.toNat buffer, x.length = element_size.toNat := by
    intro x hx
    obtain ⟨i, hi, rfl⟩ := List.mem_map.mp hx
    exact length_slot hn (List.mem_range.mp hi)
  -- every call brings an element of the right size
  have hcalls : ∀ c ∈ (elements n element_size.toNat buffer).map
      (fun x => Call.enqueue (priority x) x) ++ (outs ++ [last]).map Call.dequeue,
      HasSize element_size.toNat c := by
    intro c hc y hy
    rcases List.mem_append.mp hc with hc | hc
    · obtain ⟨x, hx, rfl⟩ := List.mem_map.mp hc
      cases hy
      exact hlength _ hx
    · obtain ⟨out, hmem, rfl⟩ := List.mem_map.mp hc
      cases hy
      exact hout _ hmem
  obtain ⟨queue', hrun, -⟩ :=
    run_refines step_refines (represents_init hinit hprod hbuf harray) _ hcalls
  have hlog := (BubbleSort.loop_arranged compareFun 0 hbuffer).2.1 (inBounds_nil n)
  refine ⟨⟨queue', hrun.trans ?_⟩, hlog.offsetsFit (last_lt_of_mul_lt hsize)⟩
  have hgt := StrictWeakOn.of_descending priority (elements n element_size.toNat buffer)
  have hcount : (elements n element_size.toNat buffer).length = n := by
    rw [elements, List.length_map, List.length_range]
  -- the pairs that are enqueued, and the same for the sorted array
  let pair (x : List Byte) := (priority x, x)
  have hpairs : (elements n element_size.toNat buffer).map (fun x => Call.enqueue (priority x) x)
      = ((elements n element_size.toNat buffer).map pair).map fun x => .enqueue x.1 x.2 := by
    rw [List.map_map]
    rfl
  have hfilter : ∀ (p : BitVec 32) (l : List (List Byte)),
      (l.map pair).filter (fun x => x.1 = p) = (l.filter fun x => priority x = p).map pair :=
    fun p l => List.filter_map
  have horder : ((elements n element_size.toNat (BubbleSort.sort n element_size.toNat compareFun
      ⟨buffer, []⟩).buffer).map pair).Pairwise fun x y => y.1 ≤ x.1 := by
    rw [List.pairwise_map]
    apply (bubbleSort_inOrder hgt hcompare hn).pairwise.imp
    intro x y hxy
    exact not_lt.mp (of_decide_eq_false hxy)
  rw [hpairs, specRun_append, specRun_enqueue _ _ (by simpa [hcount] using hroom),
    List.nil_append, specRun_drain outs last (by rw [List.length_map, hcount, houts]) horder
      fun p => by rw [hfilter, hfilter, bubbleSort_filter priority hcompare hn],
    List.length_map, hcount, List.map_map]
  rfl

/-- The first byte of an element, for its priority. -/
def firstByte (x : List Byte) : BitVec 32 := (x.headD 0).setWidth 32

/-- Three elements of two bytes. -/
theorem drain_eq_bubbleSort_three :
    (∃ queue', run step ⟨0, 4, 2, [0, 0, 0, 0], List.replicate 8 0xAA#8⟩
        ((elements 3 2 [5, 1, 7, 2, 5, 3]).map (fun x => Call.enqueue (firstByte x) x)
          ++ ([[0#8, 0#8], [0#8, 0#8], [0#8, 0#8]] ++ [[9#8, 9#8]]).map Call.dequeue)
      = some (List.replicate 3 ⟨true, none⟩
          ++ ((elements 3 2 (BubbleSort.sort 3 2
              (comparing 2 fun x y => decide (firstByte x < firstByte y))
              ⟨[5, 1, 7, 2, 5, 3], []⟩).buffer).map
                (fun x => ⟨true, some x⟩) ++ [⟨false, some [9, 9]⟩]), queue')) ∧
      OffsetsFit 2 (BubbleSort.sort 3 2
        (comparing 2 fun x y => decide (firstByte x < firstByte y)) ⟨[5, 1, 7, 2, 5, 3], []⟩).log :=
  drain_eq_bubbleSort ⟨0, 0, 0, [], []⟩ ⟨0, 4, 2, [0, 0, 0, 0], List.replicate 8 0xAA#8⟩ 4#32 2#32
    ⟨[0, 0, 0, 0], List.replicate 8 0xAA#8⟩ (by decide) (by decide) (by decide) (by decide) 3
    (by decide) (by decide) [5, 1, 7, 2, 5, 3] (by decide) firstByte
    (comparing 2 _) (comparing_answers 2 _ _) [[0, 0], [0, 0], [0, 0]] [9, 9] rfl (by decide)

end PriorityQueue
end IMUtility
