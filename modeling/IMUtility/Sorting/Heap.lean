import IMUtility.Sorting.Basic
import IMUtility.Lib.Keys

/-! # `heap_sort.c`

`Heapify` sifts one entry down. Each iteration of its loop compares the entry with both children
and looks only afterwards whether they are below the heap bound, so that the comparator is asked
about positions its answer does not matter for. `HeapSort_sort` makes a heap of the array
(`HeapFrom`), and then moves the root behind a heap that gets shorter by one (`SettledFrom`). -/

namespace IMUtility
namespace HeapSort

open Slots
open Sorting

/-! ## The loops

The loop of `Heapify` goes on at `largest` until that is `index` again. Both comparisons are made
in every iteration, and the guards `left < n` and `right < n` stand behind them; the log notes
each iteration with its bound, so that a comparator may be asked to be right below that bound
only.
-/

/-- An iteration of the loop of `Heapify`, up to the swap: `largest`. -/
def selectLargest (n element_size : Nat) (compareFun : CompareFun) (run : Run) (index : Nat) :
    Nat × Run :=
  let run := { run with log := .iterate n index :: run.log }
  let left := 2 * index + 1
  let right := 2 * index + 2
  let (compare_ret_value, run) := run.compare compareFun (int32Offset element_size) left index
  let largest := if left < n ∧ compare_ret_value then left else index
  let (compare_ret_value, run) := run.compare compareFun (int32Offset element_size) right largest
  let largest := if right < n ∧ compare_ret_value then right else largest
  (largest, run)

/-- Where the loop of `Heapify` goes on is below the bound, and further down. -/
theorem selectLargest_lt {n s : Nat} {compareFun : CompareFun} {run : Run} {index : Nat}
    (h : (selectLargest n s compareFun run index).1 ≠ index) :
    index < (selectLargest n s compareFun run index).1 ∧
      (selectLargest n s compareFun run index).1 < n := by
  revert h
  simp only [selectLargest]
  -- the right child, the left one, or neither
  grind

/-- `Heapify`. -/
def heapify (n element_size : Nat) (compareFun : CompareFun) (run : Run) (index : Nat) : Run :=
  if (selectLargest n element_size compareFun run index).1 ≠ index then
    heapify n element_size compareFun
      ((selectLargest n element_size compareFun run index).2.swap element_size
        (int32Offset element_size) index (selectLargest n element_size compareFun run index).1)
      (selectLargest n element_size compareFun run index).1
  else (selectLargest n element_size compareFun run index).2
termination_by n - index
decreasing_by
  have hlt := selectLargest_lt ‹_›
  omega

/-- The first loop of `HeapSort_sort`, over `i = count - 1`, ..., `0`. -/
def buildLoop (number_of_elements element_size : Nat) (compareFun : CompareFun) (run : Run) :
    (count : Nat) → Run
  | 0 => run
  | i + 1 =>
    buildLoop number_of_elements element_size compareFun
      (heapify number_of_elements element_size compareFun run i) i

/-- The second loop of `HeapSort_sort`, over `i = count - 1`, ..., `0`. -/
def extractLoop (element_size : Nat) (compareFun : CompareFun) (run : Run) : (count : Nat) → Run
  | 0 => run
  | i + 1 =>
    extractLoop element_size compareFun
      (heapify i element_size compareFun (run.swap element_size (int32Offset element_size) 0 i) 0) i

/-- `HeapSort_sort`. -/
def sort (number_of_elements element_size : Nat) (compareFun : CompareFun) (run : Run) : Run :=
  extractLoop element_size compareFun
    (buildLoop number_of_elements element_size compareFun run (number_of_elements / 2))
    number_of_elements

variable {n m s : Nat} {compareFun : CompareFun} {run : Run} {index i : Nat}

/-! ## Whatever the comparator answers

The loop goes on at an entry below the bound and further down, so it ends and swaps entries of the
heap only. The elements are rearranged, whatever their order is.
-/

@[simp] theorem selectLargest_buffer (n s : Nat) (compareFun : CompareFun) (run : Run)
    (index : Nat) : (selectLargest n s compareFun run index).2.buffer = run.buffer := rfl

/-- An iteration exchanges the entry at `index` with the one selected. -/
theorem sift_buffer (hnm : n ≤ m) (hm : m * s ≤ run.buffer.length)
    (hne : (selectLargest n s compareFun run index).1 ≠ index) :
    ((selectLargest n s compareFun run index).2.swap s (int32Offset s) index
        (selectLargest n s compareFun run index).1).buffer
      = exchange s run.buffer index (selectLargest n s compareFun run index).1 := by
  obtain ⟨hlt, hbound⟩ := selectLargest_lt hne
  exact swap_buffer hm (show index < m by omega) (Nat.lt_of_lt_of_le hbound hnm)
    (int32Offset_eq s m)

theorem sift_arranged (hnm : n ≤ m) (hm : m * s ≤ run.buffer.length)
    (hne : (selectLargest n s compareFun run index).1 ≠ index) :
    Arranged m s run.buffer ((selectLargest n s compareFun run index).2.swap s (int32Offset s) index
      (selectLargest n s compareFun run index).1).buffer := by
  obtain ⟨hlt, hbound⟩ := selectLargest_lt hne
  rw [sift_buffer hnm hm hne]
  exact Arranged.exchange hm (by omega) (Nat.lt_of_lt_of_le hbound hnm)

theorem heapify_arranged (compareFun : CompareFun) (index : Nat) (hn : n * s ≤ run.buffer.length) :
    Arranged n s run.buffer (heapify n s compareFun run index).buffer := by
  fun_induction heapify n s compareFun run index with
  | case1 run index hne ih =>
      have hswap := sift_arranged le_rfl hn hne
      exact hswap.trans (ih (by rwa [hswap.length_eq]))
  | case2 run index heq => exact Arranged.refl n s run.buffer

theorem buildLoop_arranged (compareFun : CompareFun) (hn : n * s ≤ run.buffer.length)
    (count : Nat) :
    Arranged n s run.buffer (buildLoop n s compareFun run count).buffer := by
  induction count generalizing run with
  | zero => exact Arranged.refl n s run.buffer
  | succ i ih =>
      have hsift := heapify_arranged compareFun i hn
      exact hsift.trans (ih (by rwa [hsift.length_eq]))

/-- What one pass of the second loop does stays in front of its bound. -/
theorem extract_arranged (compareFun : CompareFun) (hn : (i + 1) * s ≤ run.buffer.length) :
    Arranged (i + 1) s run.buffer
      (heapify i s compareFun (run.swap s (int32Offset s) 0 i) 0).buffer := by
  have hswap := swap_arranged hn (Nat.succ_pos i) (Nat.lt_succ_self i) (int32Offset_eq s (i + 1))
  have hshort : i * s ≤ (run.swap s (int32Offset s) 0 i).buffer.length := by
    rw [hswap.length_eq]
    exact (Nat.mul_le_mul_right s (Nat.le_succ i)).trans hn
  exact hswap.trans ((heapify_arranged compareFun 0 hshort).mono (Nat.le_succ i))

theorem extractLoop_arranged {count : Nat} (hcount : count ≤ n) (hn : n * s ≤ run.buffer.length) :
    Arranged n s run.buffer (extractLoop s compareFun run count).buffer := by
  induction count generalizing run with
  | zero => exact Arranged.refl n s run.buffer
  | succ i ih =>
      have hpass := (extract_arranged compareFun
        ((Nat.mul_le_mul_right s hcount).trans hn)).mono hcount
      exact hpass.trans (ih (by omega) (by rwa [hpass.length_eq]))

/-- **Heap sort rearranges**, whatever the comparator answers. -/
theorem sort_arranged (hn : n * s ≤ run.buffer.length) :
    Arranged n s run.buffer (sort n s compareFun run).buffer := by
  have hbuild := buildLoop_arranged compareFun hn (n / 2)
  exact hbuild.trans (extractLoop_arranged le_rfl (by rwa [hbuild.length_eq]))

/-! ## The order

Below the heap bound the comparator compares keys, and then an iteration selects the greatest of
the entry and its children (`selectLargest_fst`). The rest is about keys: `SiftFrom` is what an
iteration preserves, and with nothing greater below it becomes `HeapFrom`. The second loop keeps a
heap in front and the greatest entries, in order, behind it (`Extracted`).
-/

/-- The heap bound of the iteration of `Heapify` that has begun last. -/
def heapBound : List Event → Nat
  | .iterate n _ :: _ => n
  | .compare _ _ :: log => heapBound log
  | .swap _ _ :: log => heapBound log
  | [] => 0

/-- The entry among `index` and its children below `n` that has the greatest key. -/
def largestOf (key : Nat → Nat) (n index : Nat) : Nat :=
  let largest :=
    if 2 * index + 1 < n ∧ key index < key (2 * index + 1) then 2 * index + 1 else index
  if 2 * index + 2 < n ∧ key largest < key (2 * index + 2) then 2 * index + 2 else largest

theorem largestOf_max (key : Nat → Nat) (n index : Nat) :
    key index ≤ key (largestOf key n index) ∧
      ∀ d, Child index d → d < n → key d ≤ key (largestOf key n index) := by
  simp only [largestOf, Child]
  -- `index` itself, and its two children
  refine ⟨?_, ?_⟩
  · grind
  · rintro d (rfl | rfl) hd
    · grind
    · grind

theorem largestOf_cases (key : Nat → Nat) (n index : Nat) :
    largestOf key n index = index ∨
      Child index (largestOf key n index) ∧ largestOf key n index < n := by
  simp only [largestOf, Child]
  grind

section Order

variable {rank : List Byte → Nat} {buffer : List Byte}

/-- The comparator compares keys below the current heap bound. -/
abbrev DecidesInHeap (compareFun : CompareFun) (m s : Nat) (rank : List Byte → Nat)
    (buffer : List Byte) : Prop :=
  Decides compareFun m s (fun run => min m (heapBound run.log)) rank buffer

/-- A child below the bound is selected if it has the greater key, and one that is not below the
bound is not, whatever the comparator answers. -/
theorem select_iff (hdecides : DecidesInHeap compareFun m s rank buffer) (hnm : n ≤ m)
    (harr : Arranged m s buffer run.buffer) (run' : Run) (hbuffer : run'.buffer = run.buffer)
    (hbound : heapBound run'.log = n) {child largest : Nat} (hlt : largest < child) :
    (child < n ∧ compareFun run' (int32Offset s child) (int32Offset s largest) = true) ↔
      (child < n ∧ run.keys s rank largest < run.keys s rank child) := by
  apply and_congr_right
  intro hchild
  have hscope : child < min m (heapBound run'.log) ∧ largest < min m (heapBound run'.log) := by
    omega
  have hanswer := hdecides run' (by rwa [hbuffer]) child largest hscope.1 hscope.2
  rw [int32Offset, int32Offset, hanswer, decide_eq_true_iff, Run.keys_congr hbuffer]

/-- **What is selected** is the greatest of the entries below the bound. -/
theorem selectLargest_fst (hdecides : DecidesInHeap compareFun m s rank buffer) (hnm : n ≤ m)
    (harr : Arranged m s buffer run.buffer) (index : Nat) :
    (selectLargest n s compareFun run index).1 = largestOf (run.keys s rank) n index := by
  simp only [selectLargest, largestOf, compare_fst,
    select_iff hdecides hnm harr ⟨run.buffer, .iterate n index :: run.log⟩ rfl rfl
      (show index < 2 * index + 1 by omega)]
  generalize hleft : (if 2 * index + 1 < n ∧ run.keys s rank index < run.keys s rank (2 * index + 1)
    then 2 * index + 1 else index) = largest
  -- the right child is compared with an entry in front of it
  have hlt : largest < 2 * index + 2 := by
    rw [← hleft]
    split <;> omega
  simp only [Run.compare, select_iff hdecides hnm harr
    ⟨run.buffer, .compare (2 * index + 1) index :: .iterate n index :: run.log⟩ rfl rfl hlt]

/-- **`Heapify` makes a heap** of one in which the entry at `index` may be too small. By induction
on the iterations. -/
theorem heapify_heap {lo : Nat} (hdecides : DecidesInHeap compareFun m s rank buffer) (hnm : n ≤ m)
    (hm : m * s ≤ run.buffer.length) (harr : Arranged m s buffer run.buffer)
    (hsift : SiftFrom (run.keys s rank) lo n index) :
    HeapFrom ((heapify n s compareFun run index).keys s rank) lo n := by
  fun_induction heapify n s compareFun run index with
  | case1 run index hne ih =>
      have hselected := selectLargest_fst hdecides hnm harr index
      obtain ⟨hlt, hbound⟩ := selectLargest_lt hne
      have hswap := sift_arranged hnm hm hne
      have hkeys := keys_exchange hm (show index < m by omega) (Nat.lt_of_lt_of_le hbound hnm)
        (sift_buffer hnm hm hne) rank
      apply ih (by rwa [hswap.length_eq]) (harr.trans hswap)
      rw [hkeys, hselected]
      have hmax := largestOf_max (run.keys s rank) n index
      -- an iteration that goes on has selected a child
      rcases largestOf_cases (run.keys s rank) n index with heq | ⟨hchild, hlargest⟩
      · exact absurd (hselected.trans heq) hne
      · exact hsift.exchange hchild hlargest hmax.2 hmax.1
  | case2 run index heq =>
      have hselected := selectLargest_fst hdecides hnm harr index
      rw [not_not.mp heq] at hselected
      have hmax := largestOf_max (run.keys s rank) n index
      rw [← hselected] at hmax
      rw [Run.keys_congr (selectLargest_buffer n s compareFun run index)]
      exact hsift.stop hmax.2

/-- The first loop makes a heap, from its last parent to the root. -/
theorem buildLoop_heap (hdecides : DecidesInHeap compareFun n s rank buffer)
    (hn : n * s ≤ run.buffer.length) (harr : Arranged n s buffer run.buffer) {count : Nat}
    (hheap : HeapFrom (run.keys s rank) count n) :
    HeapFrom ((buildLoop n s compareFun run count).keys s rank) 0 n := by
  induction count generalizing run with
  | zero => exact hheap
  | succ i ih =>
      have hpass := heapify_arranged compareFun i hn
      exact ih (by rwa [hpass.length_eq]) (harr.trans hpass)
        (heapify_heap hdecides le_rfl hn harr hheap.sift)

/-- The state of the second loop: a heap, and behind it the greatest entries in order. -/
structure Extracted (n s : Nat) (rank : List Byte → Nat) (buffer : List Byte) (count : Nat)
    (run : Run) : Prop where
  arranged : Arranged n s buffer run.buffer
  heap : HeapFrom (run.keys s rank) 0 count
  settled : SettledFrom (run.keys s rank) count n

/-- The root of the heap, exchanged with its last entry, is settled; the entry that takes its place
is the one to sift. -/
theorem Extracted.step (hdecides : DecidesInHeap compareFun n s rank buffer)
    (hn : n * s ≤ buffer.length) (hi : i < n) (h : Extracted n s rank buffer (i + 1) run) :
    Extracted n s rank buffer i
      (heapify i s compareFun (run.swap s (int32Offset s) 0 i) 0) := by
  have hn' : n * s ≤ run.buffer.length := by rwa [h.arranged.length_eq]
  have hbuffer := swap_buffer hn' (show 0 < n by omega) hi (int32Offset_eq s n)
  have hkeys := keys_exchange hn' (show 0 < n by omega) hi hbuffer rank
  have hswap := Arranged.exchange hn' (show 0 < n by omega) hi
  rw [← hbuffer] at hswap
  have hlength : n * s ≤ (run.swap s (int32Offset s) 0 i).buffer.length := by rwa [hswap.length_eq]
  have hshort : i * s ≤ (run.swap s (int32Offset s) 0 i).buffer.length :=
    (Nat.mul_le_mul_right s (Nat.le_of_lt hi)).trans hlength
  have hpass := heapify_arranged compareFun 0 hshort
  -- the root was the greatest of the heap, so it is in its place behind it
  have hlast : SettledFrom ((run.swap s (int32Offset s) 0 i).keys s rank) i n := by
    rw [hkeys]
    exact h.heap.settle_root h.settled
  -- at the root the heap may be broken, and nowhere else
  have hsift : SiftFrom ((run.swap s (int32Offset s) 0 i).keys s rank) 0 i 0 := by
    rw [hkeys]
    exact h.heap.sift_last
  exact ⟨(h.arranged.trans hswap).trans (hpass.mono (Nat.le_of_lt hi)),
    heapify_heap hdecides (Nat.le_of_lt hi) hlength (h.arranged.trans hswap) hsift,
    hlast.shuffle (hpass.shuffles rank)⟩

theorem extractLoop_extracted (hdecides : DecidesInHeap compareFun n s rank buffer)
    (hn : n * s ≤ buffer.length) {count : Nat} (hcount : count ≤ n)
    (h : Extracted n s rank buffer count run) :
    Extracted n s rank buffer 0 (extractLoop s compareFun run count) := by
  induction count generalizing run with
  | zero => exact h
  | succ i ih => exact ih (by omega) (h.step hdecides hn (by omega))

theorem sort_extracted (hdecides : DecidesInHeap compareFun n s rank buffer)
    (hn : n * s ≤ buffer.length) :
    Extracted n s rank buffer 0 (sort n s compareFun ⟨buffer, []⟩) := by
  have hbuffer : n * s ≤ (Run.mk buffer []).buffer.length := hn
  apply extractLoop_extracted hdecides hn le_rfl
  -- the entries from `n / 2` on are leaves
  refine ⟨buildLoop_arranged compareFun hbuffer _, ?_, SettledFrom.start _ n⟩
  exact buildLoop_heap hdecides hbuffer (Arranged.refl n s buffer) (HeapFrom.leaves _ (by omega))

/-! ## Answers that do not matter

The source compares with children that lie at or beyond the bound and throws the answer away. Two
comparators that agree below it therefore lead to the same buffer, although their logs, and what
they answer elsewhere, may differ.
-/

section Congr

variable {compareFun' : CompareFun} {run' : Run}

theorem selectLargest_congr (hdecides : DecidesInHeap compareFun m s rank buffer)
    (hdecides' : DecidesInHeap compareFun' m s rank buffer) (hnm : n ≤ m)
    (harr : Arranged m s buffer run.buffer) (hsame : run'.buffer = run.buffer) (index : Nat) :
    (selectLargest n s compareFun' run' index).1 = (selectLargest n s compareFun run index).1 := by
  rw [selectLargest_fst hdecides hnm harr, selectLargest_fst hdecides' hnm (by rwa [hsame]),
    Run.keys_congr hsame]

/-- Two comparators that compare the same keys below the heap bound take `Heapify` the same way. -/
theorem heapify_congr (hdecides : DecidesInHeap compareFun m s rank buffer)
    (hdecides' : DecidesInHeap compareFun' m s rank buffer) (hnm : n ≤ m)
    (hm : m * s ≤ run.buffer.length) (harr : Arranged m s buffer run.buffer)
    (hsame : run'.buffer = run.buffer) :
    (heapify n s compareFun' run' index).buffer = (heapify n s compareFun run index).buffer := by
  fun_induction heapify n s compareFun run index generalizing run' with
  | case1 run index hne ih =>
      have hselected := selectLargest_congr hdecides hdecides' hnm harr hsame index
      have hne' : (selectLargest n s compareFun' run' index).1 ≠ index := by rwa [hselected]
      have hswap := sift_arranged hnm hm hne
      have hbuffer' := sift_buffer hnm (by rwa [hsame]) hne'
      rw [heapify, if_pos hne', hselected]
      apply ih (by rwa [hswap.length_eq]) (harr.trans hswap)
      rw [sift_buffer hnm hm hne, ← hselected, hbuffer', hsame, hselected]
  | case2 run index heq =>
      have hselected := selectLargest_congr hdecides hdecides' hnm harr hsame index
      rw [heapify, if_neg (by rwa [hselected])]
      exact hsame

theorem buildLoop_congr (hdecides : DecidesInHeap compareFun n s rank buffer)
    (hdecides' : DecidesInHeap compareFun' n s rank buffer) (hn : n * s ≤ run.buffer.length)
    (harr : Arranged n s buffer run.buffer) (hsame : run'.buffer = run.buffer) (count : Nat) :
    (buildLoop n s compareFun' run' count).buffer
      = (buildLoop n s compareFun run count).buffer := by
  induction count generalizing run run' with
  | zero => exact hsame
  | succ i ih =>
      have hpass := heapify_arranged compareFun i hn
      exact ih (by rwa [hpass.length_eq]) (harr.trans hpass)
        (heapify_congr hdecides hdecides' le_rfl hn harr hsame)

theorem extractLoop_congr (hdecides : DecidesInHeap compareFun n s rank buffer)
    (hdecides' : DecidesInHeap compareFun' n s rank buffer) (hn : n * s ≤ buffer.length)
    {count : Nat} (hcount : count ≤ n) (harr : Arranged n s buffer run.buffer)
    (hsame : run'.buffer = run.buffer) :
    (extractLoop s compareFun' run' count).buffer
      = (extractLoop s compareFun run count).buffer := by
  induction count generalizing run run' with
  | zero => exact hsame
  | succ i ih =>
      have hn' : n * s ≤ run.buffer.length := by rwa [harr.length_eq]
      have hswap := swap_arranged hn' (show 0 < n by omega) (show i < n by omega)
        (int32Offset_eq s n)
      have hlength : n * s ≤ (run.swap s (int32Offset s) 0 i).buffer.length := by
        rwa [hswap.length_eq]
      have hpass := (extract_arranged compareFun
        ((Nat.mul_le_mul_right s hcount).trans hn')).mono hcount
      -- the two runs have the same buffer after the pass, so the rest is alike
      apply ih (by omega) (harr.trans hpass)
      apply heapify_congr hdecides hdecides' (show i ≤ n by omega) hlength (harr.trans hswap)
      rw [Run.swap, Run.swap, hsame]

/-- **What the comparator answers at or beyond the heap bound does not matter.** -/
theorem sort_congr (hdecides : DecidesInHeap compareFun n s rank buffer)
    (hdecides' : DecidesInHeap compareFun' n s rank buffer) (hn : n * s ≤ buffer.length) :
    (sort n s compareFun' ⟨buffer, []⟩).buffer = (sort n s compareFun ⟨buffer, []⟩).buffer := by
  have hbuffer : n * s ≤ (Run.mk buffer []).buffer.length := hn
  apply extractLoop_congr hdecides hdecides' hn le_rfl (buildLoop_arranged compareFun hbuffer _)
  exact buildLoop_congr hdecides hdecides' hbuffer (Arranged.refl n s buffer) rfl _

end Congr

end Order

/-! ## The offsets

An iteration at `index` hands on the right child, `2 * index + 2`. It begins at an element, so the
greatest index that can be handed on is `2 * n`.
-/

/-- An iteration hands on no element behind the right child, and that one in any case. -/
theorem selectLargest_inBounds {k : Nat} :
    InBounds k (selectLargest n s compareFun run index).2.log ↔
      2 * index + 2 < k ∧ InBounds k run.log := by
  simp only [selectLargest, compare_log, compare_fst, inBounds_cons, forall_indices_compare,
    forall_indices_iterate, true_and]
  constructor
  · rintro ⟨⟨hright, -⟩, -, hlog⟩
    exact ⟨hright, hlog⟩
  · rintro ⟨hright, hlog⟩
    refine ⟨⟨hright, ?_⟩, ⟨by omega, by omega⟩, hlog⟩
    grind

theorem heapify_inBounds (hnm : n ≤ m) (hindex : index < m) (hlog : InBounds (2 * m + 1) run.log) :
    InBounds (2 * m + 1) (heapify n s compareFun run index).log := by
  fun_induction heapify n s compareFun run index with
  | case1 run index hne ih =>
      obtain ⟨hlt, hbound⟩ := selectLargest_lt hne
      apply ih (by omega)
      rw [swap_log, inBounds_cons, forall_indices_swap, selectLargest_inBounds]
      -- the swap is below the bound, and the right child of `index` below `2 * m + 1`
      exact ⟨⟨by omega, by omega⟩, by omega, hlog⟩
  | case2 run index heq =>
      rw [selectLargest_inBounds]
      exact ⟨by omega, hlog⟩

theorem buildLoop_inBounds {count : Nat} (hcount : count ≤ n)
    (hlog : InBounds (2 * n + 1) run.log) :
    InBounds (2 * n + 1) (buildLoop n s compareFun run count).log := by
  induction count generalizing run with
  | zero => exact hlog
  | succ i ih => exact ih (by omega) (heapify_inBounds le_rfl (by omega) hlog)

theorem extractLoop_inBounds {count : Nat} (hcount : count ≤ n)
    (hlog : InBounds (2 * n + 1) run.log) :
    InBounds (2 * n + 1) (extractLoop s compareFun run count).log := by
  induction count generalizing run with
  | zero => exact hlog
  | succ i ih =>
      apply ih (by omega)
      apply heapify_inBounds (show i ≤ n by omega) (by omega)
      rw [swap_log, inBounds_cons, forall_indices_swap]
      exact ⟨⟨by omega, by omega⟩, hlog⟩

/-- Heap sort hands on no element from `2 * n + 1` on. -/
theorem sort_inBounds (hlog : InBounds (2 * n + 1) run.log) :
    InBounds (2 * n + 1) (sort n s compareFun run).log :=
  extractLoop_inBounds le_rfl (buildLoop_inBounds (Nat.div_le_self n 2) hlog)

theorem sort_offsetsFit (hsize : 2 * n * s < 2 ^ 31) (buffer : List Byte) :
    OffsetsFit s (sort n s compareFun ⟨buffer, []⟩).log :=
  (sort_inBounds (inBounds_nil _)).offsetsFit hsize

/-! ## The sort

The size is bounded so that the offset of no child of an element overflows.
-/

/-- A comparator that answers below the heap bound only. -/
abbrev AnswersInHeap (compareFun : CompareFun) (n s : Nat) (gt : List Byte → List Byte → Bool) :
    Prop := Answers compareFun s (fun run => min n (heapBound run.log)) gt

/-- **`HeapSort_sort` sorts**, whatever the comparator answers at or beyond the current heap bound:
the elements end up as a permutation in which none is greater than a later one, and the buffer is
the same for all such answers. No offset overflows. -/
theorem sort_sorts_whatever_beyond (n s : Nat) (hsize : (2 * n + 2) * s < 2 ^ 31)
    (buffer : List Byte) (hn : n * s ≤ buffer.length) (gt : List Byte → List Byte → Bool)
    (hgt : StrictWeakOn gt (elements n s buffer)) (compareFun : CompareFun)
    (hcompare : AnswersInHeap compareFun n s gt) :
    (elements n s (sort n s compareFun ⟨buffer, []⟩).buffer).Perm (elements n s buffer) ∧
      (∀ a b, a < b → b < n → gt (slot s (sort n s compareFun ⟨buffer, []⟩).buffer a)
        (slot s (sort n s compareFun ⟨buffer, []⟩).buffer b) = false) ∧
      (∀ compareFun' : CompareFun, AnswersInHeap compareFun' n s gt →
        (sort n s compareFun' ⟨buffer, []⟩).buffer = (sort n s compareFun ⟨buffer, []⟩).buffer) ∧
      OffsetsFit s (sort n s compareFun ⟨buffer, []⟩).log := by
  have hdecides : DecidesInHeap compareFun n s (rankIn gt (elements n s buffer)) buffer :=
    hcompare.decides hgt fun _ => min_le_left _ _
  have hextracted : Extracted n s _ buffer 0 (sort n s compareFun ⟨buffer, []⟩) :=
    sort_extracted hdecides hn
  have htwice : 2 * n * s < 2 ^ 31 :=
    Nat.lt_of_le_of_lt (Nat.mul_le_mul_right s (Nat.le_add_right (2 * n) 2)) hsize
  refine ⟨hextracted.arranged.perm, ?_, ?_, sort_offsetsFit htwice buffer⟩
  · intro a b hab hb
    exact gt_eq_false_of_keys_le hgt hextracted.arranged (by omega) hb
      (hextracted.settled a b hab (Nat.zero_le b) hb)
  · intro compareFun' hcompare'
    exact sort_congr hdecides (hcompare'.decides hgt fun _ => min_le_left _ _) hn

/-- A comparator of bytes that answers `true` at or beyond the heap bound. -/
def eager (gt : List Byte → List Byte → Bool) : CompareFun := fun run first second =>
  decide (heapBound run.log ≤ max first second) || comparing 1 gt run first second

theorem eager_answers (n : Nat) (gt : List Byte → List Byte → Bool) :
    AnswersInHeap (eager gt) n 1 gt := by
  intro run i j hi hj
  have hi' : i < heapBound run.log := lt_of_lt_of_le hi (min_le_right _ _)
  have hj' : j < heapBound run.log := lt_of_lt_of_le hj (min_le_right _ _)
  have hinside : ¬ heapBound run.log ≤ max (i * 1) (j * 1) := by omega
  rw [eager, decide_eq_false hinside, Bool.false_or]
  exact comparing_answers 1 gt (fun run => min n (heapBound run.log)) run i j hi hj

/-- Three bytes. -/
theorem sort_sorts_whatever_beyond_three :
    (elements 3 1 (sort 3 1 (eager greaterByte) ⟨[7, 9, 5], []⟩).buffer).Perm
        (elements 3 1 [7, 9, 5]) ∧
      (∀ a b, a < b → b < 3 →
        greaterByte (slot 1 (sort 3 1 (eager greaterByte) ⟨[7, 9, 5], []⟩).buffer a)
          (slot 1 (sort 3 1 (eager greaterByte) ⟨[7, 9, 5], []⟩).buffer b) = false) ∧
      (∀ compareFun' : CompareFun, AnswersInHeap compareFun' 3 1 greaterByte →
        (sort 3 1 compareFun' ⟨[7, 9, 5], []⟩).buffer
          = (sort 3 1 (eager greaterByte) ⟨[7, 9, 5], []⟩).buffer) ∧
      OffsetsFit 1 (sort 3 1 (eager greaterByte) ⟨[7, 9, 5], []⟩).log :=
  sort_sorts_whatever_beyond 3 1 (by decide) [7, 9, 5] (by decide) greaterByte
    (greaterByte_strictWeakOn _) (eager greaterByte) (eager_answers 3 greaterByte)

end HeapSort
end IMUtility
