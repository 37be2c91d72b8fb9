import IMUtility.Sorting.Bubble
import IMUtility.Sorting.Heap
import IMUtility.Sorting.Selection

/-! # The sorts under any comparator

A comparator may answer as it likes: it sees the whole run, so that it may contradict itself, or
change its mind from one call to the next. The sorts still end, since what drives their loops does
not depend on the answers being sane: a pass of bubble sort that swapped something had something to
compare (`lt_of_swapped`), and `Heapify` goes on below the bound and further down
(`selectLargest_lt`). And all they do to the buffer is to exchange elements. -/

namespace IMUtility
namespace Sorting

open Slots

/-- **The sorts survive any comparator**: whatever it answers, the elements end up rearranged, and
nothing else has changed. Bubble sort has at most as many passes as elements, and one in any
case. The sizes are those for which no offset overflows: the greatest one is that of the last
element, and for heap sort that of the right child of the last element. -/
theorem sorts_survive (n s : Nat) (buffer : List Byte) (hn : n * s ≤ buffer.length)
    (compareFun : CompareFun) :
    ((n - 1) * s < 2 ^ 31 →
      Arranged n s buffer (BubbleSort.sort n s compareFun ⟨buffer, []⟩).buffer ∧
      (BubbleSort.loop n s compareFun ⟨buffer, []⟩ 0).2 ≤ max 1 n ∧
      OffsetsFit s (BubbleSort.sort n s compareFun ⟨buffer, []⟩).log) ∧
    ((n - 1) * s < 2 ^ 32 →
      Arranged n s buffer (SelectionSort.sort n s compareFun ⟨buffer, []⟩).buffer) ∧
    (2 * n * s < 2 ^ 31 →
      Arranged n s buffer (HeapSort.sort n s compareFun ⟨buffer, []⟩).buffer ∧
      OffsetsFit s (HeapSort.sort n s compareFun ⟨buffer, []⟩).log) := by
  have hbuffer : n * s ≤ (Run.mk buffer []).buffer.length := hn
  refine ⟨?_, ?_, ?_⟩
  · intro hlast
    obtain ⟨harr, hlog, hpasses⟩ := BubbleSort.loop_arranged compareFun 0 hbuffer
    exact ⟨harr, hpasses, (hlog (inBounds_nil n)).offsetsFit hlast⟩
  · intro hlast
    exact SelectionSort.sort_arranged (uint32Offset_eq hlast) hbuffer
  · intro hsize
    exact ⟨HeapSort.sort_arranged hbuffer, HeapSort.sort_offsetsFit hsize buffer⟩

/-- A comparator of any two elements that says the opposite of what it said last. -/
def fickle : CompareFun := fun run _ _ => decide (run.log.length % 2 = 0)

/-- Three bytes, and an answer that changes from call to call. -/
theorem sorts_survive_fickle :
    ((3 - 1) * 1 < 2 ^ 31 →
      Arranged 3 1 [7, 9, 5] (BubbleSort.sort 3 1 fickle ⟨[7, 9, 5], []⟩).buffer ∧
      (BubbleSort.loop 3 1 fickle ⟨[7, 9, 5], []⟩ 0).2 ≤ max 1 3 ∧
      OffsetsFit 1 (BubbleSort.sort 3 1 fickle ⟨[7, 9, 5], []⟩).log) ∧
    ((3 - 1) * 1 < 2 ^ 32 →
      Arranged 3 1 [7, 9, 5] (SelectionSort.sort 3 1 fickle ⟨[7, 9, 5], []⟩).buffer) ∧
    (2 * 3 * 1 < 2 ^ 31 →
      Arranged 3 1 [7, 9, 5] (HeapSort.sort 3 1 fickle ⟨[7, 9, 5], []⟩).buffer ∧
      OffsetsFit 1 (HeapSort.sort 3 1 fickle ⟨[7, 9, 5], []⟩).log) :=
  sorts_survive 3 1 [7, 9, 5] (by decide) fickle

end Sorting
end IMUtility
