import IMUtility.Sorting.Basic
import IMUtility.Lib.Keys

/-! # `selection_sort.c`

`SelectionSort_sort` counts in `uint32_t`, so that for an empty array the outer loop has
`2 ^ 32 - 1` passes, in which nothing happens. The entries in front of `i` are settled
(`SettledTo`), and the inner loop finds a least one of the others. -/

namespace IMUtility
namespace SelectionSort

open Slots
open Sorting

/-! ## The loops

`min_index` and the run are carried through the inner loop. The bound of the outer loop is
`number_of_elements - 1U` in `uint32_t`, and is written as the remainder that it is, for an empty
array too.
-/

/-- The body of the inner loop, on `min_index`. -/
def minIndexStep (element_size : Nat) (compareFun : CompareFun) (state : Nat × Run) (j : Nat) :
    Nat × Run :=
  let (greater, run) := state.2.compare compareFun (uint32Offset element_size) state.1 j
  (if greater then j else state.1, run)

/-- The inner loop: `min_index` when it ends. -/
def minIndex (number_of_elements element_size : Nat) (compareFun : CompareFun) (run : Run)
    (i : Nat) : Nat × Run :=
  (List.range' (i + 1) (number_of_elements - (i + 1))).foldl (minIndexStep element_size compareFun)
    (i, run)

/-- The body of the outer loop. -/
def place (number_of_elements element_size : Nat) (compareFun : CompareFun) (run : Run) (i : Nat) :
    Run :=
  let (min_index, run) := minIndex number_of_elements element_size compareFun run i
  if min_index ≠ i then run.swap element_size (uint32Offset element_size) min_index i else run

/-- `SelectionSort_sort`. -/
def sort (number_of_elements element_size : Nat) (compareFun : CompareFun) (run : Run) : Run :=
  (List.range ((number_of_elements + (2 ^ 32 - 1)) % 2 ^ 32)).foldl
    (place number_of_elements element_size compareFun) run

variable {n s : Nat} {compareFun : CompareFun} {run : Run} {i : Nat}

/-! ## The inner loop

`Scanned` holds whatever is answered, and `Least` adds what a comparator of keys gives. The inner
loop moves nothing, so both speak of the buffer with which it started.
-/

/-- The inner loop, started at `i` from `run`, when it comes to `j`: whatever the comparator
answered, `min_index` is one of the elements seen, and none was moved. -/
structure Scanned (n i : Nat) (run : Run) (j : Nat) (state : Nat × Run) : Prop where
  buffer_eq : state.2.buffer = run.buffer
  le : i ≤ state.1
  lt : state.1 < j
  inBounds : InBounds n run.log → InBounds n state.2.log

theorem Scanned.step {j : Nat} {state : Nat × Run} (h : Scanned n i run j state) (hj : j < n) :
    Scanned n i run (j + 1) (minIndexStep s compareFun state j) where
  buffer_eq := h.buffer_eq
  le := by
    have hle := h.le
    have hlt := h.lt
    simp only [minIndexStep]
    split <;> omega
  lt := by
    have hlt := h.lt
    simp only [minIndexStep]
    split <;> omega
  inBounds hlog := by
    have hlt := h.lt
    simp only [minIndexStep, compare_log, inBounds_cons, forall_indices_compare]
    exact ⟨⟨by omega, hj⟩, h.inBounds hlog⟩

theorem minIndex_scanned (hi : i < n) : Scanned n i run n (minIndex n s compareFun run i) := by
  have hend : i + 1 + (n - (i + 1)) = n := by omega
  have hloop : Scanned n i run (i + 1 + (n - (i + 1))) (minIndex n s compareFun run i) := by
    apply foldl_range'_induction
    · exact ⟨rfl, le_rfl, Nat.lt_succ_self i, id⟩
    · intro j state _ hlt h
      exact h.step (by omega)
  rwa [hend] at hloop

/-- Behind the last element but one there is nothing to compare with. -/
theorem minIndex_of_le (hi : n ≤ i + 1) : minIndex n s compareFun run i = (i, run) := by
  rw [minIndex, Nat.sub_eq_zero_of_le hi]
  rfl

section Order

variable {rank : List Byte → Nat} {buffer : List Byte}

/-- With a comparator that compares keys, `min_index` has a least key of those seen. -/
structure Least (n s : Nat) (rank : List Byte → Nat) (i : Nat) (run : Run) (j : Nat)
    (state : Nat × Run) : Prop extends Scanned n i run j state where
  least : ∀ l, i ≤ l → l < j → run.keys s rank state.1 ≤ run.keys s rank l

theorem Least.step (hdecides : Decides compareFun n s (fun _ => n) rank buffer)
    (hoffset : ∀ i < n, uint32Offset s i = i * s) (harr : Arranged n s buffer run.buffer)
    {j : Nat} {state : Nat × Run} (h : Least n s rank i run j state) (hj : j < n) :
    Least n s rank i run (j + 1) (minIndexStep s compareFun state j) where
  toScanned := h.toScanned.step hj
  least := by
    have hindex : state.1 < n := Nat.lt_trans h.lt hj
    have hanswer : compareFun state.2 (uint32Offset s state.1) (uint32Offset s j)
        = decide (run.keys s rank j < run.keys s rank state.1) := by
      rw [hoffset _ hindex, hoffset _ hj,
        hdecides state.2 (by rwa [h.buffer_eq]) _ _ hindex hj, Run.keys_congr h.buffer_eq]
    intro l hil hlj
    simp only [minIndexStep, compare_fst, hanswer, decide_eq_true_eq]
    rcases Nat.eq_or_lt_of_le (Nat.le_of_lt_succ hlj) with rfl | hlt
    · split <;> omega
    · have hleast := h.least l hil hlt
      split <;> omega

theorem minIndex_least (hdecides : Decides compareFun n s (fun _ => n) rank buffer)
    (hoffset : ∀ i < n, uint32Offset s i = i * s) (harr : Arranged n s buffer run.buffer)
    (hi : i < n) : Least n s rank i run n (minIndex n s compareFun run i) := by
  have hend : i + 1 + (n - (i + 1)) = n := by omega
  have hloop : Least n s rank i run (i + 1 + (n - (i + 1))) (minIndex n s compareFun run i) := by
    apply foldl_range'_induction
    · refine ⟨⟨rfl, le_rfl, Nat.lt_succ_self i, id⟩, ?_⟩
      intro l hil hlt
      obtain rfl : l = i := by omega
      exact le_rfl
    · intro j state _ hlt h
      exact h.step hdecides hoffset harr (by omega)
  rwa [hend] at hloop

end Order

/-! ## The outer loop

A pass at `i` exchanges the entry that was found with the one at `i`, which leaves alone the
entries in front. Behind the last element but one there is nothing to compare with, and a pass
does nothing: these are the many passes over an empty array.
-/

theorem place_eq : place n s compareFun run i =
    if (minIndex n s compareFun run i).1 ≠ i then
      (minIndex n s compareFun run i).2.swap s (uint32Offset s) (minIndex n s compareFun run i).1 i
    else (minIndex n s compareFun run i).2 := rfl

/-- Nothing happens behind the last element but one. -/
theorem place_of_le (hi : n ≤ i + 1) : place n s compareFun run i = run := by
  rw [place_eq, minIndex_of_le hi]
  exact if_neg fun h => h rfl

/-- A pass exchanges the entry found with the first one. -/
theorem place_buffer (hoffset : ∀ i < n, uint32Offset s i = i * s)
    (hn : n * s ≤ run.buffer.length) (hi : i < n) :
    (place n s compareFun run i).buffer
      = exchange s run.buffer (minIndex n s compareFun run i).1 i := by
  have hscan : Scanned n i run n (minIndex n s compareFun run i) := minIndex_scanned hi
  rw [place_eq]
  split
  case isTrue hne =>
    rw [swap_buffer (by rwa [hscan.buffer_eq]) hscan.lt hi hoffset, hscan.buffer_eq]
  case isFalse heq =>
    rw [not_not.mp heq, exchange_self hn hi]
    exact hscan.buffer_eq

theorem place_arranged (hoffset : ∀ i < n, uint32Offset s i = i * s)
    (hn : n * s ≤ run.buffer.length) (i : Nat) :
    Arranged n s run.buffer (place n s compareFun run i).buffer := by
  by_cases hi : n ≤ i + 1
  · rw [place_of_le hi]
    exact Arranged.refl n s run.buffer
  · have hscan : Scanned n i run n (minIndex n s compareFun run i) := minIndex_scanned (by omega)
    rw [place_buffer hoffset hn (by omega)]
    exact Arranged.exchange hn hscan.lt (by omega)

theorem place_inBounds (hlog : InBounds n run.log) (i : Nat) :
    InBounds n (place n s compareFun run i).log := by
  by_cases hi : n ≤ i + 1
  · rw [place_of_le hi]
    exact hlog
  · have hscan : Scanned n i run n (minIndex n s compareFun run i) := minIndex_scanned (by omega)
    rw [place_eq]
    split
    case isTrue =>
      rw [swap_log, inBounds_cons, forall_indices_swap]
      exact ⟨⟨hscan.lt, by omega⟩, hscan.inBounds hlog⟩
    case isFalse => exact hscan.inBounds hlog

/-- A pass settles one more entry. -/
theorem place_settled {rank : List Byte → Nat} {buffer : List Byte}
    (hdecides : Decides compareFun n s (fun _ => n) rank buffer)
    (hoffset : ∀ i < n, uint32Offset s i = i * s) (hn : n * s ≤ run.buffer.length)
    (harr : Arranged n s buffer run.buffer) (h : SettledTo (run.keys s rank) i n) :
    SettledTo ((place n s compareFun run i).keys s rank) (i + 1) n := by
  by_cases hi : n ≤ i + 1
  · rw [place_of_le hi]
    intro a b hab ha hb
    exact h a b hab (by omega) hb
  · have hleast : Least n s rank i run n (minIndex n s compareFun run i) :=
      minIndex_least hdecides hoffset harr (by omega)
    have hbuffer : (place n s compareFun run i).buffer = _ := place_buffer hoffset hn (by omega)
    -- the entry found is a least one of those from `i` on
    rw [keys_exchange hn hleast.lt (by omega) hbuffer]
    exact h.extend hleast.le hleast.lt hleast.least

/-! ## The sort

`Placed` is the invariant of the outer loop. At the end of its range all entries are settled, for
the range goes at least up to the last element but one.
-/

/-- **Selection sort rearranges**, whatever the comparator answers. -/
theorem sort_arranged (hoffset : ∀ i < n, uint32Offset s i = i * s)
    (hn : n * s ≤ run.buffer.length) :
    Arranged n s run.buffer (sort n s compareFun run).buffer := by
  rw [sort]
  apply List.foldlRecOn (motive := fun run' : Run => Arranged n s run.buffer run'.buffer)
  · exact Arranged.refl n s run.buffer
  · intro run' h i _
    exact h.trans (place_arranged hoffset (by rwa [h.length_eq]) i)

theorem sort_inBounds (hlog : InBounds n run.log) : InBounds n (sort n s compareFun run).log := by
  rw [sort]
  apply List.foldlRecOn (motive := fun run' : Run => InBounds n run'.log)
  · exact hlog
  · intro run' h i _
    exact place_inBounds h i

/-- The state of the outer loop at `i`. -/
structure Placed (n s : Nat) (rank : List Byte → Nat) (buffer : List Byte) (i : Nat) (run : Run) :
    Prop where
  arranged : Arranged n s buffer run.buffer
  settled : SettledTo (run.keys s rank) i n

theorem sort_placed {rank : List Byte → Nat} {buffer : List Byte}
    (hdecides : Decides compareFun n s (fun _ => n) rank buffer)
    (hoffset : ∀ i < n, uint32Offset s i = i * s) (hn : n * s ≤ buffer.length)
    (hbuffer : run.buffer = buffer) :
    Placed n s rank buffer ((n + (2 ^ 32 - 1)) % 2 ^ 32) (sort n s compareFun run) := by
  apply foldl_range_induction
  · refine ⟨?_, SettledTo.start _ n⟩
    rw [hbuffer]
    exact Arranged.refl n s buffer
  · intro i run' _ h
    have hn' : n * s ≤ run'.buffer.length := by rwa [h.arranged.length_eq]
    exact ⟨h.arranged.trans (place_arranged hoffset hn' i),
      place_settled hdecides hoffset hn' h.arranged h.settled⟩

/-- **`SelectionSort_sort` sorts**: for any count, 0 included, the elements end up as a permutation
in which none is greater than a later one, and only elements of the array are handed on. -/
theorem sort_sorts (n s : Nat) (hs : 0 < s) (hsize : n * s ≤ 2 ^ 32) (buffer : List Byte)
    (hn : n * s ≤ buffer.length) (gt : List Byte → List Byte → Bool)
    (hgt : StrictWeakOn gt (elements n s buffer)) (compareFun : CompareFun)
    (hcompare : Answers compareFun s (fun _ => n) gt) :
    (elements n s (sort n s compareFun ⟨buffer, []⟩).buffer).Perm (elements n s buffer) ∧
      (∀ a b, a < b → b < n → gt (slot s (sort n s compareFun ⟨buffer, []⟩).buffer a)
        (slot s (sort n s compareFun ⟨buffer, []⟩).buffer b) = false) ∧
      InBounds n (sort n s compareFun ⟨buffer, []⟩).log := by
  have hoffset := uint32Offset_eq (last_lt_of_mul_le hs (by decide) hsize)
  have hplaced : Placed n s _ buffer _ (sort n s compareFun ⟨buffer, []⟩) :=
    sort_placed (hcompare.decides hgt fun _ => le_rfl) hoffset hn rfl
  refine ⟨hplaced.arranged.perm, ?_, sort_inBounds (inBounds_nil n)⟩
  intro a b hab hb
  apply gt_eq_false_of_keys_le hgt hplaced.arranged (by omega) hb
  -- for `n = 0` the loop went on to the end of the type, but there is no `b`
  have hcount : n ≤ n * s := Nat.le_mul_of_pos_right n hs
  exact hplaced.settled a b hab (by omega) hb

/-- Three bytes. -/
theorem sort_sorts_three :
    (elements 3 1 (sort 3 1 (comparing 1 greaterByte) ⟨[7, 9, 5], []⟩).buffer).Perm
        (elements 3 1 [7, 9, 5]) ∧
      (∀ a b, a < b → b < 3 →
        greaterByte (slot 1 (sort 3 1 (comparing 1 greaterByte) ⟨[7, 9, 5], []⟩).buffer a)
          (slot 1 (sort 3 1 (comparing 1 greaterByte) ⟨[7, 9, 5], []⟩).buffer b) = false) ∧
      InBounds 3 (sort 3 1 (comparing 1 greaterByte) ⟨[7, 9, 5], []⟩).log :=
  sort_sorts 3 1 (by decide) (by decide) [7, 9, 5] (by decide) greaterByte
    (greaterByte_strictWeakOn _) (comparing 1 greaterByte) (comparing_answers 1 greaterByte _)

end SelectionSort
end IMUtility
