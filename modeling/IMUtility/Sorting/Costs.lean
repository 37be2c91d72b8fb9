import IMUtility.Lib.Inversions
import IMUtility.Sorting.Agreement
import IMUtility.Sorting.HeapOverflow
import Mathlib.Data.Nat.Choose.Basic
import Mathlib.Data.Nat.Log

/-! # What the sorts cost

The log of a run counts what a caller pays for: calls of `compareFun` and of
`Utils_swapElements`. How many there are at most does not depend on what the comparator answers:
selection and bubble sort compare quadratically often, heap sort at most `3 * n * (log n + 1)`
times. With a sane comparator, bubble sort swaps once for each inversion of its input. -/

namespace IMUtility
namespace Sorting

open Slots Inversions

/-! ## What is counted

The counts are read off the log, each by its own recursion, and so are about the same runs as
everything else that is proved of the sorts.
-/

/-- The calls of `compareFun`. -/
def comparisons : List Event → Nat
  | [] => 0
  | .compare _ _ :: log => comparisons log + 1
  | .swap _ _ :: log => comparisons log
  | .iterate _ _ :: log => comparisons log

/-- The calls of `Utils_swapElements`. -/
def swaps : List Event → Nat
  | [] => 0
  | .compare _ _ :: log => swaps log
  | .swap _ _ :: log => swaps log + 1
  | .iterate _ _ :: log => swaps log

/-- The iterations of the loop of `Heapify`. -/
def iterations : List Event → Nat
  | [] => 0
  | .compare _ _ :: log => iterations log
  | .swap _ _ :: log => iterations log
  | .iterate _ _ :: log => iterations log + 1

/-- A pair either has the first element or is one of the others. -/
theorem choose_two (m : Nat) : m.choose 2 = (m - 1) + (m - 1).choose 2 := by
  -- there is no pair of no elements
  cases m with
  | zero => rfl
  | succ m => rw [Nat.add_sub_cancel, Nat.choose_succ_succ', Nat.choose_one_right]

end Sorting

/-! ## Selection sort

The loops do not look at what they find, so the number of comparisons is that of the pairs of
elements. It is counted down: what has been compared and what is left make up all pairs.
-/

namespace SelectionSort

open Sorting

variable {n s : Nat} {compareFun : CompareFun} {run : Run} {i : Nat}

theorem minIndex_cost (n s : Nat) (compareFun : CompareFun) (run : Run) (i : Nat) :
    comparisons (minIndex n s compareFun run i).2.log = comparisons run.log + (n - (i + 1)) ∧
      swaps (minIndex n s compareFun run i).2.log = swaps run.log := by
  rw [minIndex]
  generalize n - (i + 1) = len
  generalize i + 1 = lo
  generalize i = least
  induction len generalizing run lo least with
  | zero => exact ⟨rfl, rfl⟩
  | succ len ih =>
      rw [List.range'_succ, List.foldl_cons]
      obtain ⟨hcompare, hswap⟩ := ih (minIndexStep s compareFun (least, run) lo).2 (lo + 1)
        (minIndexStep s compareFun (least, run) lo).1
      refine ⟨hcompare.trans ?_, hswap⟩
      simp only [minIndexStep, compare_log, comparisons]
      omega

theorem place_cost (n s : Nat) (compareFun : CompareFun) (run : Run) (i : Nat) :
    comparisons (place n s compareFun run i).log = comparisons run.log + (n - (i + 1)) ∧
      swaps (place n s compareFun run i).log ≤ swaps run.log + 1 := by
  obtain ⟨hcompare, hswap⟩ := minIndex_cost n s compareFun run i
  rw [place_eq]
  split
  · exact ⟨hcompare, by rw [swap_log, swaps, hswap]⟩
  · exact ⟨hcompare, by omega⟩

/-- The first passes of the outer loop. The pairs not compared yet are those of the entries that are
left. -/
theorem passes_cost (n s : Nat) (compareFun : CompareFun) (count : Nat) (buffer : List Byte) :
    comparisons ((List.range count).foldl (place n s compareFun) ⟨buffer, []⟩).log
        + (n - count).choose 2 = n.choose 2 ∧
      swaps ((List.range count).foldl (place n s compareFun) ⟨buffer, []⟩).log ≤ n - 1 := by
  have hloop : comparisons ((List.range count).foldl (place n s compareFun) ⟨buffer, []⟩).log
        + (n - count).choose 2 = n.choose 2 ∧
      swaps ((List.range count).foldl (place n s compareFun) ⟨buffer, []⟩).log
        ≤ min (n - 1) count := by
    -- carried with the number of passes done: what is still to compare, and at most one swap each
    refine foldl_range_induction (P := fun i (run : Run) =>
      comparisons run.log + (n - i).choose 2 = n.choose 2 ∧ swaps run.log ≤ min (n - 1) i)
      ⟨Nat.zero_add _, Nat.zero_le _⟩ ?_
    rintro i run - ⟨hcompare, hswap⟩
    rcases Nat.lt_or_ge (i + 1) n with hlt | hge
    · obtain ⟨hcompare', hswap'⟩ := place_cost n s compareFun run i
      have hpairs := choose_two (n - i)
      rw [Nat.sub_sub] at hpairs
      exact ⟨by omega, by omega⟩
    · rw [place_of_le hge, Nat.choose_eq_zero_of_lt (show n - (i + 1) < 2 by omega)]
      rw [Nat.choose_eq_zero_of_lt (show n - i < 2 by omega)] at hcompare
      exact ⟨hcompare, by omega⟩
  exact ⟨hloop.1, hloop.2.trans (Nat.min_le_left _ _)⟩

/-- One comparison for each pair of elements, and less than one swap for each element. -/
theorem sort_cost (hn : n < 2 ^ 32) (s : Nat) (compareFun : CompareFun) (buffer : List Byte) :
    comparisons (sort n s compareFun ⟨buffer, []⟩).log = n.choose 2 ∧
      swaps (sort n s compareFun ⟨buffer, []⟩).log ≤ n - 1 := by
  rw [sort]
  generalize hcount : (n + (2 ^ 32 - 1)) % 2 ^ 32 = count
  obtain ⟨hcompare, hswap⟩ := passes_cost n s compareFun count buffer
  have hnone : (n - count).choose 2 = 0 := Nat.choose_eq_zero_of_lt (by omega)
  exact ⟨by omega, hswap⟩

end SelectionSort

/-! ## Bubble sort

Pass `i` compares `n - i - 1` neighbours, and swaps where it has compared. So there are at most as
many comparisons as pairs, with fewer where the loop ends early.
-/

namespace BubbleSort

open Slots Sorting Inversions

variable {n s : Nat} {compareFun : CompareFun} {run : Run} {i : Nat}

theorem pass_cost (n s : Nat) (compareFun : CompareFun) (run : Run) (i : Nat) :
    comparisons (pass n s compareFun run i).1.log = comparisons run.log + (n - i - 1) ∧
      swaps (pass n s compareFun run i).1.log + comparisons run.log
        ≤ swaps run.log + comparisons (pass n s compareFun run i).1.log := by
  refine foldl_range_induction (P := fun j (state : Run × Bool) =>
    comparisons state.1.log = comparisons run.log + j ∧
      swaps state.1.log + comparisons run.log ≤ swaps run.log + comparisons state.1.log) ?_ ?_
  · exact ⟨rfl, le_rfl⟩
  · rintro j state hj ⟨hcompare, hswap⟩
    rw [passStep_eq]
    split
    · simp only [swap_log, compare_log, comparisons, swaps]
      omega
    · simp only [compare_log, comparisons, swaps]
      omega

/-- By induction on the passes left. -/
theorem loop_cost (n s : Nat) (compareFun : CompareFun) (run : Run) (i : Nat) :
    comparisons (loop n s compareFun run i).1.log ≤ comparisons run.log + (n - i).choose 2 ∧
      swaps (loop n s compareFun run i).1.log + comparisons run.log
        ≤ swaps run.log + comparisons (loop n s compareFun run i).1.log := by
  fun_induction loop n s compareFun run i with
  | case1 run i hswapped ih =>
      obtain ⟨hcompare, hswap⟩ := pass_cost n s compareFun run i
      obtain ⟨hcompare', hswap'⟩ := ih
      have hpairs := choose_two (n - i)
      rw [Nat.sub_sub] at hpairs
      exact ⟨by omega, by omega⟩
  | case2 run i hsame =>
      obtain ⟨hcompare, hswap⟩ := pass_cost n s compareFun run i
      have hpairs := choose_two (n - i)
      refine ⟨?_, hswap⟩
      show comparisons (pass n s compareFun run i).1.log ≤ _
      omega

/-! ### Inversions

A swap of neighbours that are out of order takes away one inversion, their own. The sum of the
swaps made and the inversions left is the same throughout (`Accounts`), and at the end no
inversion is left.
-/

section Inversions

variable {gt : List Byte → List Byte → Bool} {buffer : List Byte}

/-- The swaps made and the inversions left are as many as before. -/
structure Accounts (n s : Nat) (gt : List Byte → List Byte → Bool) (run run' : Run) : Prop where
  arranged : Arranged n s run.buffer run'.buffer
  balance : swaps run'.log + inversions gt (elements n s run'.buffer)
    = swaps run.log + inversions gt (elements n s run.buffer)

theorem Accounts.refl (n s : Nat) (gt : List Byte → List Byte → Bool) (run : Run) :
    Accounts n s gt run run := ⟨Arranged.refl n s run.buffer, rfl⟩

theorem Accounts.trans {run' run'' : Run} (h : Accounts n s gt run run')
    (h' : Accounts n s gt run' run'') : Accounts n s gt run run'' :=
  ⟨h.arranged.trans h'.arranged, h'.balance.trans h.balance⟩

/-- A swap is made where there is an inversion. -/
theorem passStep_accounts (hgt : StrictWeakOn gt (elements n s buffer))
    (hcompare : Answers compareFun s (fun _ => n) gt) (hn : n * s ≤ buffer.length)
    {state : Run × Bool} (harr : Arranged n s buffer state.1.buffer) {j : Nat} (hj : j + 1 < n) :
    Accounts n s gt state.1 (passStep s compareFun state j).1 := by
  have hn' : n * s ≤ state.1.buffer.length := by rwa [harr.length_eq]
  have hfirst : j < n := by omega
  have hanswer := hcompare state.1 j (j + 1) hfirst hj
  rw [passStep_eq]
  split
  case isTrue hgreater =>
    rw [hanswer] at hgreater
    have hless := gt_eq_false_of_gt hgt (slot_mem_elements harr hfirst)
      (slot_mem_elements harr hj) hgreater
    -- the two arrays differ at neighbours only, so one inversion is gone
    obtain ⟨xs, ys, hbefore, hafter⟩ := elements_exchange hn' hj
    have hone := inversions_exchange hgreater hless xs ys
    have hbuffer : ((state.1.compare compareFun (int32Offset s) j (j + 1)).2.swap s (int32Offset s)
        j (j + 1)).buffer = exchange s state.1.buffer j (j + 1) :=
      swap_buffer hn' hfirst hj (int32Offset_eq s n)
    refine ⟨?_, ?_⟩
    · rw [hbuffer]
      exact Arranged.exchange hn' hfirst hj
    · rw [hbuffer, hbefore, hafter]
      simp only [swap_log, compare_log, swaps]
      omega
  case isFalse => exact ⟨Arranged.refl n s state.1.buffer, rfl⟩

theorem pass_accounts (hgt : StrictWeakOn gt (elements n s buffer))
    (hcompare : Answers compareFun s (fun _ => n) gt) (hn : n * s ≤ buffer.length)
    (harr : Arranged n s buffer run.buffer) (i : Nat) :
    Accounts n s gt run (pass n s compareFun run i).1 := by
  refine foldl_range_induction (P := fun _ (state : Run × Bool) =>
    Accounts n s gt run state.1) (Accounts.refl n s gt run) ?_
  intro j state hj h
  exact h.trans (passStep_accounts hgt hcompare hn (harr.trans h.arranged) (by omega))

/-- By induction on the passes left. -/
theorem loop_accounts (hgt : StrictWeakOn gt (elements n s buffer))
    (hcompare : Answers compareFun s (fun _ => n) gt) (hn : n * s ≤ buffer.length)
    (harr : Arranged n s buffer run.buffer) (i : Nat) :
    Accounts n s gt run (loop n s compareFun run i).1 := by
  fun_induction loop n s compareFun run i with
  | case1 run i hswapped ih =>
      have hpass := pass_accounts hgt hcompare hn harr i
      exact hpass.trans (ih (harr.trans hpass.arranged))
  | case2 run i hsame => exact pass_accounts hgt hcompare hn harr i

/-- **Bubble sort swaps once for each inversion** of its input, if the comparator is a strict weak
order on the elements. -/
theorem sort_swaps_inversions (n s : Nat) (buffer : List Byte) (hn : n * s ≤ buffer.length)
    (gt : List Byte → List Byte → Bool) (hgt : StrictWeakOn gt (elements n s buffer))
    (compareFun : CompareFun) (hcompare : Answers compareFun s (fun _ => n) gt) :
    swaps (sort n s compareFun ⟨buffer, []⟩).log = inversions gt (elements n s buffer) := by
  have hstart : Arranged n s buffer (Run.mk buffer []).buffer := Arranged.refl n s buffer
  have haccounts := loop_accounts hgt hcompare hn hstart 0
  -- what is sorted has no inversions
  have hnone := inversions_eq_zero (bubbleSort_inOrder hgt hcompare hn).pairwise
  have hbalance := haccounts.balance
  rw [sort] at hnone ⊢
  rwa [hnone, Nat.add_zero, swaps, Nat.zero_add] at hbalance

/-- Three elements of two bytes, two of them with the same first byte. -/
theorem sort_swaps_inversions_three :
    swaps (sort 3 2 (comparing 2 greaterByte) ⟨[7, 1, 7, 2, 5, 3], []⟩).log
      = inversions greaterByte (elements 3 2 [7, 1, 7, 2, 5, 3]) :=
  sort_swaps_inversions 3 2 [7, 1, 7, 2, 5, 3] (by decide) greaterByte (greaterByte_strictWeakOn _)
    (comparing 2 greaterByte) (comparing_answers 2 greaterByte _)

end Inversions

end BubbleSort

/-! ## Heap sort

All three counts are tied together by `Sifted`: two comparisons in each iteration, and a swap in
each but the last of a call. What is left to bound is the number of iterations of a call, and
these double the index.
-/

namespace HeapSort

open Sorting

variable {n s : Nat} {compareFun : CompareFun} {run run' run'' : Run} {index : Nat}

/-- Between two runs there were so many calls of `Heapify` and so many swaps outside them, and no
call had more than `bound` iterations. Each iteration compares twice, and all but the last of a call
swap. -/
structure Sifted (bound calls outside : Nat) (run run' : Run) : Prop where
  comparisons_eq : comparisons run'.log + 2 * iterations run.log
    = comparisons run.log + 2 * iterations run'.log
  swaps_eq : swaps run'.log + iterations run.log + calls
    = swaps run.log + iterations run'.log + outside
  iterations_le : iterations run'.log ≤ iterations run.log + calls * bound

theorem Sifted.refl (bound : Nat) (run : Run) : Sifted bound 0 0 run run :=
  ⟨rfl, rfl, by omega⟩

theorem Sifted.trans {bound calls calls' outside outside' : Nat}
    (h : Sifted bound calls outside run run') (h' : Sifted bound calls' outside' run' run'') :
    Sifted bound (calls + calls') (outside + outside') run run'' where
  comparisons_eq := by
    have h₁ := h.comparisons_eq
    have h₂ := h'.comparisons_eq
    omega
  swaps_eq := by
    have h₁ := h.swaps_eq
    have h₂ := h'.swaps_eq
    omega
  iterations_le := by
    have h₁ := h.iterations_le
    have h₂ := h'.iterations_le
    rw [Nat.add_mul]
    omega

/-- A swap outside `Heapify`. -/
theorem Sifted.swap (bound : Nat) (run : Run) (offset : Nat → Nat) (first second : Nat) :
    Sifted bound 0 1 run (run.swap s offset first second) where
  comparisons_eq := rfl
  swaps_eq := by
    rw [swap_log, swaps, iterations]
    omega
  iterations_le := by
    rw [swap_log, iterations]
    omega

theorem selectLargest_cost (n s : Nat) (compareFun : CompareFun) (run : Run) (index : Nat) :
    comparisons (selectLargest n s compareFun run index).2.log = comparisons run.log + 2 ∧
      swaps (selectLargest n s compareFun run index).2.log = swaps run.log ∧
      iterations (selectLargest n s compareFun run index).2.log = iterations run.log + 1 := by
  simp only [selectLargest, compare_log, comparisons, swaps, iterations, and_self]

/-- `Heapify` goes on at a child. -/
theorem two_mul_lt_selectLargest (h : (selectLargest n s compareFun run index).1 ≠ index) :
    2 * index < (selectLargest n s compareFun run index).1 := by
  revert h
  simp only [selectLargest]
  grind

/-- A call of `Heapify` has at most as many iterations as `index` can be doubled below `n`. By
induction on the iterations. -/
theorem heapify_sifted (compareFun : CompareFun) (run : Run) (index : Nat) :
    Sifted (Nat.log 2 (n / (index + 1)) + 1) 1 0 run (heapify n s compareFun run index) := by
  fun_induction heapify n s compareFun run index with
  | case1 run index hne ih =>
      obtain ⟨hcompare, hswap, hiterate⟩ := selectLargest_cost n s compareFun run index
      have hchild := two_mul_lt_selectLargest hne
      have hbound := (selectLargest_lt hne).2
      generalize hlargest : (selectLargest n s compareFun run index).1 = largest at *
      have hcompare' := ih.comparisons_eq
      have hswap' := ih.swaps_eq
      have hiterate' := ih.iterations_le
      rw [swap_log, comparisons, iterations] at hcompare'
      rw [swap_log, swaps, iterations] at hswap'
      rw [swap_log, iterations] at hiterate'
      -- the child is at least twice as far
      have hhalf : Nat.log 2 (n / (largest + 1)) + 1 ≤ Nat.log 2 (n / (index + 1)) := by
        have hle : n / (largest + 1) ≤ n / (index + 1) / 2 := by
          rw [Nat.div_div_eq_div_mul]
          exact Nat.div_le_div_left (by omega) (by omega)
        have htwo : 2 ≤ n / (index + 1) := by
          rw [Nat.le_div_iff_mul_le (by omega)]
          omega
        calc Nat.log 2 (n / (largest + 1)) + 1
            ≤ Nat.log 2 (n / (index + 1) / 2) + 1 := Nat.add_le_add_right (Nat.log_mono_right hle) 1
          _ = Nat.log 2 (n / (index + 1)) := by
              rw [Nat.log_div_base]
              have hpos : 0 < Nat.log 2 (n / (index + 1)) := Nat.log_pos (by omega) htwo
              omega
      exact ⟨by omega, by omega, by omega⟩
  | case2 run index heq =>
      obtain ⟨hcompare, hswap, hiterate⟩ := selectLargest_cost n s compareFun run index
      exact ⟨by omega, by omega, by omega⟩

theorem Sifted.mono {bound bound' calls outside : Nat} (h : Sifted bound calls outside run run')
    (hle : bound ≤ bound') : Sifted bound' calls outside run run' where
  comparisons_eq := h.comparisons_eq
  swaps_eq := h.swaps_eq
  iterations_le := h.iterations_le.trans
    (Nat.add_le_add_left (Nat.mul_le_mul_left calls hle) _)

theorem buildLoop_sifted (compareFun : CompareFun) (run : Run) (count : Nat) :
    Sifted (Nat.log 2 n + 1) count 0 run (buildLoop n s compareFun run count) := by
  induction count generalizing run with
  | zero => exact Sifted.refl _ run
  | succ i ih =>
      have hcall : Sifted (Nat.log 2 n + 1) 1 0 run (heapify n s compareFun run i) :=
        (heapify_sifted compareFun run i).mono
          (Nat.add_le_add_right (Nat.log_mono_right (Nat.div_le_self n _)) 1)
      have hpass := hcall.trans (ih (heapify n s compareFun run i))
      rwa [Nat.add_comm 1 i] at hpass

theorem extractLoop_sifted (compareFun : CompareFun) (run : Run) {count : Nat}
    (hcount : count ≤ n) :
    Sifted (Nat.log 2 n + 1) count count run (extractLoop s compareFun run count) := by
  induction count generalizing run with
  | zero => exact Sifted.refl _ run
  | succ i ih =>
      have hle : i / (0 + 1) ≤ n := by
        rw [Nat.zero_add, Nat.div_one]
        omega
      have hcall : Sifted (Nat.log 2 n + 1) 1 0 (run.swap s (int32Offset s) 0 i)
          (heapify i s compareFun (run.swap s (int32Offset s) 0 i) 0) :=
        (heapify_sifted compareFun _ 0).mono (Nat.add_le_add_right (Nat.log_mono_right hle) 1)
      have hpass := ((Sifted.swap (Nat.log 2 n + 1) run (int32Offset s) 0 i).trans hcall).trans
        (ih (heapify i s compareFun (run.swap s (int32Offset s) 0 i) 0) (by omega))
      rwa [show 0 + 1 + i = i + 1 by omega] at hpass

theorem sort_cost (n s : Nat) (compareFun : CompareFun) (buffer : List Byte) :
    comparisons (sort n s compareFun ⟨buffer, []⟩).log
        = 2 * iterations (sort n s compareFun ⟨buffer, []⟩).log ∧
      swaps (sort n s compareFun ⟨buffer, []⟩).log + n / 2
        = iterations (sort n s compareFun ⟨buffer, []⟩).log ∧
      iterations (sort n s compareFun ⟨buffer, []⟩).log ≤ (n / 2 + n) * (Nat.log 2 n + 1) := by
  have hsifted : Sifted (Nat.log 2 n + 1) (n / 2 + n) (0 + n) ⟨buffer, []⟩
      (sort n s compareFun ⟨buffer, []⟩) :=
    (buildLoop_sifted compareFun _ (n / 2)).trans (extractLoop_sifted compareFun _ le_rfl)
  obtain ⟨hcompare, hswap, hiterate⟩ := hsifted
  simp only [comparisons, swaps, iterations] at hcompare hswap hiterate
  exact ⟨by omega, by omega, by omega⟩

/-- **What heap sort costs**: for the sizes for which it is free of overflows, and whatever the
comparator answers, it makes two comparisons in each iteration, as many swaps as iterations but for
half the elements, and `n log n` iterations, so that no comparator makes it quadratic. -/
theorem sort_linearithmic (n : Nat) (element_size : BitVec 32) (hs : 1 ≤ element_size.toNat)
    (hsize : 2 * n * element_size.toNat ≤ 2 ^ 31 - 1) (compareFun : CompareFun)
    (buffer : List Byte) :
    ∃ run, sortChecked n element_size compareFun ⟨buffer, []⟩ = some run ∧
      comparisons run.log = 2 * iterations run.log ∧
      swaps run.log + n / 2 = iterations run.log ∧
      iterations run.log ≤ (n / 2 + n) * (Nat.log 2 n + 1) := by
  have honce : n * element_size.toNat ≤ 2 * n * element_size.toNat :=
    Nat.mul_le_mul_right _ (by omega)
  -- for these sizes the sort with its overflows is the sort
  have hright := sort_rightFits (Nat.lt_of_le_pred (by decide) hsize) compareFun buffer
  have hchecked := (sortChecked_eq_some_iff hs (by omega) (iteratesAt_nil _)).mpr ⟨rfl, hright⟩
  exact ⟨_, hchecked, sort_cost n element_size.toNat compareFun buffer⟩

/-- Three bytes, and an answer that changes from call to call. -/
theorem sort_linearithmic_fickle :
    ∃ run, sortChecked (3 : Nat) 1#32 fickle ⟨[7, 9, 5], []⟩ = some run ∧
      comparisons run.log = 2 * iterations run.log ∧ swaps run.log + 3 / 2 = iterations run.log ∧
      iterations run.log ≤ (3 / 2 + 3) * (Nat.log 2 3 + 1) :=
  sort_linearithmic 3 1#32 (by decide) (by decide) fickle [7, 9, 5]

end HeapSort

namespace Sorting

/-- **The quadratic sorts**, whatever the comparator answers: selection sort compares each pair of
elements once and swaps less often than there are elements. Bubble sort, for the sizes for which no
offset overflows, compares at most as often, and swaps at most as often as it compares. -/
theorem quadratic_costs (n s : Nat) (buffer : List Byte) (hn : n * s ≤ buffer.length)
    (compareFun : CompareFun) :
    (n < 2 ^ 32 →
      comparisons (SelectionSort.sort n s compareFun ⟨buffer, []⟩).log = n * (n - 1) / 2 ∧
      swaps (SelectionSort.sort n s compareFun ⟨buffer, []⟩).log ≤ n - 1) ∧
    (n * s < 2 ^ 31 →
      comparisons (BubbleSort.sort n s compareFun ⟨buffer, []⟩).log ≤ n * (n - 1) / 2 ∧
      swaps (BubbleSort.sort n s compareFun ⟨buffer, []⟩).log
        ≤ comparisons (BubbleSort.sort n s compareFun ⟨buffer, []⟩).log ∧
      OffsetsFit s (BubbleSort.sort n s compareFun ⟨buffer, []⟩).log) := by
  have hbuffer : n * s ≤ (Run.mk buffer []).buffer.length := hn
  -- pairs of elements
  rw [← Nat.choose_two_right, BubbleSort.sort]
  constructor
  · intro hcount
    exact SelectionSort.sort_cost hcount s compareFun buffer
  · intro hsize
    obtain ⟨hcompare, hswap⟩ := BubbleSort.loop_cost n s compareFun ⟨buffer, []⟩ 0
    obtain ⟨-, hlog, -⟩ := BubbleSort.loop_arranged compareFun 0 hbuffer
    refine ⟨?_, ?_, (hlog (inBounds_nil n)).offsetsFit (last_lt_of_mul_lt hsize)⟩
    · simpa [comparisons] using hcompare
    · simpa [comparisons, swaps] using hswap

/-- Three bytes, and an answer that changes from call to call. -/
theorem quadratic_costs_fickle :
    (3 < 2 ^ 32 →
      comparisons (SelectionSort.sort 3 1 fickle ⟨[7, 9, 5], []⟩).log = 3 * (3 - 1) / 2 ∧
      swaps (SelectionSort.sort 3 1 fickle ⟨[7, 9, 5], []⟩).log ≤ 3 - 1) ∧
    (3 * 1 < 2 ^ 31 →
      comparisons (BubbleSort.sort 3 1 fickle ⟨[7, 9, 5], []⟩).log ≤ 3 * (3 - 1) / 2 ∧
      swaps (BubbleSort.sort 3 1 fickle ⟨[7, 9, 5], []⟩).log
        ≤ comparisons (BubbleSort.sort 3 1 fickle ⟨[7, 9, 5], []⟩).log ∧
      OffsetsFit 1 (BubbleSort.sort 3 1 fickle ⟨[7, 9, 5], []⟩).log) :=
  quadratic_costs 3 1 [7, 9, 5] (by decide) fickle

end Sorting
end IMUtility
