import IMUtility.Sorting.Selection

/-! # `selection_sort.c`: the indices of the loops

`SelectionSort_sort` runs its outer loop while `i < (number_of_elements - 1U)`. Here are its loops
as they stand, with their `uint32_t` counters and guards, and with a record of the `i` of every
pass and of the values of its `min_index`. They do what `sort` does (`passes_eq_sort`). For an empty
array the bound wraps around, and there are `2 ^ 32 - 1` passes at elements that do not exist; for
every other number of elements the indices are valid (`indicesValid_iff`). -/

namespace IMUtility
namespace SelectionSort

open Slots
open Sorting

/-- A pass of the outer loop: `i`, and the values of `min_index` one after the other. -/
structure Pass where
  i : BitVec 32
  min_indices : List (BitVec 32)

/-- The inner loop from `j` on: the values of `min_index`, the last of them, and the run. -/
def scanLoop (number_of_elements element_size : BitVec 32) (compareFun : CompareFun) (run : Run)
    (min_index j : BitVec 32) : List (BitVec 32) × BitVec 32 × Run :=
  if j < number_of_elements then
    let (greater, run) := run.compare compareFun (uint32Offset element_size.toNat) min_index.toNat
      j.toNat
    let (min_indices, result) := scanLoop number_of_elements element_size compareFun run
      (if greater then j else min_index) (j + 1#32)
    (min_index :: min_indices, result)
  else ([min_index], min_index, run)
termination_by number_of_elements.toNat - j.toNat
decreasing_by
  have hlt : j.toNat < number_of_elements.toNat := ‹j < number_of_elements›
  have hsucc := toNat_succ_of_lt (show j.toNat + 1 < 2 ^ 32 by omega)
  omega

/-- The body of the outer loop. -/
def pass (number_of_elements element_size : BitVec 32) (compareFun : CompareFun) (run : Run)
    (i : BitVec 32) : Pass × Run :=
  let (min_indices, min_index, run) :=
    scanLoop number_of_elements element_size compareFun run i (i + 1#32)
  ({ i := i, min_indices := min_indices },
    if min_index ≠ i then
      run.swap element_size.toNat (uint32Offset element_size.toNat) min_index.toNat i.toNat
    else run)

/-- The outer loop from `i` on: its passes, and the run. -/
def passes (number_of_elements element_size : BitVec 32) (compareFun : CompareFun) (run : Run)
    (i : BitVec 32) : List Pass × Run :=
  if i < number_of_elements - 1#32 then
    let (first, run) := pass number_of_elements element_size compareFun run i
    let (rest, run) := passes number_of_elements element_size compareFun run (i + 1#32)
    (first :: rest, run)
  else ([], run)
termination_by (number_of_elements - 1#32).toNat - i.toNat
decreasing_by
  have hlt : i.toNat < (number_of_elements - 1#32).toNat := ‹i < number_of_elements - 1#32›
  have hsucc := toNat_succ_of_lt (show i.toNat + 1 < 2 ^ 32 by omega)
  omega

variable {n s i j min_index : BitVec 32} {compareFun : CompareFun} {run : Run}

/-! ## The inner loop

The guarded loop is the fold of `minIndex`, on the values of its words. That its values of
`min_index` are elements is read off the guard, with which every `j` is below the count.
-/

/-- The guarded loop is the loop over the elements from `j` on. -/
theorem scanLoop_eq (n s : BitVec 32) (compareFun : CompareFun) (run : Run)
    (min_index j : BitVec 32) :
    ((scanLoop n s compareFun run min_index j).2.1.toNat,
        (scanLoop n s compareFun run min_index j).2.2)
      = (List.range' j.toNat (n.toNat - j.toNat)).foldl (minIndexStep s.toNat compareFun)
          (min_index.toNat, run) := by
  fun_induction scanLoop n s compareFun run min_index j with
  | case1 run min_index j hlt greater run' hcompare min_indices result hrest ih =>
      have hlt : j.toNat < n.toNat := hlt
      have hsucc := toNat_succ_of_lt (show j.toNat + 1 < 2 ^ 32 by omega)
      -- the passes left are one more than those behind this one
      have hcount : n.toNat - j.toNat = n.toNat - (j.toNat + 1) + 1 := by omega
      have hstep : minIndexStep s.toNat compareFun (min_index.toNat, run) j.toNat
          = ((if greater then j else min_index).toNat, run') := by
        simp only [minIndexStep, hcompare]
        cases greater with
        | false => rfl
        | true => rfl
      rw [hrest, hsucc] at ih
      rw [hcount, List.range'_succ, List.foldl_cons, hstep]
      exact ih
  | case2 run min_index j hge =>
      have hle : n.toNat ≤ j.toNat := Nat.le_of_not_lt hge
      rw [Nat.sub_eq_zero_of_le hle]
      rfl

/-- Every value of `min_index` is the first one or one of the elements seen. -/
theorem scanLoop_lt (n s : BitVec 32) (compareFun : CompareFun) (run : Run)
    (min_index j : BitVec 32) (hmin : min_index < n) :
    ∀ m ∈ (scanLoop n s compareFun run min_index j).1, m < n := by
  fun_induction scanLoop n s compareFun run min_index j with
  | case1 run min_index j hlt greater run' hcompare min_indices result hrest ih =>
      intro m hm
      rw [hrest] at ih
      rcases List.mem_cons.mp hm with rfl | hm
      · exact hmin
      · refine ih ?_ m hm
        cases greater with
        | false => exact hmin
        | true => exact hlt
  | case2 run min_index j hge =>
      intro m hm
      rwa [List.mem_singleton.mp hm]

/-! ## The outer loop

A pass is `place`, and the loop is the fold over the values of the counter. A counter below
`number_of_elements - 1U` can be counted up without wrapping, also when that bound has wrapped
itself.
-/

/-- A pass is what `place` does. -/
theorem pass_eq_place (hi : i.toNat + 1 < 2 ^ 32) :
    (pass n s compareFun run i).2 = place n.toNat s.toNat compareFun run i.toNat := by
  have hscan := scanLoop_eq n s compareFun run i (i + 1#32)
  rw [toNat_succ_of_lt hi] at hscan
  have hindex := congrArg Prod.fst hscan
  have hrun := congrArg Prod.snd hscan
  rw [place_eq, minIndex, ← hindex, ← hrun]
  show (if (scanLoop n s compareFun run i (i + 1#32)).2.1 ≠ i then _ else _) = _
  refine if_congr ?_ rfl rfl
  rw [ne_eq, ne_eq, BitVec.toNat_inj]

/-- The guard of the outer loop lets its counter grow. -/
theorem succ_lt_of_guard (hlt : i < n - 1#32) : i.toNat + 1 < 2 ^ 32 := by
  have hlt : i.toNat < (n - 1#32).toNat := hlt
  omega

/-- The guarded loop is the loop over the values of the counter. -/
theorem passes_eq (n s : BitVec 32) (compareFun : CompareFun) (run : Run) (i : BitVec 32) :
    (passes n s compareFun run i).2
      = (List.range' i.toNat ((n - 1#32).toNat - i.toNat)).foldl
          (place n.toNat s.toNat compareFun) run := by
  fun_induction passes n s compareFun run i with
  | case1 run i hlt first run' hpass rest run'' hrest ih =>
      have hsucc := succ_lt_of_guard hlt
      have hlt : i.toNat < (n - 1#32).toNat := hlt
      have hcount : (n - 1#32).toNat - i.toNat = (n - 1#32).toNat - (i.toNat + 1) + 1 := by omega
      have hplace : place n.toNat s.toNat compareFun run i.toNat = run' := by
        rw [← pass_eq_place hsucc, hpass]
      rw [hrest, toNat_succ_of_lt hsucc] at ih
      rw [hcount, List.range'_succ, List.foldl_cons, hplace]
      exact ih
  | case2 run i hge =>
      have hle : (n - 1#32).toNat ≤ i.toNat := Nat.le_of_not_lt hge
      rw [Nat.sub_eq_zero_of_le hle]
      rfl

/-- **The loops with their guards do what `SelectionSort_sort` does.** -/
theorem passes_eq_sort (n s : BitVec 32) (compareFun : CompareFun) (run : Run) :
    (passes n s compareFun run 0#32).2 = sort n.toNat s.toNat compareFun run := by
  have hbound : (n - 1#32).toNat = (n.toNat + (2 ^ 32 - 1)) % 2 ^ 32 := by
    rw [BitVec.toNat_sub, Nat.add_comm]
    rfl
  rw [passes_eq, sort, ← hbound, List.range_eq_range']
  rfl

/-- There is a pass for every value of the counter. -/
theorem length_passes (n s : BitVec 32) (compareFun : CompareFun) (run : Run) (i : BitVec 32) :
    (passes n s compareFun run i).1.length = (n - 1#32).toNat - i.toNat := by
  fun_induction passes n s compareFun run i with
  | case1 run i hlt first run' hpass rest run'' hrest ih =>
      have hsucc := succ_lt_of_guard hlt
      have hlt : i.toNat < (n - 1#32).toNat := hlt
      rw [hrest, toNat_succ_of_lt hsucc] at ih
      rw [List.length_cons, ih]
      omega
  | case2 run i hge =>
      have hle : (n - 1#32).toNat ≤ i.toNat := Nat.le_of_not_lt hge
      rw [Nat.sub_eq_zero_of_le hle]
      rfl

/-- Of an array that is not empty, every pass works with elements that exist. -/
theorem lt_of_mem_passes (hn : n ≠ 0#32) (run : Run) (i : BitVec 32) :
    ∀ p ∈ (passes n s compareFun run i).1, p.i < n ∧ ∀ m ∈ p.min_indices, m < n := by
  fun_induction passes n s compareFun run i with
  | case1 run i hlt first run' hpass rest run'' hrest ih =>
      intro p hp
      rw [hrest] at ih
      rcases List.mem_cons.mp hp with rfl | hp
      -- below the last element but one, since the bound has not wrapped
      · have hpred := toNat_pred_of_pos (toNat_pos_of_ne_zero hn)
        have hlt : i.toNat < (n - 1#32).toNat := hlt
        have hi : i < n := show i.toNat < n.toNat by omega
        obtain rfl : (pass n s compareFun run i).1 = p := congrArg Prod.fst hpass
        exact ⟨hi, scanLoop_lt n s compareFun run i (i + 1#32) hi⟩
      · exact ih p hp
  | case2 run i hge => exact fun p hp => absurd hp List.not_mem_nil

/-- The first pass is for the first value of the counter. -/
theorem exists_mem_passes (hlt : i < n - 1#32) :
    ∃ p ∈ (passes n s compareFun run i).1, p.i = i := by
  rw [passes, if_pos hlt]
  exact ⟨_, List.mem_cons_self, rfl⟩

/-! ## Valid indices

For an array that is not empty the bound is what it looks like, and all indices are elements. For
an empty one the first pass already has an `i` that is none. The comparator plays no part in
either.
-/

/-- In every pass of the outer loop, `i` and `min_index` are indices of elements; there is no pass
over fewer than two elements, and there are fewer passes than elements otherwise. -/
structure IndicesValid (n s : BitVec 32) (compareFun : CompareFun) (run : Run) : Prop where
  indices : ∀ p ∈ (passes n s compareFun run 0#32).1, p.i < n ∧ ∀ m ∈ p.min_indices, m < n
  no_pass : n.toNat ≤ 1 → (passes n s compareFun run 0#32).1 = []
  length_le : 1 < n.toNat → (passes n s compareFun run 0#32).1.length ≤ n.toNat - 1

theorem indicesValid_of_ne_zero (hn : n ≠ 0#32) : IndicesValid n s compareFun run := by
  have hpred := toNat_pred_of_pos (toNat_pos_of_ne_zero hn)
  have hlength := length_passes n s compareFun run 0#32
  rw [hpred, BitVec.toNat_zero, Nat.sub_zero] at hlength
  refine ⟨lt_of_mem_passes hn run 0#32, ?_, fun _ => Nat.le_of_eq hlength⟩
  intro hone
  apply List.eq_nil_of_length_eq_zero
  omega

/-- For an empty array the first pass is at an element that does not exist. -/
theorem not_indicesValid_zero : ¬ IndicesValid 0#32 s compareFun run := by
  intro h
  obtain ⟨p, hp, hi⟩ : ∃ p ∈ (passes 0#32 s compareFun run 0#32).1, p.i = 0#32 :=
    exists_mem_passes (by decide)
  exact absurd (h.indices p hp).1 BitVec.not_lt_zero

/-- **When the indices of the loops are valid**: for every number of elements but 0, whatever their
size and the comparator. -/
theorem indicesValid_iff (n s : BitVec 32) (compareFun : CompareFun) (run : Run) :
    IndicesValid n s compareFun run ↔ n ≠ 0#32 := by
  constructor
  · rintro h rfl
    exact not_indicesValid_zero h
  · exact indicesValid_of_ne_zero

/-- No element: `2 ^ 32 - 1` passes, the first of them with `i` at an element that is not there. -/
theorem indices_invalid_empty :
    (passes 0#32 1#32 (comparing 1 greaterByte) ⟨[], []⟩ 0#32).1.length = 2 ^ 32 - 1 ∧
      (∃ p ∈ (passes 0#32 1#32 (comparing 1 greaterByte) ⟨[], []⟩ 0#32).1, ¬ p.i < 0#32) ∧
      ¬ IndicesValid 0#32 1#32 (comparing 1 greaterByte) ⟨[], []⟩ := by
  obtain ⟨p, hp, -⟩ : ∃ p ∈ (passes 0#32 1#32 (comparing 1 greaterByte) ⟨[], []⟩ 0#32).1,
    p.i = 0#32 := exists_mem_passes (by decide)
  refine ⟨?_, ⟨p, hp, BitVec.not_lt_zero⟩, not_indicesValid_zero⟩
  rw [length_passes]
  decide

end SelectionSort
end IMUtility
