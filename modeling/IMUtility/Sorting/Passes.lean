import IMUtility.Lib.Displacement
import IMUtility.Sorting.Costs
import Mathlib.Algebra.BigOperators.Intervals

/-! # The passes of bubble sort

A pass carries the greatest entry it meets, and every entry that has a greater one in front of it
moves one place to the front. So the loop of `BubbleSort_sort` makes as many passes as the most
displaced element has greater elements in front of it, and one more that finds the array in order
(`sort_passes`); each pass compares one pair less than the one before. -/

namespace IMUtility
namespace BubbleSort

open Slots
open Sorting

variable {n s : Nat} {compareFun : CompareFun} {run : Run} {i : Nat} {rank : List Byte → Nat}
  {buffer : List Byte}

/-! ## One pass

A pass over keys is `Carried`: the greatest so far stands at `j`, and all others have moved past
it by at most one place. `Displaces` adds this, and what `swapped` says, to the invariant of the
order.
-/

/-- The pass when it comes to `j`, by displacements. -/
structure Displaces (n s : Nat) (rank : List Byte → Nat) (i : Nat) (start : Run) (j : Nat)
    (state : Run × Bool) : Prop where
  bubbled : Bubbled n s rank i start j state
  carried : Carried (start.keys s rank) (state.1.keys s rank) j
  flag : state.2 = true ↔ ∃ k ≤ j, 0 < displacement (start.keys s rank) k

theorem Displaces.step (hdecides : Decides compareFun n s (fun _ => n) rank buffer)
    (hn : n * s ≤ run.buffer.length) (harr : Arranged n s buffer run.buffer) {j : Nat}
    {state : Run × Bool} (h : Displaces n s rank i run j state) (hj : j + 1 < n - i) :
    Displaces n s rank i run (j + 1) (passStep s compareFun state j) := by
  have harr' : Arranged n s run.buffer state.1.buffer := h.bubbled.arranged.mono (Nat.sub_le n i)
  have hn' : n * s ≤ state.1.buffer.length := by rwa [harr'.length_eq]
  have hanswer : compareFun state.1 (j * s) ((j + 1) * s)
      = decide (state.1.keys s rank (j + 1) < state.1.keys s rank j) :=
    hdecides state.1 (harr.trans harr') j (j + 1) (show j < n by omega) (show j + 1 < n by omega)
  have hbubbled := h.bubbled.step hdecides hn harr hj
  rcases passStep_cases compareFun hn' (show j + 1 < n by omega) with
    ⟨hgreater, hbuffer, hflag⟩ | ⟨hgreater, hbuffer, hflag⟩
  -- a swap: the entry carried is greater than the next, so the next one was displaced
  · rw [hanswer, decide_eq_true_iff] at hgreater
    refine ⟨hbubbled, ?_, ?_⟩
    · rw [keys_exchange hn' (by omega) (by omega) hbuffer rank]
      exact h.carried.exchange hgreater
    · exact ⟨fun _ => ⟨j + 1, le_rfl, h.carried.lt_iff.mp hgreater⟩, fun _ => hflag⟩
  -- no swap: the next entry is carried from here, and it was in its place
  · rw [hanswer, decide_eq_false_iff_not] at hgreater
    refine ⟨hbubbled, ?_, ?_⟩
    · rw [Run.keys_congr hbuffer]
      exact h.carried.keep (Nat.le_of_not_lt hgreater)
    · rw [hflag, h.flag]
      constructor
      · rintro ⟨k, hk, hpos⟩
        exact ⟨k, Nat.le_succ_of_le hk, hpos⟩
      · rintro ⟨k, hk, hpos⟩
        rcases Nat.eq_or_lt_of_le hk with rfl | hlt
        · exact absurd (h.carried.lt_iff.mpr hpos) hgreater
        · exact ⟨k, Nat.le_of_lt_succ hlt, hpos⟩

theorem pass_displaces (hdecides : Decides compareFun n s (fun _ => n) rank buffer)
    (hn : n * s ≤ run.buffer.length) (harr : Arranged n s buffer run.buffer) (i : Nat) :
    Displaces n s rank i run (n - i - 1) (pass n s compareFun run i) := by
  apply foldl_range_induction
  · refine ⟨⟨Arranged.refl _ _ _, ?_, ?_, fun _ => rfl⟩, Carried.refl _, ?_⟩
    · intro a ha
      exact absurd ha (Nat.not_lt_zero a)
    · intro _
      exact ⟨rfl, fun a ha => absurd ha (Nat.not_lt_zero a)⟩
    · constructor
      · intro h
        cases h
      · rintro ⟨k, hk, hpos⟩
        rw [Nat.le_zero.mp hk, displacement_zero] at hpos
        exact absurd hpos (Nat.lt_irrefl 0)
  · intro j state hj h
    exact h.step hdecides hn harr (by omega)

/-- A settled entry is not displaced. -/
theorem displacement_of_settled {key : Nat → Nat} {m : Nat} (h : SettledFrom key m n) {k : Nat}
    (hmk : m ≤ k) (hk : k < n) : displacement key k = 0 :=
  countAbove_eq_zero fun a ha => h a k ha hmk hk

/-- A pass swaps something exactly if some entry is displaced. -/
theorem Displaces.swapped_iff {state : Run × Bool}
    (h : Displaces n s rank i run (n - i - 1) state)
    (hsettled : SettledFrom (run.keys s rank) (n - i) n) :
    state.2 = true ↔ 0 < (Finset.range n).sup (displacement (run.keys s rank)) := by
  rw [h.flag, Finset.lt_sup_iff]
  constructor
  · rintro ⟨k, hk, hpos⟩
    have hne : k ≠ 0 := by
      rintro rfl
      rw [displacement_zero] at hpos
      exact Nat.lt_irrefl 0 hpos
    exact ⟨k, Finset.mem_range.mpr (by omega), hpos⟩
  · rintro ⟨k, hk, hpos⟩
    refine ⟨k, ?_, hpos⟩
    -- the entries that are settled are not displaced
    by_contra hlt
    rw [displacement_of_settled hsettled (by omega) (Finset.mem_range.mp hk)] at hpos
    exact Nat.lt_irrefl 0 hpos

/-! ## The loop

A pass that swaps takes one off every displacement that is not 0, so it takes one off the greatest
of them. The loop ends with the pass that finds all of them to be 0.
-/

/-- How many passes there are. By induction on the passes left. -/
theorem loop_passes (hdecides : Decides compareFun n s (fun _ => n) rank buffer) (i : Nat)
    (hn : n * s ≤ run.buffer.length) (harr : Arranged n s buffer run.buffer)
    (hsettled : SettledFrom (run.keys s rank) (n - i) n) :
    (loop n s compareFun run i).2
      = i + 1 + (Finset.range n).sup (displacement (run.keys s rank)) := by
  fun_induction loop n s compareFun run i with
  | case1 run i hswapped ih =>
      have hpass := pass_displaces hdecides hn harr i
      have harr' := hpass.bubbled.arranged.mono (Nat.sub_le n i)
      have hsettled' := hpass.bubbled.settled hsettled
      have hpos := (hpass.swapped_iff hsettled).mp hswapped
      -- one less for every displaced entry
      have hsup := sup_displacement_carried hpass.carried (Nat.sub_le n i)
        (fun k hmk hk => displacement_of_settled hsettled hmk hk)
        (fun k hmk hk => displacement_of_settled hsettled' (by omega) hk)
      rw [ih (by rwa [harr'.length_eq]) (harr.trans harr') hsettled', hsup]
      omega
  | case2 run i hsame =>
      have hpass := pass_displaces hdecides hn harr i
      have hzero : (Finset.range n).sup (displacement (run.keys s rank)) = 0 := by
        by_contra hne
        exact hsame ((hpass.swapped_iff hsettled).mpr (Nat.pos_of_ne_zero hne))
      rw [hzero]

/-- Pass `j` compares `n - j - 1` pairs, whatever the comparator answers. -/
theorem loop_comparisons (n s : Nat) (compareFun : CompareFun) (run : Run) (i : Nat) :
    comparisons (loop n s compareFun run i).1.log
        = comparisons run.log + ∑ j ∈ Finset.Ico i (loop n s compareFun run i).2, (n - j - 1) ∧
      i < (loop n s compareFun run i).2 := by
  fun_induction loop n s compareFun run i with
  | case1 run i hswapped ih =>
      obtain ⟨hcompare, hlt⟩ := ih
      obtain ⟨hpass, -⟩ := pass_cost n s compareFun run i
      refine ⟨?_, by omega⟩
      rw [hcompare, hpass, Finset.sum_eq_sum_Ico_succ_bot (show i < _ by omega), Nat.add_assoc]
  | case2 run i hsame =>
      obtain ⟨hpass, -⟩ := pass_cost n s compareFun run i
      refine ⟨?_, Nat.lt_succ_self i⟩
      rw [hpass, Finset.sum_eq_sum_Ico_succ_bot (Nat.lt_succ_self i), Finset.Ico_self,
        Finset.sum_empty, Nat.add_zero]

/-! ## The sort

Back from ranks to the comparator: an entry is displaced by the elements in front of it that are
greater.
-/

/-- The displacement of an element, by the comparator. -/
theorem displacement_eq_card {gt : List Byte → List Byte → Bool}
    (hgt : StrictWeakOn gt (elements n s buffer)) {k : Nat} (hk : k < n) :
    displacement ((Run.mk buffer []).keys s (rankIn gt (elements n s buffer))) k
      = ((Finset.range k).filter fun a => gt (slot s buffer a) (slot s buffer k)).card := by
  have hmem : ∀ a < n, slot s buffer a ∈ elements n s buffer :=
    fun a ha => slot_mem_elements (Arranged.refl n s buffer) ha
  unfold displacement countAbove
  congr 1
  apply Finset.filter_congr
  intro a ha
  have hak := Finset.mem_range.mp ha
  exact (hgt.gt_iff_rankIn (hmem a (by omega)) (hmem k hk)).symm

end BubbleSort
end IMUtility
