import IMUtility.Sorting.Basic
import IMUtility.Lib.Keys

/-! # `bubble_sort.c`

The passes of `BubbleSort_sort` get shorter by one, and go on as long as one of them has swapped
something; a pass without a comparison swaps nothing, so there are at most as many as elements. A
pass carries the greatest entry in front of the settled ones (`SettledFrom`), and never exchanges
two elements that are equivalent. -/

namespace IMUtility
namespace BubbleSort

open Slots
open Sorting

/-! ## The loops

`swapped` is kept beside the run. The outer loop has no bound for `i`: it ends with a pass that has
swapped nothing, and the termination proof has to say that there is one.
-/

/-- The body of the inner loop, on `swapped`. -/
def passStep (element_size : Nat) (compareFun : CompareFun) (state : Run × Bool) (j : Nat) :
    Run × Bool :=
  let (greater, run) := state.1.compare compareFun (int32Offset element_size) j (j + 1)
  if greater then (run.swap element_size (int32Offset element_size) j (j + 1), true)
  else (run, state.2)

/-- The inner loop: the buffer and `swapped` when it ends. -/
def pass (number_of_elements element_size : Nat) (compareFun : CompareFun) (run : Run) (i : Nat) :
    Run × Bool :=
  (List.range (number_of_elements - i - 1)).foldl (passStep element_size compareFun) (run, false)

/-- A pass that swapped something had something to compare. -/
theorem lt_of_swapped {n s : Nat} {compareFun : CompareFun} {run : Run} {i : Nat}
    (h : (pass n s compareFun run i).2 = true) : i + 1 < n := by
  by_contra hle
  -- there would be nothing to compare in this pass
  rw [pass, show n - i - 1 = 0 by omega] at h
  cases h

/-- The outer loop: the buffer, and `i`, the number of passes, when it ends. -/
def loop (number_of_elements element_size : Nat) (compareFun : CompareFun) (run : Run) (i : Nat) :
    Run × Nat :=
  if (pass number_of_elements element_size compareFun run i).2 = true then
    loop number_of_elements element_size compareFun
      (pass number_of_elements element_size compareFun run i).1 (i + 1)
  else ((pass number_of_elements element_size compareFun run i).1, i + 1)
termination_by number_of_elements - i
decreasing_by
  have hlt := lt_of_swapped ‹_›
  omega

/-- `BubbleSort_sort`. -/
def sort (number_of_elements element_size : Nat) (compareFun : CompareFun) (run : Run) : Run :=
  (loop number_of_elements element_size compareFun run 0).1

variable {n s : Nat} {compareFun : CompareFun} {run : Run} {i : Nat}

/-! ## Whatever the comparator answers

A step exchanges two neighbours or nothing. That alone gives that the elements are rearranged,
that they stay inside the array, and how many passes there can be.
-/

theorem passStep_eq (state : Run × Bool) (j : Nat) : passStep s compareFun state j =
    if compareFun state.1 (j * s) ((j + 1) * s) then
      ((state.1.compare compareFun (int32Offset s) j (j + 1)).2.swap s (int32Offset s) j (j + 1),
        true)
    else ((state.1.compare compareFun (int32Offset s) j (j + 1)).2, state.2) := rfl

/-- **What a step does**: it exchanges two neighbours and says so, or it leaves the buffer. -/
theorem passStep_cases (compareFun : CompareFun) {state : Run × Bool} {j : Nat}
    (hn : n * s ≤ state.1.buffer.length) (hj : j + 1 < n) :
    (compareFun state.1 (j * s) ((j + 1) * s) = true ∧
      (passStep s compareFun state j).1.buffer = exchange s state.1.buffer j (j + 1) ∧
      (passStep s compareFun state j).2 = true) ∨
    (compareFun state.1 (j * s) ((j + 1) * s) = false ∧
      (passStep s compareFun state j).1.buffer = state.1.buffer ∧
      (passStep s compareFun state j).2 = state.2) := by
  rw [passStep_eq]
  cases compareFun state.1 (j * s) ((j + 1) * s) with
  | true =>
      refine Or.inl ⟨rfl, ?_, rfl⟩
      rw [if_pos rfl]
      exact swap_buffer hn (by omega) hj (int32Offset_eq s n)
  | false => exact Or.inr ⟨rfl, rfl, rfl⟩

theorem passStep_inBounds {state : Run × Bool} {j : Nat} (hj : j + 1 < n)
    (hlog : InBounds n state.1.log) : InBounds n (passStep s compareFun state j).1.log := by
  have hpair : j < n ∧ j + 1 < n := ⟨by omega, hj⟩
  rw [passStep_eq]
  split
  · rw [swap_log, compare_log, inBounds_cons, inBounds_cons, forall_indices_swap,
      forall_indices_compare]
    exact ⟨hpair, hpair, hlog⟩
  · rw [compare_log, inBounds_cons, forall_indices_compare]
    exact ⟨hpair, hlog⟩

/-- A pass moves the entries that are not settled, among themselves. -/
theorem pass_arranged (compareFun : CompareFun) (hn : (n - i) * s ≤ run.buffer.length) :
    Arranged (n - i) s run.buffer (pass n s compareFun run i).1.buffer := by
  refine foldl_range_induction (P := fun _ (state : Run × Bool) =>
    Arranged (n - i) s run.buffer state.1.buffer) (Arranged.refl _ _ _) ?_
  intro j state hj h
  have hn' : (n - i) * s ≤ state.1.buffer.length := by rwa [h.length_eq]
  rcases passStep_cases compareFun hn' (show j + 1 < n - i by omega) with
    ⟨-, hbuffer, -⟩ | ⟨-, hbuffer, -⟩
  · rw [hbuffer]
    exact h.trans (Arranged.exchange hn' (by omega) (by omega))
  · rw [hbuffer]
    exact h

theorem pass_inBounds (hlog : InBounds n run.log) :
    InBounds n (pass n s compareFun run i).1.log := by
  refine foldl_range_induction (P := fun _ (state : Run × Bool) => InBounds n state.1.log) hlog ?_
  intro j state hj h
  exact passStep_inBounds (by omega) h

theorem mul_sub_le (n i s : Nat) : (n - i) * s ≤ n * s := Nat.mul_le_mul_right s (Nat.sub_le n i)

/-- The loop rearranges, stays inside the array, and has at most `n` passes unless it starts behind
the last. By induction on the passes left. -/
theorem loop_arranged (compareFun : CompareFun) (i : Nat) (hn : n * s ≤ run.buffer.length) :
    Arranged n s run.buffer (loop n s compareFun run i).1.buffer ∧
      (InBounds n run.log → InBounds n (loop n s compareFun run i).1.log) ∧
      (loop n s compareFun run i).2 ≤ max (i + 1) n := by
  fun_induction loop n s compareFun run i with
  | case1 run i hswapped ih =>
      have harr := (pass_arranged compareFun ((mul_sub_le n i s).trans hn)).mono (Nat.sub_le n i)
      have hlt := lt_of_swapped hswapped
      obtain ⟨harr', hlog, hcount⟩ := ih (by rwa [harr.length_eq])
      exact ⟨harr.trans harr', fun h => hlog (pass_inBounds h), by omega⟩
  | case2 run i hsame =>
      exact ⟨(pass_arranged compareFun ((mul_sub_le n i s).trans hn)).mono (Nat.sub_le n i),
        pass_inBounds, le_max_left _ _⟩

/-! ## The order

With a comparator that compares keys a pass carries the greatest key along (`Bubbled`): when it
comes to `j`, the entry at `j` is the greatest up to there. So at its end the greatest entry
stands in front of the settled ones, and one more is settled.

A pass that swaps nothing has found all neighbours in order, and the loop may end early. Stability
is said by the elements of each rank, in the order in which they stand: an exchange of neighbours
of different ranks leaves all these lists.
-/

section Order

variable {rank : List Byte → Nat} {buffer : List Byte}

/-- The pass with bound `n - i - 1`, started from `start`, when it comes to `j`. -/
structure Bubbled (n s : Nat) (rank : List Byte → Nat) (i : Nat) (start : Run) (j : Nat)
    (state : Run × Bool) : Prop where
  arranged : Arranged (n - i) s start.buffer state.1.buffer
  greatest : ∀ a < j, state.1.keys s rank a ≤ state.1.keys s rank j
  unswapped : state.2 = false →
    state.1.buffer = start.buffer ∧ ∀ a < j, start.keys s rank a ≤ start.keys s rank (a + 1)
  stable : ∀ r, (elements n s state.1.buffer).filter (fun x => rank x == r)
    = (elements n s start.buffer).filter (fun x => rank x == r)

theorem Bubbled.step (hdecides : Decides compareFun n s (fun _ => n) rank buffer)
    (hn : n * s ≤ run.buffer.length) (harr : Arranged n s buffer run.buffer) {j : Nat}
    {state : Run × Bool} (h : Bubbled n s rank i run j state) (hj : j + 1 < n - i) :
    Bubbled n s rank i run (j + 1) (passStep s compareFun state j) := by
  have harr' : Arranged n s run.buffer state.1.buffer := h.arranged.mono (Nat.sub_le n i)
  have hn' : n * s ≤ state.1.buffer.length := by rwa [harr'.length_eq]
  have hanswer : compareFun state.1 (j * s) ((j + 1) * s)
      = decide (state.1.keys s rank (j + 1) < state.1.keys s rank j) :=
    hdecides state.1 (harr.trans harr') j (j + 1) (show j < n by omega) (show j + 1 < n by omega)
  rcases passStep_cases compareFun hn' (show j + 1 < n by omega) with
    ⟨hgreater, hbuffer, hflag⟩ | ⟨hgreater, hbuffer, hflag⟩
  · rw [hanswer, decide_eq_true_iff] at hgreater
    have hkeys := keys_exchange hn' (by omega) (by omega) hbuffer rank
    refine ⟨?_, ?_, ?_, ?_⟩
    · rw [hbuffer]
      have hn'' := (mul_sub_le n i s).trans hn'
      exact h.arranged.trans (Arranged.exchange hn'' (by omega) hj)
    · -- the greater of the two is the greatest so far
      intro a ha
      rw [hkeys, comp_swap_right]
      rcases Nat.eq_or_lt_of_le (Nat.le_of_lt_succ ha) with rfl | hlt
      · rw [comp_swap_left]
        omega
      · rw [comp_swap_of_ne (by omega) (by omega)]
        exact h.greatest a hlt
    · intro hfalse
      rw [hflag] at hfalse
      cases hfalse
    · intro r
      rw [hbuffer, filter_elements_exchange hn' (by omega), h.stable r]
      -- two entries of one rank are not exchanged
      rintro ⟨hleft, hright⟩
      simp only [Run.keys, beq_iff_eq] at hgreater hleft hright
      omega
  · rw [hanswer, decide_eq_false_iff_not, Nat.not_lt] at hgreater
    have hkeys : (passStep s compareFun state j).1.keys s rank = state.1.keys s rank :=
      Run.keys_congr hbuffer s rank
    refine ⟨?_, ?_, ?_, ?_⟩
    · rw [hbuffer]
      exact h.arranged
    · intro a ha
      rw [hkeys]
      rcases Nat.eq_or_lt_of_le (Nat.le_of_lt_succ ha) with rfl | hlt
      · exact hgreater
      · exact (h.greatest a hlt).trans hgreater
    · intro hfalse
      rw [hflag] at hfalse
      obtain ⟨hsame, hsorted⟩ := h.unswapped hfalse
      refine ⟨hbuffer.trans hsame, ?_⟩
      intro a ha
      rcases Nat.eq_or_lt_of_le (Nat.le_of_lt_succ ha) with rfl | hlt
      · rwa [Run.keys_congr hsame] at hgreater
      · exact hsorted a hlt
    · intro r
      rw [hbuffer]
      exact h.stable r

theorem pass_bubbled (hdecides : Decides compareFun n s (fun _ => n) rank buffer)
    (hn : n * s ≤ run.buffer.length) (harr : Arranged n s buffer run.buffer) (i : Nat) :
    Bubbled n s rank i run (n - i - 1) (pass n s compareFun run i) := by
  apply foldl_range_induction
  · refine ⟨Arranged.refl _ _ _, ?_, ?_, fun _ => rfl⟩
    · intro a ha
      exact absurd ha (Nat.not_lt_zero a)
    · intro _
      exact ⟨rfl, fun a ha => absurd ha (Nat.not_lt_zero a)⟩
  · intro j state hj h
    exact h.step hdecides hn harr (by omega)

/-- A pass settles one more entry. -/
theorem Bubbled.settled {state : Run × Bool} (h : Bubbled n s rank i run (n - i - 1) state)
    (hsettled : SettledFrom (run.keys s rank) (n - i) n) :
    SettledFrom (state.1.keys s rank) (n - (i + 1)) n := by
  have hmoved : SettledFrom (state.1.keys s rank) (n - i) n :=
    hsettled.shuffle (h.arranged.shuffles rank)
  -- behind the last pass there is nothing left to settle
  rcases Nat.eq_zero_or_pos (n - i) with hzero | hpos
  · rw [show n - (i + 1) = n - i by omega]
    exact hmoved
  · rw [show n - i = n - (i + 1) + 1 by omega] at hmoved
    exact hmoved.extend h.greatest

/-- If neighbours in front of the settled entries are in order, all entries are. -/
theorem settled_of_neighbours {key : Nat → Nat} (hsettled : SettledFrom key (n - i) n)
    (hneighbours : ∀ a < n - i - 1, key a ≤ key (a + 1)) : SettledFrom key 0 n := by
  intro a b hab _ hb
  rcases Nat.lt_or_ge b (n - i) with hlt | hge
  -- from neighbour to neighbour
  · induction b with
    | zero => omega
    | succ b ih =>
        have hlast := hneighbours b (by omega)
        rcases Nat.eq_or_lt_of_le (Nat.le_of_lt_succ hab) with rfl | hab'
        · exact hlast
        · exact (ih hab' (Nat.zero_le b) (by omega) (by omega)).trans hlast
  · exact hsettled a b hab hge hb

/-- **The loop sorts, and is stable.** By induction on the passes left. -/
theorem loop_sorts (hdecides : Decides compareFun n s (fun _ => n) rank buffer) (i : Nat)
    (hn : n * s ≤ run.buffer.length) (harr : Arranged n s buffer run.buffer)
    (hsettled : SettledFrom (run.keys s rank) (n - i) n) :
    SettledFrom ((loop n s compareFun run i).1.keys s rank) 0 n ∧
      ∀ r, (elements n s (loop n s compareFun run i).1.buffer).filter (fun x => rank x == r)
        = (elements n s run.buffer).filter (fun x => rank x == r) := by
  fun_induction loop n s compareFun run i with
  | case1 run i hswapped ih =>
      have hpass := pass_bubbled hdecides hn harr i
      have harr' := hpass.arranged.mono (Nat.sub_le n i)
      obtain ⟨hsorted, hstable⟩ := ih (by rwa [harr'.length_eq]) (harr.trans harr')
        (hpass.settled hsettled)
      exact ⟨hsorted, fun r => (hstable r).trans (hpass.stable r)⟩
  | case2 run i hsame =>
      have hpass := pass_bubbled hdecides hn harr i
      -- the last pass has swapped nothing
      obtain ⟨hbuffer, hneighbours⟩ := hpass.unswapped (by simpa using hsame)
      refine ⟨?_, hpass.stable⟩
      rw [Run.keys_congr hbuffer]
      exact settled_of_neighbours hsettled hneighbours

end Order

/-! ## The sort

Ranks are left behind here: the statement speaks of the comparator of the caller, and of the
elements it calls equivalent.
-/

/-- **`BubbleSort_sort` is a stable sort**: the elements end up as a permutation in which none is
greater than a later one, and those equivalent to any one of them are in the order in which they
were. No offset overflows. -/
theorem sort_stable (n s : Nat) (hsize : n * s < 2 ^ 31) (buffer : List Byte)
    (hn : n * s ≤ buffer.length) (gt : List Byte → List Byte → Bool)
    (hgt : StrictWeakOn gt (elements n s buffer)) (compareFun : CompareFun)
    (hcompare : Answers compareFun s (fun _ => n) gt) :
    (elements n s (sort n s compareFun ⟨buffer, []⟩).buffer).Perm (elements n s buffer) ∧
      (∀ a b, a < b → b < n → gt (slot s (sort n s compareFun ⟨buffer, []⟩).buffer a)
        (slot s (sort n s compareFun ⟨buffer, []⟩).buffer b) = false) ∧
      (∀ x ∈ elements n s buffer,
        (elements n s (sort n s compareFun ⟨buffer, []⟩).buffer).filter (equivalent gt x)
          = (elements n s buffer).filter (equivalent gt x)) ∧
      OffsetsFit s (sort n s compareFun ⟨buffer, []⟩).log := by
  have hbuffer : n * s ≤ (Run.mk buffer []).buffer.length := hn
  have hstart : Arranged n s buffer (Run.mk buffer []).buffer := Arranged.refl n s buffer
  rw [sort]
  obtain ⟨harr, hlog, -⟩ := loop_arranged compareFun 0 hbuffer
  obtain ⟨hsorted, hstable⟩ := loop_sorts (hcompare.decides hgt fun _ => le_rfl) 0 hbuffer
    hstart (SettledFrom.start _ n)
  refine ⟨harr.perm, ?_, ?_, (hlog (inBounds_nil n)).offsetsFit (last_lt_of_mul_lt hsize)⟩
  · intro a b hab hb
    exact gt_eq_false_of_keys_le hgt harr (by omega) hb (hsorted a b hab (Nat.zero_le b) hb)
  · intro x hx
    -- the order of equivalent elements is the order of equal ranks
    have hfilter : ∀ l : List (List Byte), l ⊆ elements n s buffer →
        l.filter (equivalent gt x) = l.filter fun y =>
          rankIn gt (elements n s buffer) y == rankIn gt (elements n s buffer) x := by
      intro l hl
      apply List.filter_congr
      intro y hy
      exact hgt.equivalent_eq hx (hl hy)
    rw [hfilter _ harr.perm.subset, hfilter _ (List.Subset.refl _)]
    exact hstable _

/-- Three elements of two bytes, two of them with the same first byte. -/
theorem sort_stable_three :
    (elements 3 2 (sort 3 2 (comparing 2 greaterByte) ⟨[7, 1, 5, 2, 7, 3], []⟩).buffer).Perm
        (elements 3 2 [7, 1, 5, 2, 7, 3]) ∧
      (∀ a b, a < b → b < 3 →
        greaterByte (slot 2 (sort 3 2 (comparing 2 greaterByte) ⟨[7, 1, 5, 2, 7, 3], []⟩).buffer a)
          (slot 2 (sort 3 2 (comparing 2 greaterByte) ⟨[7, 1, 5, 2, 7, 3], []⟩).buffer b)
          = false) ∧
      (∀ x ∈ elements 3 2 [7, 1, 5, 2, 7, 3],
        (elements 3 2 (sort 3 2 (comparing 2 greaterByte) ⟨[7, 1, 5, 2, 7, 3], []⟩).buffer).filter
            (equivalent greaterByte x)
          = (elements 3 2 [7, 1, 5, 2, 7, 3]).filter (equivalent greaterByte x)) ∧
      OffsetsFit 2 (sort 3 2 (comparing 2 greaterByte) ⟨[7, 1, 5, 2, 7, 3], []⟩).log :=
  sort_stable 3 2 (by decide) [7, 1, 5, 2, 7, 3] (by decide) greaterByte
    (greaterByte_strictWeakOn _) (comparing 2 greaterByte) (comparing_answers 2 greaterByte _)

end BubbleSort
end IMUtility
