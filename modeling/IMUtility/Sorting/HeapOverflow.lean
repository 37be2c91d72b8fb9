import IMUtility.Sorting.HeapBounds

/-! # `heap_sort.c`: the `int32_t` arithmetic

`Heapify` computes the indices and the offsets of both children before it looks whether they are
below the bound. Here are the functions with every `int32_t` expression evaluated where the source
evaluates it; an overflow is `none`. They do what `sort` does as long as the offset of the right
child fits in every iteration (`sortChecked_eq_some_iff`). The last element is a leaf that some
comparator leads to, so that arrays fit for all comparators when twice their size does
(`sortChecked_iff`). -/

namespace IMUtility
namespace HeapSort

open Slots
open Sorting

/-! ## The functions, with their expressions

Every product and sum is here in the place where the source computes it. Most of them are not used
afterwards, and only their being in range matters. The offset of the right child is the greatest
number of an iteration, so it decides (`RightFits`).
-/

/-- An `int32_t` expression with the value `x`, which is not negative. -/
def int32Nat (x : Nat) : Option Nat := if x < 2 ^ 31 then some x else none

/-- `i * (int32_t)element_size`. A size that is no `int32_t` is `none`, too. -/
def offset32 (element_size : BitVec 32) (i : Nat) : Option Nat := do
  let size ← int32Nat element_size.toNat
  int32Nat (i * size)

/-- An iteration of the loop of `Heapify`, up to the swap: `largest`. -/
def selectLargestChecked (n : Nat) (element_size : BitVec 32) (compareFun : CompareFun) (run : Run)
    (index : Nat) : Option (Nat × Run) := do
  let run := { run with log := .iterate n index :: run.log }
  let twice ← int32Nat (2 * index)
  let left ← int32Nat (twice + 1)
  let right ← int32Nat (twice + 2)
  let _ ← offset32 element_size left
  let _ ← offset32 element_size index
  let (compare_ret_value, run) :=
    run.compare compareFun (int32Offset element_size.toNat) left index
  let largest := if left < n ∧ compare_ret_value then left else index
  let _ ← offset32 element_size right
  let _ ← offset32 element_size largest
  let (compare_ret_value, run) :=
    run.compare compareFun (int32Offset element_size.toNat) right largest
  let largest := if right < n ∧ compare_ret_value then right else largest
  some (largest, run)

theorem int32Nat_eq_some_iff {x y : Nat} : int32Nat x = some y ↔ y = x ∧ x < 2 ^ 31 := by
  unfold int32Nat
  split
  case isTrue hlt =>
    rw [Option.some.injEq, eq_comm]
    exact (and_iff_left hlt).symm
  case isFalse hge => exact iff_of_false (fun h => by cases h) (fun h => hge h.2)

/-- The right child of the entry at `index` has an offset in range. -/
def RightFits (s index : Nat) : Prop := (2 * index + 2) * s < 2 ^ 31

/-- An iteration that evaluates all its expressions selects what `selectLargest` does. -/
theorem selectLargestChecked_some {n : Nat} {s : BitVec 32} {compareFun : CompareFun} {run : Run}
    {index : Nat} {r : Nat × Run} (h : selectLargestChecked n s compareFun run index = some r) :
    r = selectLargest n s.toNat compareFun run index ∧ RightFits s.toNat index := by
  rw [selectLargestChecked] at h
  -- the expressions in the order of the source; only the right child's offset is kept
  obtain ⟨twice, htwice, h⟩ := Option.bind_eq_some_iff.mp h
  obtain ⟨left, hleft, h⟩ := Option.bind_eq_some_iff.mp h
  obtain ⟨right, hright, h⟩ := Option.bind_eq_some_iff.mp h
  obtain ⟨_, -, h⟩ := Option.bind_eq_some_iff.mp h
  obtain ⟨_, -, h⟩ := Option.bind_eq_some_iff.mp h
  obtain ⟨_, hoffset, h⟩ := Option.bind_eq_some_iff.mp h
  obtain ⟨_, -, h⟩ := Option.bind_eq_some_iff.mp h
  obtain ⟨rfl, -⟩ := int32Nat_eq_some_iff.mp htwice
  obtain ⟨rfl, -⟩ := int32Nat_eq_some_iff.mp hleft
  obtain ⟨rfl, -⟩ := int32Nat_eq_some_iff.mp hright
  obtain ⟨_, hsize, hoffset⟩ := Option.bind_eq_some_iff.mp hoffset
  obtain ⟨rfl, -⟩ := int32Nat_eq_some_iff.mp hsize
  exact ⟨(Option.some.inj h).symm, (int32Nat_eq_some_iff.mp hoffset).2⟩

/-- `Heapify`. -/
def heapifyChecked (n : Nat) (element_size : BitVec 32) (compareFun : CompareFun) (run : Run)
    (index : Nat) : Option Run :=
  (selectLargestChecked n element_size compareFun run index).pbind fun r _hselect =>
    if _hne : r.1 ≠ index then
      (offset32 element_size index).bind fun _ => (offset32 element_size r.1).bind fun _ =>
        heapifyChecked n element_size compareFun
          (r.2.swap element_size.toNat (int32Offset element_size.toNat) index r.1) r.1
    else some r.2
termination_by n - index
decreasing_by
  have hr := (selectLargestChecked_some _hselect).1
  rw [hr] at _hne ⊢
  have hlt := selectLargest_lt _hne
  omega

/-- The first loop of `HeapSort_sort`, over `i = count - 1`, ..., `0`. -/
def buildLoopChecked (number_of_elements : Nat) (element_size : BitVec 32)
    (compareFun : CompareFun) (run : Run) : (count : Nat) → Option Run
  | 0 => some run
  | i + 1 =>
    (heapifyChecked number_of_elements element_size compareFun run i).bind fun run =>
      (int32 ((i : Int) - 1)).bind fun _ =>
        buildLoopChecked number_of_elements element_size compareFun run i

/-- The second loop of `HeapSort_sort`, over `i = count - 1`, ..., `0`. -/
def extractLoopChecked (element_size : BitVec 32) (compareFun : CompareFun) (run : Run) :
    (count : Nat) → Option Run
  | 0 => some run
  | i + 1 =>
    (offset32 element_size i).bind fun _ =>
      (heapifyChecked i element_size compareFun
        (run.swap element_size.toNat (int32Offset element_size.toNat) 0 i) 0).bind fun run =>
          (int32 ((i : Int) - 1)).bind fun _ => extractLoopChecked element_size compareFun run i

/-- `HeapSort_sort`. -/
def sortChecked (number_of_elements : Int) (element_size : BitVec 32) (compareFun : CompareFun)
    (run : Run) : Option Run := do
  let half ← int32 (number_of_elements.tdiv 2)
  let i ← int32 (half - 1)
  let run ← buildLoopChecked number_of_elements.toNat element_size compareFun run (i + 1).toNat
  let i ← int32 (number_of_elements - 1)
  extractLoopChecked element_size compareFun run (i + 1).toNat

variable {n index i count : Nat} {s : BitVec 32} {compareFun : CompareFun} {run r : Run}

/-! ## Expressions in range

Small rules for one expression each: the products of an iteration are at most the offset of its
right child, and `--i` is in range down to -1.
-/

theorem int32Nat_of_lt {x : Nat} (h : x < 2 ^ 31) : int32Nat x = some x :=
  int32Nat_eq_some_iff.mpr ⟨rfl, h⟩

theorem offset32_of_lt (hs : s.toNat < 2 ^ 31) (hi : i * s.toNat < 2 ^ 31) :
    offset32 s i = some (i * s.toNat) := by
  rw [offset32, int32Nat_of_lt hs]
  exact int32Nat_of_lt hi

/-- `--i`, also behind the last entry. -/
theorem int32_pred (h : i ≤ 2 ^ 31) : int32 ((i : Int) - 1) = some ((i : Int) - 1) :=
  if_pos ⟨by omega, by omega⟩

/-- Offsets up to that of the right child are in range where that one is. -/
theorem offset32_of_le (hright : RightFits s.toNat index) (hi : i ≤ 2 * index + 2) :
    offset32 s i = some (i * s.toNat) := by
  have hsize : s.toNat < 2 ^ 31 :=
    lt_of_le_of_lt (Nat.le_mul_of_pos_left _ (Nat.succ_pos _)) hright
  exact offset32_of_lt hsize (lt_of_le_of_lt (Nat.mul_le_mul_right _ hi) hright)

theorem offset32_of_right (hright : RightFits s.toNat index) :
    offset32 s index = some (index * s.toNat) := offset32_of_le hright (by omega)

/-! ## An iteration

Where the offset of the right child is in range every other expression of the iteration is. The
other direction is `selectLargestChecked_some`.
-/

/-- Where the offset of the right child is in range, an iteration overflows nowhere. -/
theorem selectLargestChecked_of_right (hs : 1 ≤ s.toNat) (hright : RightFits s.toNat index) :
    selectLargestChecked n s compareFun run index
      = some (selectLargest n s.toNat compareFun run index) := by
  have hindex : 2 * index + 2 < 2 ^ 31 := lt_of_le_of_lt (Nat.le_mul_of_pos_right _ hs) hright
  have hlargest : ∀ p : Prop, [Decidable p] →
      (if p then 2 * index + 1 else index) ≤ 2 * index + 2 := by
    intro p _
    split <;> omega
  rw [selectLargestChecked, int32Nat_of_lt (show 2 * index < 2 ^ 31 by omega)]
  simp only [Option.bind_eq_bind, Option.bind_some,
    int32Nat_of_lt (show 2 * index + 1 < 2 ^ 31 by omega), int32Nat_of_lt hindex,
    offset32_of_le hright (show 2 * index + 1 ≤ 2 * index + 2 by omega),
    offset32_of_right hright, offset32_of_le hright le_rfl, offset32_of_le hright (hlargest _)]
  rfl

/-! ## `Heapify`

By induction on the iterations, in both directions: a call without an overflow has only iterations
with `RightFits`, and with these there is no overflow. The entry that is swapped is the one at
which the next iteration begins, so its own offset is covered by that of its right child.
-/

theorem heapifyChecked_eq (n : Nat) (s : BitVec 32) (compareFun : CompareFun) (run : Run)
    (index : Nat) : heapifyChecked n s compareFun run index =
      (selectLargestChecked n s compareFun run index).bind fun r =>
        if r.1 ≠ index then
          (offset32 s index).bind fun _ => (offset32 s r.1).bind fun _ =>
            heapifyChecked n s compareFun (r.2.swap s.toNat (int32Offset s.toNat) index r.1) r.1
        else some r.2 := by
  rw [heapifyChecked]
  simp only [Option.pbind_eq_bind, dite_eq_ite]

/-- Where no expression overflows, `Heapify` does what `heapify` does, and the offsets of the right
children are in range. -/
theorem heapifyChecked_some (hlog : IteratesAt (RightFits s.toNat) run.log)
    (h : heapifyChecked n s compareFun run index = some r) :
    r = heapify n s.toNat compareFun run index ∧ IteratesAt (RightFits s.toNat) r.log := by
  fun_induction heapify n s.toNat compareFun run index with
  | case1 run index hne ih =>
      rw [heapifyChecked_eq] at h
      obtain ⟨_, hselect, h⟩ := Option.bind_eq_some_iff.mp h
      obtain ⟨rfl, hright⟩ := selectLargestChecked_some hselect
      rw [if_pos hne] at h
      obtain ⟨_, -, h⟩ := Option.bind_eq_some_iff.mp h
      obtain ⟨_, -, h⟩ := Option.bind_eq_some_iff.mp h
      apply ih _ h
      rw [swap_log, iteratesAt_swap]
      exact selectLargest_iteratesAt.mpr ⟨hright, hlog⟩
  | case2 run index heq =>
      rw [heapifyChecked_eq] at h
      obtain ⟨_, hselect, h⟩ := Option.bind_eq_some_iff.mp h
      obtain ⟨rfl, hright⟩ := selectLargestChecked_some hselect
      rw [if_neg heq] at h
      obtain rfl := Option.some.inj h
      exact ⟨rfl, selectLargest_iteratesAt.mpr ⟨hright, hlog⟩⟩

/-- Where the offsets of the right children are in range, no expression overflows. -/
theorem heapifyChecked_of_rightFits (hs : 1 ≤ s.toNat)
    (h : IteratesAt (RightFits s.toNat) (heapify n s.toNat compareFun run index).log) :
    heapifyChecked n s compareFun run index = some (heapify n s.toNat compareFun run index) := by
  fun_induction heapify n s.toNat compareFun run index with
  | case1 run index hne ih =>
      have hswap := h.of_suffix (heapify_suffix _ _ _ _ _)
      obtain ⟨hright, -⟩ := selectLargest_iteratesAt.mp (iteratesAt_swap.mp hswap)
      -- the entry that is swapped is the one the next iteration begins at
      have hnext := h _ _ ((heapify_iterates _ _ _ _ _).mem List.mem_cons_self)
      rw [heapifyChecked_eq, selectLargestChecked_of_right hs hright, Option.bind_some, if_pos hne,
        offset32_of_right hright, Option.bind_some, offset32_of_right hnext, Option.bind_some]
      exact ih h
  | case2 run index heq =>
      obtain ⟨hright, -⟩ := selectLargest_iteratesAt.mp h
      rw [heapifyChecked_eq, selectLargestChecked_of_right hs hright, Option.bind_some, if_neg heq]

/-! ## The loops of `HeapSort_sort`

The same for the two loops, and then for the sort. The loop counter is `int32_t` and ends at -1;
it is counted up by one here, to be the structure of the recursion.
-/

theorem buildLoopChecked_some (hlog : IteratesAt (RightFits s.toNat) run.log)
    (h : buildLoopChecked n s compareFun run count = some r) :
    r = buildLoop n s.toNat compareFun run count ∧ IteratesAt (RightFits s.toNat) r.log := by
  induction count generalizing run with
  | zero =>
      obtain rfl := Option.some.inj h
      exact ⟨rfl, hlog⟩
  | succ i ih =>
      obtain ⟨_, hsift, h⟩ := Option.bind_eq_some_iff.mp h
      obtain ⟨_, -, h⟩ := Option.bind_eq_some_iff.mp h
      obtain ⟨rfl, hsift⟩ := heapifyChecked_some hlog hsift
      exact ih hsift h

theorem buildLoopChecked_of_rightFits (hs : 1 ≤ s.toNat) (hcount : count ≤ 2 ^ 31)
    (h : IteratesAt (RightFits s.toNat) (buildLoop n s.toNat compareFun run count).log) :
    buildLoopChecked n s compareFun run count = some (buildLoop n s.toNat compareFun run count) := by
  induction count generalizing run with
  | zero => rfl
  | succ i ih =>
      have hsift : IteratesAt (RightFits s.toNat) (heapify n s.toNat compareFun run i).log :=
        h.of_suffix (buildLoop_suffix _ _ _ _ _)
      rw [buildLoopChecked, heapifyChecked_of_rightFits hs hsift, Option.bind_some,
        int32_pred (by omega), Option.bind_some]
      exact ih (by omega) h

theorem extractLoopChecked_some (hlog : IteratesAt (RightFits s.toNat) run.log)
    (h : extractLoopChecked s compareFun run count = some r) :
    r = extractLoop s.toNat compareFun run count ∧ IteratesAt (RightFits s.toNat) r.log := by
  induction count generalizing run with
  | zero =>
      obtain rfl := Option.some.inj h
      exact ⟨rfl, hlog⟩
  | succ i ih =>
      obtain ⟨_, -, h⟩ := Option.bind_eq_some_iff.mp h
      obtain ⟨_, hsift, h⟩ := Option.bind_eq_some_iff.mp h
      obtain ⟨_, -, h⟩ := Option.bind_eq_some_iff.mp h
      obtain ⟨rfl, hsift⟩ := heapifyChecked_some (iteratesAt_swap.mpr hlog) hsift
      exact ih hsift h

theorem extractLoopChecked_of_rightFits (hs : 1 ≤ s.toNat) (hcount : count * s.toNat < 2 ^ 31)
    (h : IteratesAt (RightFits s.toNat) (extractLoop s.toNat compareFun run count).log) :
    extractLoopChecked s compareFun run count
      = some (extractLoop s.toNat compareFun run count) := by
  induction count generalizing run with
  | zero => rfl
  | succ i ih =>
      -- the counter and the offsets of the swap fit because the array does
      have hle : i + 1 < 2 ^ 31 := lt_of_le_of_lt (Nat.le_mul_of_pos_right _ hs) hcount
      have hi : i * s.toNat < 2 ^ 31 :=
        lt_of_le_of_lt (Nat.mul_le_mul_right _ (Nat.le_succ i)) hcount
      have hsize : s.toNat < 2 ^ 31 :=
        lt_of_le_of_lt (Nat.le_mul_of_pos_left _ (Nat.succ_pos i)) hcount
      have hsift : IteratesAt (RightFits s.toNat) (heapify i s.toNat compareFun
          (run.swap s.toNat (int32Offset s.toNat) 0 i) 0).log :=
        h.of_suffix (extractLoop_suffix _ _ _ _)
      rw [extractLoopChecked, offset32_of_lt hsize hi, Option.bind_some,
        heapifyChecked_of_rightFits hs hsift, Option.bind_some, int32_pred (by omega),
        Option.bind_some]
      exact ih hi h

theorem sortChecked_eq (hn : n < 2 ^ 31) (s : BitVec 32) (compareFun : CompareFun) (run : Run) :
    sortChecked n s compareFun run =
      (buildLoopChecked n s compareFun run (n / 2)).bind fun run =>
        extractLoopChecked s compareFun run n := by
  have hhalf : (n : Int).tdiv 2 = (n / 2 : Nat) := rfl
  have hlast : ∀ i : Nat, ((i : Int) - 1 + 1).toNat = i := by
    intro i
    rw [sub_add_cancel, Int.toNat_natCast]
  rw [sortChecked, hhalf, int32_of_nonneg (Int.natCast_nonneg _) (by omega)]
  simp only [Option.bind_eq_bind, Option.bind_some, int32_pred (show n / 2 ≤ 2 ^ 31 by omega),
    int32_pred (show n ≤ 2 ^ 31 by omega), hlast, Int.toNat_natCast]

/-- **Which runs are free of overflows**: those in which every iteration of `Heapify` begins at an
entry whose right child has an offset in range. They do what `HeapSort_sort` does. -/
theorem sortChecked_eq_some_iff (hs : 1 ≤ s.toNat) (hn : n * s.toNat < 2 ^ 31)
    (hlog : IteratesAt (RightFits s.toNat) run.log) :
    sortChecked n s compareFun run = some r ↔
      r = sort n s.toNat compareFun run ∧
        IteratesAt (RightFits s.toNat) (sort n s.toNat compareFun run).log := by
  have hle : n < 2 ^ 31 := lt_of_le_of_lt (Nat.le_mul_of_pos_right _ hs) hn
  rw [sortChecked_eq hle, sort]
  constructor
  -- neither loop has overflowed
  · intro h
    obtain ⟨_, hbuild, hextract⟩ := Option.bind_eq_some_iff.mp h
    obtain ⟨rfl, hbuild⟩ := buildLoopChecked_some hlog hbuild
    obtain ⟨rfl, hextract⟩ := extractLoopChecked_some hbuild hextract
    exact ⟨rfl, hextract⟩
  · rintro ⟨rfl, h⟩
    have hbuild := h.of_suffix (extractLoop_suffix _ _ _ _)
    rw [buildLoopChecked_of_rightFits hs (by omega) hbuild, Option.bind_some]
    exact extractLoopChecked_of_rightFits hs hn h

theorem sortChecked_isSome_iff (hs : 1 ≤ s.toNat) (hn : n * s.toNat < 2 ^ 31)
    (compareFun : CompareFun) (buffer : List Byte) :
    (sortChecked n s compareFun ⟨buffer, []⟩).isSome ↔
      IteratesAt (RightFits s.toNat) (sort n s.toNat compareFun ⟨buffer, []⟩).log := by
  rw [Option.isSome_iff_exists]
  constructor
  · rintro ⟨r, h⟩
    exact ((sortChecked_eq_some_iff hs hn (iteratesAt_nil _)).mp h).2
  · intro h
    exact ⟨_, (sortChecked_eq_some_iff hs hn (iteratesAt_nil _)).mpr ⟨rfl, h⟩⟩

/-! ## All comparators

An iteration can begin at the last element, and no further back. So for all comparators together
the offset that decides is the one of the right child of the last element, `2 * n` elements from
the start.
-/

/-- No iteration begins behind the last element. -/
theorem sort_rightFits {size : Nat} (hn : 2 * n * size < 2 ^ 31) (compareFun : CompareFun)
    (buffer : List Byte) : IteratesAt (RightFits size) (sort n size compareFun ⟨buffer, []⟩).log := by
  have htold : Told (2 * n + 1) (sort n size compareFun ⟨buffer, []⟩).log :=
    sort_told (by omega) (told_nil _)
  have hinside := htold.mp (sort_inBounds (inBounds_nil _))
  intro bound index hmem
  have hright := hinside bound index hmem
  have hle : (2 * index + 2) * size ≤ 2 * n * size := Nat.mul_le_mul_right _ (by omega)
  exact lt_of_le_of_lt hle hn

/-- Some comparator leads to the last element. -/
theorem exists_iterates (hn : 1 ≤ n) (size : Nat) (run : Run) :
    ∃ compareFun bound, .iterate bound (n - 1) ∈ (sort n size compareFun run).log := by
  rcases Nat.eq_or_lt_of_le hn with rfl | hlt
  · exact ⟨fun _ _ _ => true, 0, one_iterates size _ run⟩
  · exact ⟨fun _ _ _ => true, n, always_iterates size run hlt⟩

/-- **When heap sort is free of overflows, whatever the comparator**: when twice the size of the
array is an `int32_t`, too. -/
theorem sortChecked_iff (n : Nat) (element_size : BitVec 32) (hs : 1 ≤ element_size.toNat)
    (hsize : n * element_size.toNat ≤ 2 ^ 31 - 1) :
    (∀ (compareFun : CompareFun) (buffer : List Byte), n * element_size.toNat ≤ buffer.length →
      (sortChecked n element_size compareFun ⟨buffer, []⟩).isSome) ↔
      2 * n * element_size.toNat ≤ 2 ^ 31 - 1 := by
  have hsome := fun compareFun buffer =>
    sortChecked_isSome_iff hs (show n * element_size.toNat < 2 ^ 31 by omega) compareFun buffer
  constructor
  · intro h
    rcases Nat.eq_zero_or_pos n with rfl | hn
    · simp only [Nat.mul_zero, Nat.zero_mul, Nat.zero_le]
    · have hlength : n * element_size.toNat
          ≤ (List.replicate (n * element_size.toNat) (0 : Byte)).length :=
        Nat.le_of_eq List.length_replicate.symm
      obtain ⟨compareFun, bound, hmem⟩ := exists_iterates hn element_size.toNat
        ⟨List.replicate (n * element_size.toNat) 0, []⟩
      -- the right child of the last element would be at `2 * n`
      have hright := (hsome compareFun _).mp (h compareFun _ hlength) bound (n - 1) hmem
      rw [RightFits, show 2 * (n - 1) + 2 = 2 * n by omega] at hright
      exact Nat.le_pred_of_lt hright
  · intro htwice compareFun buffer _
    exact (hsome compareFun buffer).mpr (sort_rightFits (Nat.lt_of_le_pred (by decide) htwice) _ _)

/-- Three bytes. -/
theorem sortChecked_iff_three :
    (∀ (compareFun : CompareFun) (buffer : List Byte), 3 * (1#32).toNat ≤ buffer.length →
      (sortChecked (3 : Nat) 1#32 compareFun ⟨buffer, []⟩).isSome) ↔
      2 * 3 * (1#32).toNat ≤ 2 ^ 31 - 1 :=
  sortChecked_iff 3 1#32 (by decide) (by decide)

/-- A single element of `2 ^ 30` bytes: the last iteration multiplies out the offset `2 ^ 31`. -/
theorem overflow_single :
    1 * (0x40000000#32).toNat ≤ 2 ^ 31 - 1 ∧
      1 * (0x40000000#32).toNat ≤ (List.replicate (2 ^ 30) (0 : Byte)).length ∧
      sortChecked (1 : Nat) 0x40000000#32 (comparing (2 ^ 30) greaterByte)
        ⟨List.replicate (2 ^ 30) 0, []⟩ = none := by
  refine ⟨by decide, ?_, ?_⟩
  · rw [List.length_replicate]
    decide
  · rw [← Option.not_isSome_iff_eq_none, sortChecked_isSome_iff (by decide) (by decide)]
    intro h
    have hright : (2 * 0 + 2) * (0x40000000#32).toNat < 2 ^ 31 := h 0 0 (one_iterates _ _ _)
    exact absurd hright (by decide)

end HeapSort
end IMUtility
