import IMUtility.Utils
import IMUtility.Lib.WeakOrder

/-! # The sorts: what they share

The three sorts work on a buffer of elements of `element_size` bytes, by calls of `compareFun` and
of `Utils_swapElements` alone. A `Run` is the buffer together with the log of what has been done.
A comparator is given the offsets of its two elements and sees the whole run, so that it may
answer by the elements, by what lies elsewhere, or by how often it has been called. -/

namespace IMUtility
namespace Sorting

open Slots

/-- What a sort has done. Elements are named by their index. -/
inductive Event where
  /-- `compareFun` was called. -/
  | compare (first second : Nat)
  /-- `Utils_swapElements` was called. -/
  | swap (first second : Nat)
  /-- An iteration of the loop of `Heapify` began, with the heap bound `n`. -/
  | iterate (n index : Nat)
  deriving DecidableEq

/-- The buffer, and what has been done, the latest first. -/
structure Run where
  buffer : List Byte
  log : List Event

/-- `compareFun`, called with the offsets of its two elements. -/
abbrev CompareFun := Run → Nat → Nat → Bool

/-- A call of `compareFun` on two elements. -/
def Run.compare (run : Run) (compareFun : CompareFun) (offset : Nat → Nat) (first second : Nat) :
    Bool × Run :=
  (compareFun run (offset first) (offset second),
    { run with log := .compare first second :: run.log })

/-- A call of `Utils_swapElements` on two elements. -/
def Run.swap (run : Run) (element_size : Nat) (offset : Nat → Nat) (first second : Nat) : Run where
  buffer := Utils.swapElements run.buffer (offset first) (offset second) element_size
  log := .swap first second :: run.log

/-! ## Offsets

Bubble sort and heap sort multiply in `int32_t`, selection sort in `uint32_t`. The first is taken
as the product, and that the products of a run stay in range is said of its log (`OffsetsFit`). The
second wraps around, and is exact up to the last element when the offset of that one fits
(`uint32Offset_eq`).
-/

/-- `i * (int32_t)element_size`, where that does not overflow. -/
def int32Offset (element_size i : Nat) : Nat := i * element_size

theorem int32Offset_eq (s n : Nat) : ∀ i < n, int32Offset s i = i * s := fun _ _ => rfl

/-- `i * element_size` in `uint32_t`. -/
def uint32Offset (element_size i : Nat) : Nat := i * element_size % 2 ^ 32

/-! ## Loops

The loops of the sorts are folds over the values of their counter. What an iteration at `i` leads
from `P i` to `P (i + 1)` holds with the end of the range when the loop ends; the invariants of
the three sorts are given to these rules.
-/

/-- What a `for` loop over `lo`, `lo + 1`, ... preserves. -/
theorem foldl_range'_induction {σ : Type} {f : σ → Nat → σ} {P : Nat → σ → Prop} {lo len : Nat}
    {x : σ} (hstart : P lo x) (hstep : ∀ i y, lo ≤ i → i < lo + len → P i y → P (i + 1) (f y i)) :
    P (lo + len) ((List.range' lo len).foldl f x) := by
  induction len generalizing lo x with
  | zero => exact hstart
  | succ len ih =>
      -- the first iteration, and then the loop from `lo + 1`
      rw [List.range'_succ, List.foldl_cons, ← Nat.succ_add_eq_add_succ]
      apply ih (hstep lo x le_rfl (by omega) hstart)
      intro i y hlo hlt
      exact hstep i y (by omega) (by omega)

/-- What a `for` loop over `0`, `1`, ... preserves. -/
theorem foldl_range_induction {σ : Type} {f : σ → Nat → σ} {P : Nat → σ → Prop} {len : Nat} {x : σ}
    (hstart : P 0 x) (hstep : ∀ i y, i < len → P i y → P (i + 1) (f y i)) :
    P len ((List.range len).foldl f x) := by
  have hall : P (0 + len) ((List.range' 0 len).foldl f x) := by
    apply foldl_range'_induction hstart
    intro i y _ hlt
    exact hstep i y (by omega)
  rwa [Nat.zero_add, ← List.range_eq_range'] at hall

/-! ## Calls

A comparison changes the log only, and a swap the buffer and the log. Everything the sorts do is
made of these two, so what follows about them is what is needed of `Utils_swapElements`.
-/

section Calls

variable {n s first second : Nat} {run : Run} {offset : Nat → Nat}

@[simp] theorem compare_fst (run : Run) (compareFun : CompareFun) (offset : Nat → Nat)
    (first second : Nat) : (run.compare compareFun offset first second).1
      = compareFun run (offset first) (offset second) := rfl

@[simp] theorem compare_log (run : Run) (compareFun : CompareFun) (offset : Nat → Nat)
    (first second : Nat) : (run.compare compareFun offset first second).2.log
      = .compare first second :: run.log := rfl

@[simp] theorem swap_log (run : Run) (s : Nat) (offset : Nat → Nat) (first second : Nat) :
    (run.swap s offset first second).log = .swap first second :: run.log := rfl

/-- A swap exchanges two slots, if the offsets are those of the slots. -/
theorem swap_buffer (hn : n * s ≤ run.buffer.length) (hfirst : first < n) (hsecond : second < n)
    (hoffset : ∀ i < n, offset i = i * s) :
    (run.swap s offset first second).buffer = exchange s run.buffer first second := by
  rw [Run.swap, hoffset first hfirst, hoffset second hsecond]
  exact Utils.swapElements_eq_exchange hn hfirst hsecond

theorem swap_arranged (hn : n * s ≤ run.buffer.length) (hfirst : first < n) (hsecond : second < n)
    (hoffset : ∀ i < n, offset i = i * s) :
    Arranged n s run.buffer (run.swap s offset first second).buffer := by
  rw [swap_buffer hn hfirst hsecond hoffset]
  exact Arranged.exchange hn hfirst hsecond

theorem uint32Offset_eq (hlast : (n - 1) * s < 2 ^ 32) : ∀ i < n, uint32Offset s i = i * s := by
  intro i hi
  have hle : i * s ≤ (n - 1) * s := Nat.mul_le_mul_right s (Nat.le_sub_one_of_lt hi)
  exact Nat.mod_eq_of_lt (by omega)

/-- Where the whole array fits, the offset of its last element does. -/
theorem last_lt_of_mul_lt {b : Nat} (hn : n * s < b) : (n - 1) * s < b :=
  lt_of_le_of_lt (Nat.mul_le_mul_right s (Nat.sub_le n 1)) hn

theorem last_lt_of_mul_le {b : Nat} (hs : 0 < s) (hb : 0 < b) (hn : n * s ≤ b) :
    (n - 1) * s < b := by
  cases n with
  | zero => rwa [Nat.zero_sub, Nat.zero_mul]
  | succ m =>
      rw [Nat.add_one_mul] at hn
      rw [Nat.add_sub_cancel]
      omega

end Calls

/-! ## Bounds

The log names elements by their index, and says nothing of where they lie. That a run stays inside
the array is `InBounds` of its log, and from it follows that the offsets are in range.
-/

/-- The elements an event hands on. -/
def Event.indices : Event → List Nat
  | .compare first second => [first, second]
  | .swap first second => [first, second]
  | .iterate _ _ => []

/-- Every element handed to `compareFun` or to `Utils_swapElements` is among the first `n`. -/
def InBounds (n : Nat) (log : List Event) : Prop := ∀ e ∈ log, ∀ i ∈ e.indices, i < n

instance (n : Nat) (log : List Event) : Decidable (InBounds n log) :=
  inferInstanceAs (Decidable (∀ e ∈ log, _))

@[simp] theorem inBounds_nil (n : Nat) : InBounds n [] := by
  intro e he
  cases he

@[simp] theorem inBounds_cons {n : Nat} {e : Event} {log : List Event} :
    InBounds n (e :: log) ↔ (∀ i ∈ e.indices, i < n) ∧ InBounds n log := List.forall_mem_cons

@[simp] theorem forall_indices_compare {first second : Nat} {p : Nat → Prop} :
    (∀ i ∈ (Event.compare first second).indices, p i) ↔ p first ∧ p second := by
  simp [Event.indices]

@[simp] theorem forall_indices_swap {first second : Nat} {p : Nat → Prop} :
    (∀ i ∈ (Event.swap first second).indices, p i) ↔ p first ∧ p second := by
  simp [Event.indices]

@[simp] theorem forall_indices_iterate {n index : Nat} {p : Nat → Prop} :
    (∀ i ∈ (Event.iterate n index).indices, p i) ↔ True := by
  simp [Event.indices]

/-- Every offset handed on is an `int32_t`. -/
def OffsetsFit (s : Nat) (log : List Event) : Prop :=
  ∀ e ∈ log, ∀ i ∈ e.indices, int32Offset s i < 2 ^ 31

theorem InBounds.offsetsFit {n s : Nat} {log : List Event} (h : InBounds n log)
    (hlast : (n - 1) * s < 2 ^ 31) : OffsetsFit s log := by
  intro e he i hi
  have hle : i * s ≤ (n - 1) * s := Nat.mul_le_mul_right s (Nat.le_sub_one_of_lt (h e he i hi))
  exact Nat.lt_of_le_of_lt hle hlast

/-! ## Comparators

The proofs about the order work with numbers: each element has a rank, and each slot of a run the
rank of the element in it (`Run.keys`). `Answers` speaks of the comparator as its author would, by
a function of two elements; `Answers.decides` turns it into a comparison of ranks, once and for
all buffers that a sort goes through.

The scope limits which elements the comparator has to be right about. For two sorts it is the
array, and for heap sort what lies below the current heap bound.
-/

/-- The keys of the slots of a run. -/
def Run.keys (run : Run) (s : Nat) (rank : List Byte → Nat) : Nat → Nat :=
  fun i => rank (slot s run.buffer i)

theorem Run.keys_congr {run run' : Run} (h : run'.buffer = run.buffer) (s : Nat)
    (rank : List Byte → Nat) : run'.keys s rank = run.keys s rank := by
  unfold Run.keys
  rw [h]

/-- Exchanged slots are exchanged keys. -/
theorem keys_exchange {n s first second : Nat} {run run' : Run} (hn : n * s ≤ run.buffer.length)
    (hfirst : first < n) (hsecond : second < n)
    (h : run'.buffer = exchange s run.buffer first second) (rank : List Byte → Nat) :
    run'.keys s rank = run.keys s rank ∘ Equiv.swap first second := by
  unfold Run.keys
  rw [h, slot_exchange hn hfirst hsecond]
  rfl

/-- On the elements in its scope, the comparator answers whether the first is greater in `gt`. -/
def Answers (compareFun : CompareFun) (s : Nat) (scope : Run → Nat)
    (gt : List Byte → List Byte → Bool) : Prop :=
  ∀ run i j, i < scope run → j < scope run →
    compareFun run (i * s) (j * s) = gt (slot s run.buffer i) (slot s run.buffer j)

/-- On the elements in its scope, and as long as these are the elements of `buffer`, the comparator
answers whether the first has the greater key. -/
def Decides (compareFun : CompareFun) (n s : Nat) (scope : Run → Nat) (rank : List Byte → Nat)
    (buffer : List Byte) : Prop :=
  ∀ run, Arranged n s buffer run.buffer → ∀ i j, i < scope run → j < scope run →
    compareFun run (i * s) (j * s) = decide (run.keys s rank j < run.keys s rank i)

section Comparators

variable {compareFun : CompareFun} {n s i j : Nat} {scope : Run → Nat}
  {gt : List Byte → List Byte → Bool} {buffer buffer' : List Byte}

/-- A slot of a rearranged buffer holds one of the elements. -/
theorem slot_mem_elements (harr : Arranged n s buffer buffer') (hi : i < n) :
    slot s buffer' i ∈ elements n s buffer := by
  obtain ⟨j, hj, heq⟩ := harr.exists_slot hi
  rw [heq]
  exact List.mem_map.mpr ⟨j, List.mem_range.mpr hj, rfl⟩

/-- **A comparator that is a strict weak order on the elements compares their ranks.** -/
theorem Answers.decides (h : Answers compareFun s scope gt)
    (hgt : StrictWeakOn gt (elements n s buffer)) (hscope : ∀ run, scope run ≤ n) :
    Decides compareFun n s scope (rankIn gt (elements n s buffer)) buffer := by
  intro run harr i j hi hj
  have hn := hscope run
  -- after any rearrangement the slots hold elements of the array
  have hxi := slot_mem_elements harr (show i < n by omega)
  have hxj := slot_mem_elements harr (show j < n by omega)
  rw [h run i j hi hj, Bool.eq_iff_iff, decide_eq_true_iff]
  exact hgt.gt_iff_rankIn hxi hxj

/-- Two elements whose ranks are in order are in order. -/
theorem gt_eq_false_of_keys_le (hgt : StrictWeakOn gt (elements n s buffer)) {run : Run}
    (harr : Arranged n s buffer run.buffer) (hi : i < n) (hj : j < n)
    (hle : run.keys s (rankIn gt (elements n s buffer)) i
      ≤ run.keys s (rankIn gt (elements n s buffer)) j) :
    gt (slot s run.buffer i) (slot s run.buffer j) = false := by
  rw [← Bool.not_eq_true, hgt.gt_iff_rankIn (slot_mem_elements harr hi) (slot_mem_elements harr hj)]
  exact Nat.not_lt.mpr hle

end Comparators

/-- The comparator that looks at nothing but its two elements. -/
def comparing (s : Nat) (gt : List Byte → List Byte → Bool) : CompareFun :=
  fun run first second => gt ((run.buffer.drop first).take s) ((run.buffer.drop second).take s)

theorem comparing_answers (s : Nat) (gt : List Byte → List Byte → Bool) (scope : Run → Nat) :
    Answers (comparing s gt) s scope gt := fun _ _ _ _ _ => rfl

/-- One byte is greater than another. -/
def greaterByte (x y : List Byte) : Bool := decide ((y.headD 0).toNat < (x.headD 0).toNat)

theorem greaterByte_strictWeakOn (S : List (List Byte)) : StrictWeakOn greaterByte S :=
  StrictWeakOn.of_key (fun x : List Byte => (x.headD 0).toNat) S

end Sorting
end IMUtility
