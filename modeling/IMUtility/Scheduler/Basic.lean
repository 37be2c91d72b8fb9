import IMUtility.Typedefs
import Mathlib.Data.List.Basic

/-! # `scheduler.c`

A table of tasks is a list, and the loops with their counter walk over it. The type `F` stands for
the functions a task may have: the scheduler only compares them with `NULL_PTR` and calls them.
Running the table gives the log of the calls, each with the slot it was made from.

Below each function stands what it does to the slots. -/

namespace IMUtility

/-- `SchedulerTask_t`. -/
structure SchedulerTask (F : Type) where
  function : Ptr F
  active : Bool
  deriving DecidableEq

namespace Scheduler

variable {F : Type}

/-! ## The functions of the scheduler

`num_of_tasks` is the length of the list. A slot is free if its function is null; the flag
`active` of a free slot says nothing, and `Scheduler_init` clears both. `Scheduler_addTask` does
not look at the function it is given, so a task without one leaves its slot free.
-/

/-- `Scheduler_init`. -/
def init (tasks : List (SchedulerTask F)) : List (SchedulerTask F) :=
  tasks.map fun _ => { function := nullPtr, active := false }

/-- `Scheduler_addTask`: the status, and the table. The first free slot ends the loop. -/
def addTask : List (SchedulerTask F) → SchedulerTask F → Bool × List (SchedulerTask F)
  | [], _ => (false, [])
  | task :: tasks, new_task =>
    if task.function.isNone then
      (true, { function := new_task.function, active := new_task.active } :: tasks)
    else
      let (status, tasks) := addTask tasks new_task
      (status, task :: tasks)

/-- `Scheduler_run`, from slot `i` on. -/
def runFrom (i : Nat) : List (SchedulerTask F) → List (Nat × F)
  | [] => []
  | task :: tasks =>
    match task.function with
    | some function =>
      if task.active then (i, function) :: runFrom (i + 1) tasks else runFrom (i + 1) tasks
    | none => runFrom (i + 1) tasks

/-- `Scheduler_run` over the whole table. -/
def run (tasks : List (SchedulerTask F)) : List (Nat × F) := runFrom 0 tasks

/-! ## Slots

First fit is put into a predicate on the table, so that the statements about runs can say which
slot an addition takes without its loop.
-/

/-- Slot `i` exists and is free. -/
def Free (tasks : List (SchedulerTask F)) (i : Nat) : Prop :=
  ∃ task, tasks[i]? = some task ∧ task.function = nullPtr

/-- Slot `i` is the first free one. -/
def LowestFree (tasks : List (SchedulerTask F)) (i : Nat) : Prop :=
  Free tasks i ∧ ∀ j < i, ¬ Free tasks j

variable {tasks : List (SchedulerTask F)} {task : SchedulerTask F} {i : Nat}

theorem free_cons_zero : Free (task :: tasks) 0 ↔ task.function = nullPtr := by
  simp [Free]

theorem free_cons_succ : Free (task :: tasks) (i + 1) ↔ Free tasks i := Iff.rfl

theorem lowestFree_cons_zero (h : task.function = nullPtr) : LowestFree (task :: tasks) 0 :=
  ⟨free_cons_zero.mpr h, fun _ hj => absurd hj (Nat.not_lt_zero _)⟩

theorem lowestFree_cons_succ (h : task.function ≠ nullPtr) (hi : LowestFree tasks i) :
    LowestFree (task :: tasks) (i + 1) := by
  refine ⟨free_cons_succ.mpr hi.1, ?_⟩
  intro j hj
  cases j with
  | zero => exact mt free_cons_zero.mp h
  | succ j => exact mt free_cons_succ.mp (hi.2 j (Nat.lt_of_succ_lt_succ hj))

theorem LowestFree.unique {j : Nat} (hi : LowestFree tasks i) (hj : LowestFree tasks j) :
    i = j := by
  rcases Nat.lt_trichotomy i j with h | h | h
  · exact absurd hi.1 (hj.2 i h)
  · exact h
  · exact absurd hj.1 (hi.2 j h)

/-! ## Adding

The loop stops at the first free slot, so the proof goes down the table: the slot in front is
free, or the rest of the table decides.
-/

/-- **`Scheduler_addTask` is first fit**: it fails on a full table and leaves it, and otherwise puts
the task into the lowest free slot and leaves the others. -/
theorem addTask_cases (tasks : List (SchedulerTask F)) (new_task : SchedulerTask F) :
    ((∀ i, ¬ Free tasks i) ∧ addTask tasks new_task = (false, tasks)) ∨
    ∃ i, LowestFree tasks i ∧ addTask tasks new_task = (true, tasks.set i new_task) := by
  induction tasks with
  | nil => exact Or.inl ⟨fun i ⟨task, htask, _⟩ => by simp at htask, rfl⟩
  | cons task tasks ih =>
      by_cases hfree : task.function = nullPtr
      · refine Or.inr ⟨0, lowestFree_cons_zero hfree, ?_⟩
        rw [addTask, if_pos (by rw [hfree]; rfl)]
        rfl
      · have hskip : ¬ task.function.isNone = true := by
          rw [Option.isNone_iff_eq_none]
          exact hfree
        rw [addTask, if_neg hskip]
        -- the rest of the table, with its slots one further on
        rcases ih with ⟨hfull, hadd⟩ | ⟨i, hi, hadd⟩
        · refine Or.inl ⟨?_, by rw [hadd]⟩
          intro i
          cases i with
          | zero => exact mt free_cons_zero.mp hfree
          | succ i => exact hfull i
        · exact Or.inr ⟨i + 1, lowestFree_cons_succ hfree hi, by rw [hadd]; rfl⟩

theorem length_addTask (tasks : List (SchedulerTask F)) (new_task : SchedulerTask F) :
    (addTask tasks new_task).2.length = tasks.length := by
  rcases addTask_cases tasks new_task with ⟨-, hadd⟩ | ⟨i, -, hadd⟩
  · rw [hadd]
  · rw [hadd]
    exact List.length_set

/-! ## Running

The log lists the calls in the order in which they are made. Membership, order and the calls of
one slot are all read off `runFrom_cons`, by induction on the table.
-/

/-- What is called for the task in slot `i`: nothing, or its function once. -/
def callOf (i : Nat) (task : SchedulerTask F) : List (Nat × F) :=
  match task.function with
  | some function => if task.active then [(i, function)] else []
  | none => []

theorem runFrom_cons (k : Nat) (task : SchedulerTask F) (tasks : List (SchedulerTask F)) :
    runFrom k (task :: tasks) = callOf k task ++ runFrom (k + 1) tasks := by
  obtain ⟨function, active⟩ := task
  rw [runFrom, callOf]
  cases function with
  | none => rfl
  | some function =>
      cases active with
      | false => rfl
      | true => rfl

theorem mem_callOf {p : Nat × F} :
    p ∈ callOf i task ↔ p.1 = i ∧ task = { function := some p.2, active := true } := by
  obtain ⟨function, active⟩ := task
  obtain ⟨slot, called⟩ := p
  cases function with
  | none => simp [callOf]
  | some function =>
      cases active with
      | false => simp [callOf]
      | true => simp [callOf, eq_comm]

/-- The calls made from slot `k` on are those of the occupied active slots. -/
theorem mem_runFrom {k : Nat} {p : Nat × F} :
    p ∈ runFrom k tasks
      ↔ k ≤ p.1 ∧ tasks[p.1 - k]? = some { function := some p.2, active := true } := by
  induction tasks generalizing k with
  | nil => simp [runFrom]
  | cons task tasks ih =>
      rw [runFrom_cons, List.mem_append, mem_callOf, ih]
      -- a slot in front of the loop, the slot it is at, or one behind it
      rcases Nat.lt_trichotomy p.1 k with hlt | heq | hgt
      · exact ⟨fun h => h.elim (fun h => absurd h.1 (by omega)) fun h => absurd h.1 (by omega),
          fun h => absurd h.1 (by omega)⟩
      · have hzero : p.1 - k = 0 := by omega
        rw [hzero, List.getElem?_cons_zero, Option.some.injEq]
        exact ⟨fun h => h.elim (fun h => ⟨by omega, h.2⟩) fun h => absurd h.1 (by omega),
          fun h => Or.inl ⟨heq, h.2⟩⟩
      · have hsucc : p.1 - k = p.1 - (k + 1) + 1 := by omega
        rw [hsucc, List.getElem?_cons_succ]
        exact ⟨fun h => h.elim (fun h => absurd h.1 (by omega)) fun h => ⟨by omega, h.2⟩,
          fun h => Or.inr ⟨by omega, h.2⟩⟩

/-- The calls are made in the order of the slots, so no slot is called twice. -/
theorem pairwise_runFrom (k : Nat) (tasks : List (SchedulerTask F)) :
    (runFrom k tasks).Pairwise fun p q => p.1 < q.1 := by
  induction tasks generalizing k with
  | nil => exact List.Pairwise.nil
  | cons task tasks ih =>
      rw [runFrom_cons, List.pairwise_append]
      refine ⟨?_, ih (k + 1), ?_⟩
      · unfold callOf
        split
        · split
          · exact List.pairwise_singleton _ _
          · exact List.Pairwise.nil
        · exact List.Pairwise.nil
      · intro p hp q hq
        have hpk := (mem_callOf.mp hp).1
        have hqk := (mem_runFrom.mp hq).1
        omega

/-- The calls of one slot are those of the task that is in it. -/
theorem filter_runFrom {k : Nat} (hi : tasks[i]? = some task) :
    (runFrom k tasks).filter (fun p => p.1 = k + i) = callOf (k + i) task := by
  induction tasks generalizing i k with
  | nil => simp at hi
  | cons first tasks ih =>
      rw [runFrom_cons, List.filter_append]
      -- the slot is the first one, or one of the rest
      cases i with
      | zero =>
          have hfirst : first = task := Option.some.inj hi
          have hown : (callOf k first).filter (fun p => p.1 = k + 0) = callOf k first := by
            rw [List.filter_eq_self]
            intro p hp
            exact decide_eq_true (mem_callOf.mp hp).1
          have hrest : (runFrom (k + 1) tasks).filter (fun p => p.1 = k + 0) = [] := by
            rw [List.filter_eq_nil_iff]
            intro p hp
            have hpk := (mem_runFrom.mp hp).1
            simp only [decide_eq_true_eq]
            omega
          rw [hown, hrest, List.append_nil, hfirst]
          rfl
      | succ i =>
          have hown : (callOf k first).filter (fun p => p.1 = k + (i + 1)) = [] := by
            rw [List.filter_eq_nil_iff]
            intro p hp
            have hpk := (mem_callOf.mp hp).1
            simp only [decide_eq_true_eq]
            omega
          have hpos : k + (i + 1) = k + 1 + i := by omega
          rw [hown, List.nil_append, hpos]
          exact ih hi

end Scheduler
end IMUtility
