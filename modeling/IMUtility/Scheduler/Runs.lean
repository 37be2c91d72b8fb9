import IMUtility.Scheduler.Basic
import IMUtility.Lib.Refinement

/-! # Runs of the scheduler

The calls of a client from `Scheduler_init` on: tasks are added, slots are freed by setting their
function to `NULL_PTR`, and the table is run. A task stays in the slot it was accepted in until
that slot is freed (`task_stays`), whatever happens to the others in between. -/

namespace IMUtility
namespace Scheduler

open Refinement (specRun)

variable {F : Type}

/-! ## The calls of a client

The scheduler has no function that removes a task: the client frees a slot by clearing its
function in the table. Functions that are called do not touch the table here; those that do are in
`IMUtility.Scheduler.Reentrant`.
-/

/-- What a client does. A task that is added has a function. -/
inductive Call (F : Type) where
  | addTask (function : F) (active : Bool)
  | free (slot : Nat)
  | run

/-- What it gets: the status, or the calls that were made. -/
inductive Reply (F : Type) where
  | status (accepted : Bool)
  | freed
  | calls (log : List (Nat × F))

/-- `tasks[slot].function = NULL_PTR;` -/
def free (tasks : List (SchedulerTask F)) (slot : Nat) : List (SchedulerTask F) :=
  tasks.modify slot fun task => { task with function := nullPtr }

/-- One call. -/
def step (tasks : List (SchedulerTask F)) : Call F → Reply F × List (SchedulerTask F)
  | .addTask function active =>
    let (status, tasks) := addTask tasks { function := some function, active := active }
    (.status status, tasks)
  | .free slot => (.freed, free tasks slot)
  | .run => (.calls (run tasks), tasks)

/-- The table after a sequence of calls. -/
def after (tasks : List (SchedulerTask F)) (cs : List (Call F)) : List (SchedulerTask F) :=
  (specRun step tasks cs).2

@[simp] theorem after_nil (tasks : List (SchedulerTask F)) : after tasks [] = tasks := rfl

@[simp] theorem after_cons (tasks : List (SchedulerTask F)) (c : Call F) (cs : List (Call F)) :
    after tasks (c :: cs) = after (step tasks c).2 cs := rfl

variable {tasks : List (SchedulerTask F)} {task : SchedulerTask F} {i : Nat} {c : Call F}
  {function : F} {active : Bool}

/-! ## What a call changes

An occupied slot can only come from an addition that went there or from the table before the call,
so everything below is read off `step_occupied_iff` and not off the calls again. -/

theorem Free.not_occupied (h : Free tasks i) : tasks[i]? ≠ some ⟨some function, active⟩ := by
  obtain ⟨task, htask, hfree⟩ := h
  rw [htask]
  rintro ⟨⟩
  cases hfree

/-- **What one call does to a slot**: an addition fills the lowest free one, and nothing but freeing
it empties it. -/
theorem step_occupied_iff : (step tasks c).2[i]? = some ⟨some function, active⟩ ↔
    (c = .addTask function active ∧ LowestFree tasks i) ∨
      (tasks[i]? = some ⟨some function, active⟩ ∧ c ≠ .free i) := by
  cases c with
  | addTask function' active' =>
      show (addTask tasks ⟨some function', active'⟩).2[i]? = _ ↔ _
      rcases addTask_cases tasks ⟨some function', active'⟩ with ⟨hfull, hadd⟩ | ⟨j, hj, hadd⟩
      · rw [hadd]
        have hother : ¬ LowestFree tasks i := fun hi => hfull i hi.1
        rw [or_iff_right fun h => hother h.2]
        exact (and_iff_left (by simp)).symm
      · rw [hadd]
        by_cases hij : j = i
        · -- the slot that is filled was free
          subst hij
          have hlt : j < tasks.length := by
            obtain ⟨task, htask, -⟩ := hj.1
            exact (List.getElem?_eq_some_iff.mp htask).1
          rw [List.getElem?_set_self hlt, or_iff_left fun h => hj.1.not_occupied h.1,
            and_iff_left hj]
          simp
        · have hother : ¬ LowestFree tasks i := fun hi => hij (hj.unique hi)
          rw [List.getElem?_set_ne hij, or_iff_right fun h => hother h.2]
          exact (and_iff_left (by simp)).symm
  | free slot =>
      show (tasks.modify slot _)[i]? = _ ↔ _
      rw [or_iff_right (by simp)]
      by_cases hslot : slot = i
      · subst hslot
        rw [List.getElem?_modify_eq]
        simp
      · rw [List.getElem?_modify_ne _ _ hslot, and_iff_left]
        exact fun h => hslot (Call.free.inj h)
  | run =>
      rw [or_iff_right (by simp)]
      exact (and_iff_left (by simp)).symm

theorem length_step (tasks : List (SchedulerTask F)) (c : Call F) :
    (step tasks c).2.length = tasks.length := by
  cases c with
  | addTask function active => exact length_addTask tasks _
  | free slot => exact List.length_modify ..
  | run => rfl

theorem length_after (tasks : List (SchedulerTask F)) (cs : List (Call F)) :
    (after tasks cs).length = tasks.length := by
  induction cs generalizing tasks with
  | nil => rfl
  | cons c cs ih => rw [after_cons, ih, length_step]

/-- An occupied slot keeps its task in every call that does not free it. -/
theorem task_stays_step (hi : tasks[i]? = some task) (htask : task.function ≠ nullPtr)
    (hc : c ≠ .free i) : (step tasks c).2[i]? = some task := by
  obtain ⟨_, active⟩ := task
  obtain ⟨function, rfl⟩ := Option.ne_none_iff_exists'.mp htask
  exact step_occupied_iff.mpr (Or.inr ⟨hi, hc⟩)

theorem task_stays (hi : tasks[i]? = some task) (htask : task.function ≠ nullPtr)
    {cs : List (Call F)} (hcs : ∀ c ∈ cs, c ≠ .free i) : (after tasks cs)[i]? = some task := by
  induction cs generalizing tasks with
  | nil => exact hi
  | cons c cs ih =>
      -- its slot is not freed by the first call, nor by the others
      have hone := task_stays_step hi htask (hcs c List.mem_cons_self)
      exact ih hone fun d hd => hcs d (List.mem_cons_of_mem c hd)

theorem after_append (tasks : List (SchedulerTask F)) (cs ds : List (Call F)) :
    after tasks (cs ++ ds) = after (after tasks cs) ds := by
  induction cs generalizing tasks with
  | nil => rfl
  | cons c cs ih => rw [List.cons_append, after_cons, ih, after_cons]

theorem after_concat (tasks : List (SchedulerTask F)) (cs : List (Call F)) (c : Call F) :
    after tasks (cs ++ [c]) = (step (after tasks cs) c).2 := by
  rw [after_append, after_cons, after_nil]

/-! ## The task in a slot

A slot does not say which addition filled it, and a task added later may stand in front of one
added earlier when a slot was freed in between. What the table holds is therefore told from the
calls: a task stands in slot `i` if an addition was accepted into that slot and the slot has not
been freed since. -/

/-- Call `k` added the task, which went into slot `i`, and the slot was not freed afterwards. -/
def Holds (start : List (SchedulerTask F)) (cs : List (Call F)) (k i : Nat) (function : F)
    (active : Bool) : Prop :=
  ∃ front back, cs = front ++ .addTask function active :: back ∧ front.length = k ∧
    LowestFree (after start front) i ∧ ∀ d ∈ back, d ≠ .free i

variable {start : List (SchedulerTask F)} {cs : List (Call F)} {k k' i' : Nat} {function' : F}
  {active' : Bool}

/-- The last call added the task, or did not free it. -/
theorem holds_concat : Holds start (cs ++ [c]) k i function active ↔
    (c = .addTask function active ∧ LowestFree (after start cs) i ∧ cs.length = k) ∨
      (Holds start cs k i function active ∧ c ≠ .free i) := by
  constructor
  · rintro ⟨front, back, heq, hk, hlowest, hback⟩
    -- the addition is the last call, or there is a call behind it
    rcases List.eq_nil_or_concat' back with rfl | ⟨back, d, rfl⟩
    · obtain ⟨rfl, hlast⟩ := List.append_inj' heq rfl
      exact Or.inl ⟨List.head_eq_of_cons_eq hlast, hlowest, hk⟩
    · rw [← List.cons_append, ← List.append_assoc] at heq
      obtain ⟨rfl, hlast⟩ := List.append_inj' heq rfl
      obtain rfl := List.head_eq_of_cons_eq hlast
      exact Or.inr ⟨⟨front, back, rfl, hk, hlowest, fun d hd => hback d (by simp [hd])⟩,
        hback c (by simp)⟩
  · rintro (⟨rfl, hlowest, hk⟩ | ⟨⟨front, back, rfl, hk, hlowest, hback⟩, hc⟩)
    · exact ⟨cs, [], rfl, hk, hlowest, fun d hd => absurd hd List.not_mem_nil⟩
    · refine ⟨front, back ++ [c], by simp, hk, hlowest, ?_⟩
      intro d hd
      rcases List.mem_append.mp hd with hd | hd
      · exact hback d hd
      · rwa [List.mem_singleton.mp hd]

/-- **The occupied slots are the tasks accepted and not freed.** By induction on the calls, the last
one first: after `Scheduler_init` no slot is occupied, whatever the table held before. -/
theorem occupied_iff_holds (garbage : List (SchedulerTask F)) :
    (after (init garbage) cs)[i]? = some ⟨some function, active⟩ ↔
      ∃ k, Holds (init garbage) cs k i function active := by
  induction cs using List.reverseRecOn with
  | nil =>
      constructor
      · intro h
        rw [after_nil, init, List.getElem?_map, Option.map_eq_some_iff] at h
        obtain ⟨_, -, heq⟩ := h
        cases heq
      · rintro ⟨k, front, back, heq, -⟩
        cases front <;> cases heq
  | append_singleton cs c ih =>
      rw [after_concat, step_occupied_iff, ih]
      simp only [holds_concat, exists_or, exists_and_right, exists_and_left, exists_eq', and_true]

/-- A task that is held stands in its slot, wherever the run started. -/
theorem Holds.occupied (h : Holds start cs k i function active) :
    (after start cs)[i]? = some ⟨some function, active⟩ := by
  obtain ⟨front, back, rfl, -, hlowest, hback⟩ := h
  have hadded : (step (after start front) (.addTask function active)).2[i]?
      = some ⟨some function, active⟩ := step_occupied_iff.mpr (Or.inl ⟨rfl, hlowest⟩)
  rw [after_append, after_cons]
  exact task_stays hadded (Option.some_ne_none function) hback

/-- A slot holds one task. By induction on the calls, the last one first. -/
theorem Holds.call_unique (h : Holds start cs k i function active)
    (h' : Holds start cs k' i function' active') : k = k' := by
  induction cs using List.reverseRecOn with
  | nil =>
      obtain ⟨front, back, heq, -⟩ := h
      cases front <;> cases heq
  | append_singleton cs c ih =>
      -- the last call added the one task or the other, or neither
      rcases holds_concat.mp h with ⟨-, hlowest, rfl⟩ | ⟨h, -⟩
      · rcases holds_concat.mp h' with ⟨-, -, rfl⟩ | ⟨h', -⟩
        · rfl
        · exact absurd h'.occupied hlowest.1.not_occupied
      · rcases holds_concat.mp h' with ⟨-, hlowest, -⟩ | ⟨h', -⟩
        · exact absurd h.occupied hlowest.1.not_occupied
        · exact ih h h'

/-- A task is held in one slot. -/
theorem Holds.slot_unique (h : Holds start cs k i function active)
    (h' : Holds start cs k i' function' active') : i = i' := by
  obtain ⟨front, back, rfl, hk, hlowest, -⟩ := h
  obtain ⟨front', back', heq, hk', hlowest', -⟩ := h'
  -- the two runs up to the addition have the same length
  obtain ⟨rfl, -⟩ := List.append_inj heq (hk.trans hk'.symm)
  exact hlowest.unique hlowest'

/-! ## No task is lost, duplicated or misordered

Three things together: which slots are occupied and by whom (`occupied_iff_holds`), that the calls
of a run are those of the active ones among them in order (`mem_runFrom`, `pairwise_runFrom`), and
that an accepted task keeps its slot (`task_stays`).
-/

/-- From its acceptance on, a task that is not freed is called once by every run if it is active,
and never if it is not. -/
theorem calls_of_accepted (hi : LowestFree tasks i) (function : F) (active : Bool)
    {ds : List (Call F)} (hds : ∀ d ∈ ds, d ≠ .free i) :
    (run (after tasks (.addTask function active :: ds))).filter (fun p => p.1 = i)
      = if active then [(i, function)] else [] := by
  have hstored : (step tasks (.addTask function active)).2[i]? = some ⟨some function, active⟩ :=
    step_occupied_iff.mpr (Or.inl ⟨rfl, hi⟩)
  have hstays := task_stays hstored (Option.some_ne_none function) hds
  have hcalls := filter_runFrom hstays (k := 0)
  rw [Nat.zero_add] at hcalls
  exact hcalls

/-- **The scheduler never loses, duplicates or misorders a task.** After any run from
`Scheduler_init` on a table of any size and content, an addition is first fit; the occupied slots
hold the tasks that were accepted and not freed since, each in one slot; a run calls the active ones
among these in the order of their slots, and nothing else; and an accepted task is called as often
as it should be from then on. -/
theorem scheduler_runs (garbage : List (SchedulerTask F)) (cs : List (Call F)) :
    let tasks := after (init garbage) cs
    tasks.length = garbage.length ∧
    (∀ (function : F) (active : Bool),
      ((addTask tasks ⟨some function, active⟩).1 = true ↔ ∃ i, Free tasks i) ∧
      ((addTask tasks ⟨some function, active⟩).1 = true →
        ∃ i, LowestFree tasks i ∧
          (addTask tasks ⟨some function, active⟩).2 = tasks.set i ⟨some function, active⟩) ∧
      ((addTask tasks ⟨some function, active⟩).1 = false →
        (addTask tasks ⟨some function, active⟩).2 = tasks)) ∧
    (∀ i function active, tasks[i]? = some ⟨some function, active⟩ ↔
      ∃ k, Holds (init garbage) cs k i function active) ∧
    (∀ k k' i i' function function' active active',
      Holds (init garbage) cs k i function active →
      Holds (init garbage) cs k' i' function' active' → (k = k' ↔ i = i')) ∧
    ((run tasks).Pairwise (fun p q => p.1 < q.1) ∧
      (∀ i function, (i, function) ∈ run tasks ↔ tasks[i]? = some ⟨some function, true⟩) ∧
      ∀ i function, (i, function) ∈ run tasks ↔
        ∃ k, Holds (init garbage) cs k i function true) ∧
    (∀ (function : F) (active : Bool) (i : Nat), LowestFree tasks i →
      ∀ ds : List (Call F), (∀ d ∈ ds, d ≠ .free i) →
        (run (after (init garbage) (cs ++ .addTask function active :: ds))).filter
            (fun p => p.1 = i)
          = if active then [(i, function)] else []) := by
  intro tasks
  have hcalled : ∀ i function,
      (i, function) ∈ run tasks ↔ tasks[i]? = some ⟨some function, true⟩ := by
    intro i function
    have hmem : (i, function) ∈ run tasks
        ↔ 0 ≤ i ∧ tasks[i - 0]? = some ⟨some function, true⟩ := mem_runFrom
    rw [Nat.sub_zero] at hmem
    exact hmem.trans (and_iff_right (Nat.zero_le i))
  refine ⟨?_, ?_, fun _ _ _ => occupied_iff_holds garbage, ?_,
    ⟨pairwise_runFrom 0 tasks, hcalled, ?_⟩, ?_⟩
  · show (after (init garbage) cs).length = garbage.length
    rw [length_after, init, List.length_map]
  · intro function active
    -- a table without a free slot refuses, any other takes the lowest
    rcases addTask_cases tasks ⟨some function, active⟩ with ⟨hfull, hadd⟩ | ⟨i, hi, hadd⟩
    · rw [hadd]
      exact ⟨⟨fun h => absurd h (by simp), fun ⟨i, hi⟩ => absurd hi (hfull i)⟩,
        fun h => absurd h (by simp), fun _ => rfl⟩
    · rw [hadd]
      exact ⟨⟨fun _ => ⟨i, hi.1⟩, fun _ => rfl⟩, fun _ => ⟨i, hi, rfl⟩, fun h => absurd h (by simp)⟩
  · intro k k' i i' function function' active active' h h'
    constructor
    · rintro rfl
      exact h.slot_unique h'
    · rintro rfl
      exact h.call_unique h'
  · intro i function
    rw [hcalled]
    exact occupied_iff_holds garbage
  · intro function active i hi ds hds
    rw [after_append]
    exact calls_of_accepted hi function active hds

/-- The repository's test in a table with stale tasks, and a slot that is freed and filled again.
The stale tasks are not called. -/
theorem scheduler_runs_three :
    let garbage : List (SchedulerTask Nat) := [⟨some 7, true⟩, ⟨some 8, true⟩, ⟨none, true⟩]
    let cs : List (Call Nat) := [.addTask 1 true, .addTask 2 false, .addTask 3 true, .free 0]
    (2, 3) ∈ run (after (init garbage) cs) ∧ (∀ i, (i, 8) ∉ run (after (init garbage) cs)) ∧
      (run (after (init garbage) (cs ++ .addTask 4 true :: [.run]))).filter (fun p => p.1 = 0)
        = if true then [(0, 4)] else [] := by
  intro garbage cs
  obtain ⟨-, -, -, -, ⟨-, -, hcalls⟩, haccepted⟩ := scheduler_runs garbage cs
  have hthird : LowestFree (after (init garbage) (cs.take 2)) 2 :=
    lowestFree_cons_succ (by simp) (lowestFree_cons_succ (by simp) (lowestFree_cons_zero rfl))
  refine ⟨(hcalls 2 3).mpr ⟨2, cs.take 2, [.free 0], rfl, rfl, hthird, by simp⟩, ?_,
    haccepted 4 true 0 (lowestFree_cons_zero rfl) [.run] (by simp)⟩
  intro i hstale
  obtain ⟨k, front, back, heq, -⟩ := (hcalls i 8).mp hstale
  have hmem : Call.addTask 8 true ∈ cs := by
    rw [heq]
    simp
  simp [cs] at hmem

end Scheduler
end IMUtility
