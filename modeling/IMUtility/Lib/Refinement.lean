import Mathlib.Data.List.Basic

/-! # Runs of machines, and refinement between them

A machine takes a call, gives a reply and moves to its next state. An implementation may fail
(`none`), a specification is total. `run_refines` packages the induction over a run: a relation
that every single call preserves, with equal replies, is preserved by every sequence of calls, and
the implementation never fails on the way. For the states that runs reach there are an invariant
rule (`Reaches.invariant`) and a progress rule (`exists_reaches_of_progress`). -/

namespace Refinement

variable {σ τ ι ο : Type}

/-- The reply of a call with a status: what the client's object holds afterwards, if it brought
one. -/
structure Reply (α : Type) where
  status : Bool
  element : Option α
  deriving DecidableEq

/-- The replies of a sequence of calls, and the last state. -/
def run (step : σ → ι → Option (ο × σ)) : σ → List ι → Option (List ο × σ)
  | s, []      => some ([], s)
  | s, c :: cs =>
    (step s c).bind fun (r, s') => (run step s' cs).map fun (rs, s'') => (r :: rs, s'')

/-- The same for a total machine. -/
def specRun (step : τ → ι → ο × τ) : τ → List ι → List ο × τ
  | t, []      => ([], t)
  | t, c :: cs =>
    let (r, t') := step t c
    let (rs, t'') := specRun step t' cs
    (r :: rs, t'')

variable {step : σ → ι → Option (ο × σ)} {spec : τ → ι → ο × τ}

theorem run_cons_of_step {s s' : σ} {c : ι} {r : ο} (h : step s c = some (r, s')) (cs : List ι) :
    run step s (c :: cs) = (run step s' cs).map fun (rs, s'') => (r :: rs, s'') := by
  rw [run, h, Option.bind_some]

theorem specRun_cons (t : τ) (c : ι) (cs : List ι) :
    specRun spec t (c :: cs)
      = ((spec t c).1 :: (specRun spec (spec t c).2 cs).1, (specRun spec (spec t c).2 cs).2) := rfl

theorem specRun_append (t : τ) (cs ds : List ι) :
    specRun spec t (cs ++ ds)
      = ((specRun spec t cs).1 ++ (specRun spec (specRun spec t cs).2 ds).1,
          (specRun spec (specRun spec t cs).2 ds).2) := by
  induction cs generalizing t with
  | nil => rfl
  | cons c cs ih =>
      rw [List.cons_append, specRun_cons, ih, specRun_cons]
      rfl

/-- What one call must do: under `R` and for an admissible call the implementation does not fail,
gives the reply of the specification, and `R` holds again. -/
def StepRefines (step : σ → ι → Option (ο × σ)) (spec : τ → ι → ο × τ) (Ok : ι → Prop)
    (R : σ → τ → Prop) : Prop :=
  ∀ s t c, R s t → Ok c → ∃ s', step s c = some ((spec t c).1, s') ∧ R s' (spec t c).2

/-- **A run refines a run.** By induction on the calls, from the step. -/
theorem run_refines {Ok : ι → Prop} {R : σ → τ → Prop} (hstep : StepRefines step spec Ok R)
    {s : σ} {t : τ} (hR : R s t) (cs : List ι) (hcs : ∀ c ∈ cs, Ok c) :
    ∃ s', run step s cs = some ((specRun spec t cs).1, s') ∧ R s' (specRun spec t cs).2 := by
  induction cs generalizing s t with
  | nil => exact ⟨s, rfl, hR⟩
  | cons c cs ih =>
      obtain ⟨s', hs', hR'⟩ := hstep s t c hR (hcs c List.mem_cons_self)
      obtain ⟨s'', hrun, hR''⟩ := ih hR' (fun d hd => hcs d (List.mem_cons_of_mem c hd))
      refine ⟨s'', ?_, hR''⟩
      rw [run_cons_of_step hs', hrun, specRun_cons]
      rfl

/-! ## Runs under a condition

A condition on a call and the state in which it is made, for the runs of an implementation that
keeps its promises only under it.

The condition may look at the state, so it is a property of the run and not of its calls. It is
asked for only as far as the run is defined.
-/

section Along

variable {P : σ → ι → Prop}

/-- Every call of the run meets the condition `P` where it is made. -/
def Along (step : σ → ι → Option (ο × σ)) (P : σ → ι → Prop) : σ → List ι → Prop
  | _, []      => True
  | s, c :: cs => P s c ∧ ∀ r s', step s c = some (r, s') → Along step P s' cs

theorem along_cons_of_step {s s' : σ} {c : ι} {r : ο} (hstep : step s c = some (r, s'))
    (hc : P s c) {cs : List ι} (hcs : Along step P s' cs) : Along step P s (c :: cs) := by
  refine ⟨hc, ?_⟩
  intro r₁ s₁ h
  rw [hstep] at h
  cases h
  exact hcs

/-- The last state of a run, from a call onwards. -/
theorem exists_of_run_cons {s s' : σ} {c : ι} {cs : List ι} {rs : List ο}
    (h : run step s (c :: cs) = some (rs, s')) :
    ∃ r s₁ rs', step s c = some (r, s₁) ∧ run step s₁ cs = some (rs', s') ∧ rs = r :: rs' := by
  obtain ⟨⟨r, s₁⟩, hstep, h⟩ := Option.bind_eq_some_iff.mp h
  obtain ⟨⟨rs', s₂⟩, hrun, heq⟩ := Option.map_eq_some_iff.mp h
  cases heq
  exact ⟨r, s₁, rs', hstep, hrun, rfl⟩

/-- A run of calls, and then a run of more calls. -/
theorem run_append {s s₁ : σ} {cs : List ι} {rs : List ο} (h : run step s cs = some (rs, s₁))
    (ds : List ι) :
    run step s (cs ++ ds) = (run step s₁ ds).map fun (rs', s') => (rs ++ rs', s') := by
  induction cs generalizing s rs with
  | nil =>
      cases h
      simp
  | cons c cs ih =>
      obtain ⟨r, s₂, rs', hstep, hrun, rfl⟩ := exists_of_run_cons h
      rw [List.cons_append, run_cons_of_step hstep, ih hrun, Option.map_map]
      rfl

theorem exists_of_run_append {s s' : σ} {cs ds : List ι} {rs : List ο}
    (h : run step s (cs ++ ds) = some (rs, s')) :
    ∃ rs₁ s₁ rs₂, run step s cs = some (rs₁, s₁) ∧ run step s₁ ds = some (rs₂, s') ∧
      rs = rs₁ ++ rs₂ := by
  induction cs generalizing s rs with
  | nil => exact ⟨[], s, rs, rfl, h, rfl⟩
  | cons c cs ih =>
      obtain ⟨r, s₂, rs', hstep, hrun, rfl⟩ := exists_of_run_cons h
      obtain ⟨rs₁, s₁, rs₂, hcs, hds, rfl⟩ := ih hrun
      refine ⟨r :: rs₁, s₁, rs₂, ?_, hds, rfl⟩
      rw [run_cons_of_step hstep, hcs]
      rfl

/-- **Invariants along a run.** What an admissible call establishes under the condition holds
after every run that meets it, and the run does not fail. -/
theorem run_of_along {I : σ → Prop} {Ok : ι → Prop}
    (hstep : ∀ s c, I s → Ok c → P s c → ∃ r s', step s c = some (r, s') ∧ I s') {s : σ} (hs : I s)
    {cs : List ι} (hok : ∀ c ∈ cs, Ok c) (hcs : Along step P s cs) :
    ∃ rs s', run step s cs = some (rs, s') ∧ I s' := by
  induction cs generalizing s with
  | nil => exact ⟨[], s, rfl, hs⟩
  | cons c cs ih =>
      obtain ⟨r, s₁, hone, hs₁⟩ := hstep s c hs (hok c List.mem_cons_self) hcs.1
      obtain ⟨rs, s', hrun, hs'⟩ :=
        ih hs₁ (fun d hd => hok d (List.mem_cons_of_mem c hd)) (hcs.2 r s₁ hone)
      refine ⟨r :: rs, s', ?_, hs'⟩
      rw [run_cons_of_step hone, hrun]
      rfl

end Along

/-! ## Reachable states

The two rules by which statements about all reachable states are proved, and refuted: an invariant
holds in each of them, and a state in which something goes wrong is reached step by step.
-/

section Reachable

/-- The states of the runs of admissible calls from `s₀`. -/
def Reaches (step : σ → ι → Option (ο × σ)) (Ok : ι → Prop) (s₀ s : σ) : Prop :=
  ∃ cs rs, (∀ c ∈ cs, Ok c) ∧ run step s₀ cs = some (rs, s)

variable {Ok : ι → Prop} {s₀ s s' : σ}

theorem reaches_refl (step : σ → ι → Option (ο × σ)) (Ok : ι → Prop) (s : σ) :
    Reaches step Ok s s := ⟨[], [], fun _ hc => absurd hc List.not_mem_nil, rfl⟩

/-- One more call. -/
theorem Reaches.tail {c : ι} {r : ο} (h : Reaches step Ok s₀ s) (hc : Ok c)
    (hstep : step s c = some (r, s')) : Reaches step Ok s₀ s' := by
  obtain ⟨cs, rs, hcs, hrun⟩ := h
  refine ⟨cs ++ [c], rs ++ [r], ?_, ?_⟩
  · intro d hd
    rcases List.mem_append.mp hd with hd | hd
    · exact hcs d hd
    · rw [List.mem_singleton.mp hd]
      exact hc
  · rw [run_append hrun, run_cons_of_step hstep]
    rfl

/-- **Progress.** Where every level leads to the next by some admissible call, all are reached. -/
theorem exists_reaches_of_progress {F : Nat → σ → Prop} {N : Nat}
    (hstep : ∀ n < N, ∀ s, F n s → ∃ c r s', Ok c ∧ step s c = some (r, s') ∧ F (n + 1) s')
    (h₀ : F 0 s₀) (n : Nat) (hn : n ≤ N) : ∃ s, Reaches step Ok s₀ s ∧ F n s := by
  induction n with
  | zero => exact ⟨s₀, reaches_refl step Ok s₀, h₀⟩
  | succ n ih =>
      obtain ⟨s, hreach, hs⟩ := ih (Nat.le_of_succ_le hn)
      obtain ⟨c, r, s', hc, hone, hs'⟩ := hstep n hn s hs
      exact ⟨s', hreach.tail hc hone, hs'⟩

/-- **Invariants.** What every admissible call preserves holds in every reachable state. -/
theorem Reaches.invariant {I : σ → Prop}
    (hstep : ∀ s c r s', I s → Ok c → step s c = some (r, s') → I s') (h₀ : I s₀)
    (h : Reaches step Ok s₀ s) : I s := by
  obtain ⟨cs, rs, hcs, hrun⟩ := h
  induction cs generalizing s₀ rs with
  | nil =>
      cases hrun
      exact h₀
  | cons c cs ih =>
      obtain ⟨r, s₁, rs', hone, hrun', -⟩ := exists_of_run_cons hrun
      exact ih (hstep s₀ c r s₁ h₀ (hcs c List.mem_cons_self) hone) rs'
        (fun d hd => hcs d (List.mem_cons_of_mem c hd)) hrun'

end Reachable

/-! ## Calls that fail

An operation gives its status with what it leaves. That a failing call leaves everything as it was
is read off the operation: every other way through it ends with `true`. -/

section Status

variable {γ δ : Type}

/-- The operation does not end with the status `false`. -/
def Succeeds (c : Option (Bool × γ)) : Prop := ∀ x, c ≠ some (false, x)

theorem succeeds_true (x : γ) : Succeeds (some (true, x)) := by
  rintro y ⟨⟩

theorem succeeds_bind {c : Option δ} {f : δ → Option (Bool × γ)} (h : ∀ a, Succeeds (f a)) :
    Succeeds (c.bind f) := by
  intro x hx
  obtain ⟨a, -, ha⟩ := Option.bind_eq_some_iff.mp hx
  exact h a x ha

/-- Behind a guard that leaves `x` when it fails. -/
theorem eq_of_guarded_false {p : Prop} [Decidable p] {c : Option (Bool × γ)} {x y : γ}
    (hc : Succeeds c) (h : (if p then c else some (false, x)) = some (false, y)) : y = x := by
  split at h
  · exact absurd h (hc y)
  · cases h
    rfl

end Status

end Refinement
