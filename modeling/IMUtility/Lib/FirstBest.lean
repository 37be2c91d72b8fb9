import Mathlib.Order.Defs.Unbundled
import Mathlib.Order.RelClasses

/-! # The first best entry of a sequence

A left-to-right scan that moves on only where an entry strictly beats the best so far ends at the
earliest of the best entries. The order is any strict total order, so both directions of a linear
order are instances. -/

variable {π : Type} (r : π → π → Prop)

/-- Among the first `n` entries of `f`, the `i`-th is beaten by none, and it beats every entry
before it. -/
structure FirstBest (f : Nat → π) (n i : Nat) : Prop where
  lt : i < n
  not_beaten : ∀ j < n, ¬ r (f i) (f j)
  beats_earlier : ∀ j < i, r (f j) (f i)

namespace FirstBest

variable {r} [IsStrictTotalOrder π r] {f : Nat → π} {n i : Nat}

theorem one : FirstBest r f 1 0 where
  lt := Nat.one_pos
  not_beaten := by
    intro j hj
    obtain rfl : j = 0 := by omega
    exact irrefl (f 0)
  beats_earlier := by
    intro j hj
    omega

/-- A new entry that beats the best so far is the new best. -/
theorem succ_of_beats (h : FirstBest r f n i) (hr : r (f i) (f n)) : FirstBest r f (n + 1) n where
  lt := Nat.lt_succ_self n
  not_beaten := by
    intro j hj hbad
    -- an entry that beat the new one would have beaten the old best
    rcases Nat.lt_succ_iff_lt_or_eq.mp hj with hlt | rfl
    · exact h.not_beaten j hlt (IsTrans.trans _ _ _ hr hbad)
    · exact irrefl (f j) hbad
  beats_earlier := fun j hj => trans_trichotomous_left (h.not_beaten j hj) hr

omit [IsStrictTotalOrder π r] in
/-- One that does not leaves the best where it is. -/
theorem succ_of_not_beats (h : FirstBest r f n i) (hr : ¬ r (f i) (f n)) :
    FirstBest r f (n + 1) i where
  lt := Nat.lt_succ_of_lt h.lt
  not_beaten := by
    intro j hj
    rcases Nat.lt_succ_iff_lt_or_eq.mp hj with hlt | rfl
    · exact h.not_beaten j hlt
    · exact hr
  beats_earlier := h.beats_earlier

end FirstBest
