import Mathlib.Logic.Basic

/-! # Programs on buffers

A program runs over a memory of named buffers and logs every cell it loads or stores. A buffer has
a cell at every index: that a program stays inside what its caller owns is a statement about the
log. `wp c Q m` says that running `c` from `m` ends with a result and a memory that satisfy `Q`;
its equations execute a program symbolically, and a loop is an induction with `wp_mono`.

What a run leaves in the cells is told by `splice`: the cells as they were, with a list laid over
one buffer. -/

variable {β α ρ ρ' : Type}

/-- The cells of the buffers, and what was loaded and stored, the latest first. -/
structure Memory (β α : Type) where
  cell : β → Nat → α
  loads : List (β × Nat)
  stores : List (β × Nat)

namespace Memory

variable {cell : β → Nat → α} {b b' : β} {off i : Nat} {x : α} {xs ys : List α}

/-! ## Cells

Single stores one behind the other are one splice, which is how a loop's result becomes a list.
`Spells` is the reverse view: what is read, without a word on the other cells.
-/

section Splice

variable [DecidableEq β]

/-- The list `xs` laid over the buffer `b` from `off` on. -/
def splice (cell : β → Nat → α) (b : β) (off : Nat) (xs : List α) : β → Nat → α :=
  fun b' i => if b' = b ∧ off ≤ i then (xs[i - off]?).getD (cell b' i) else cell b' i

@[simp] theorem splice_nil (cell : β → Nat → α) (b : β) (off : Nat) :
    splice cell b off [] = cell := by
  funext b' i
  simp [splice]

theorem splice_of_ne (h : b' ≠ b) : splice cell b off xs b' i = cell b' i :=
  if_neg fun h' => h h'.1

theorem splice_of_lt (h : i < off) : splice cell b off xs b i = cell b i :=
  if_neg fun h' => Nat.not_lt.mpr h'.2 h

theorem splice_of_ge (h : off + xs.length ≤ i) : splice cell b off xs b i = cell b i := by
  rw [splice, if_pos ⟨rfl, Nat.le_trans (Nat.le_add_right off xs.length) h⟩,
    List.getElem?_eq_none (by omega), Option.getD_none]

theorem splice_get (h : i < xs.length) : splice cell b off xs b (off + i) = xs[i] := by
  rw [splice, if_pos ⟨rfl, Nat.le_add_right off i⟩, Nat.add_sub_cancel_left,
    List.getElem?_eq_getElem h, Option.getD_some]

/-- Two lists laid one behind the other. -/
theorem splice_splice (cell : β → Nat → α) (b : β) (off : Nat) (xs ys : List α) :
    splice (splice cell b off xs) b (off + xs.length) ys = splice cell b off (xs ++ ys) := by
  funext b' i
  by_cases hb : b' = b
  · subst hb
    -- in front of both lists, in the first, in the second, or behind them
    rcases Nat.lt_or_ge i off with hlt | hge
    · rw [splice_of_lt (by omega), splice_of_lt hlt, splice_of_lt hlt]
    obtain ⟨j, rfl⟩ := Nat.exists_eq_add_of_le hge
    rcases Nat.lt_or_ge j xs.length with hj | hj
    · rw [splice_of_lt (by omega), splice_get hj,
        splice_get (by rw [List.length_append]; omega), List.getElem_append_left hj]
    rcases Nat.lt_or_ge j (xs.length + ys.length) with hj' | hj'
    · have hpos : off + j = off + xs.length + (j - xs.length) := by omega
      rw [splice_get (by rw [List.length_append]; omega), List.getElem_append_right hj, hpos,
        splice_get]
    · rw [splice_of_ge (by omega), splice_of_ge (by omega),
        splice_of_ge (by rw [List.length_append]; omega)]
  · rw [splice_of_ne hb, splice_of_ne hb, splice_of_ne hb]

/-- A cell that is stored twice. -/
theorem splice_overwrite (cell : β → Nat → α) (b : β) (off : Nat) (x y : α) :
    splice (splice cell b off [x]) b off [y] = splice cell b off [y] := by
  funext b' i
  by_cases hb : b' = b
  · subst hb
    rcases Nat.lt_trichotomy i off with hlt | rfl | hgt
    · rw [splice_of_lt hlt, splice_of_lt hlt, splice_of_lt hlt]
    · simp [splice]
    · rw [splice_of_ge hgt, splice_of_ge hgt, splice_of_ge hgt]
  · rw [splice_of_ne hb, splice_of_ne hb, splice_of_ne hb]

/-! Successive stores of single cells. -/

theorem splice_two (cell : β → Nat → α) (b : β) (off : Nat) (x y : α) :
    splice (splice cell b off [x]) b (off + 1) [y] = splice cell b off [x, y] :=
  splice_splice cell b off [x] [y]

theorem splice_three (cell : β → Nat → α) (b : β) (off : Nat) (x y z : α) :
    splice (splice (splice cell b off [x]) b (off + 1) [y]) b (off + 2) [z]
      = splice cell b off [x, y, z] := by
  rw [splice_two cell b off x y]
  exact splice_splice cell b off [x, y] [z]

theorem splice_four (cell : β → Nat → α) (b : β) (off : Nat) (w x y z : α) :
    splice (splice (splice (splice cell b off [w]) b (off + 1) [x]) b (off + 2) [y]) b (off + 3) [z]
      = splice cell b off [w, x, y, z] := by
  rw [splice_three cell b off w x y]
  exact splice_splice cell b off [w, x, y] [z]

end Splice

/-- The buffer `b` spells `xs` from `off` on. -/
def Spells (cell : β → Nat → α) (b : β) (off : Nat) (xs : List α) : Prop :=
  ∀ i (h : i < xs.length), cell b (off + i) = xs[i]

instance [DecidableEq α] : Decidable (Spells cell b off xs) :=
  inferInstanceAs (Decidable (∀ i (h : i < xs.length), cell b (off + i) = xs[i]))

theorem spells_append :
    Spells cell b off (xs ++ ys) ↔ Spells cell b off xs ∧ Spells cell b (off + xs.length) ys := by
  constructor
  · intro h
    refine ⟨fun i hi => ?_, fun i hi => ?_⟩
    · rw [h i (by rw [List.length_append]; omega), List.getElem_append_left hi]
    · have hat := h (xs.length + i) (by rw [List.length_append]; omega)
      rw [← Nat.add_assoc] at hat
      rw [hat, List.getElem_append_right (Nat.le_add_right ..)]
      simp only [Nat.add_sub_cancel_left]
  · rintro ⟨hx, hy⟩ i hi
    rw [List.length_append] at hi
    rcases Nat.lt_or_ge i xs.length with hlt | hge
    · rw [List.getElem_append_left hlt, hx i hlt]
    · have hat := hy (i - xs.length) (by omega)
      rw [List.getElem_append_right hge, ← hat]
      congr 1
      omega

theorem spells_cons :
    Spells cell b off (x :: xs) ↔ cell b off = x ∧ Spells cell b (off + 1) xs := by
  rw [show x :: xs = [x] ++ xs from rfl, spells_append]
  refine and_congr_left fun _ => ⟨fun h => h 0 Nat.one_pos, ?_⟩
  intro h i hi
  obtain rfl : i = 0 := Nat.lt_one_iff.mp hi
  exact h

/-- Of two lists that stand there, both closed by `x`, none is longer. -/
theorem length_le_of_spells_concat (hy : x ∉ ys) (hxs : Spells cell b off (xs ++ [x]))
    (hys : Spells cell b off (ys ++ [x])) : ys.length ≤ xs.length := by
  apply Nat.le_of_not_lt
  intro hlt
  have hend := hxs xs.length (by rw [List.length_append, List.length_singleton]; omega)
  have hinside := hys xs.length (by rw [List.length_append, List.length_singleton]; omega)
  rw [List.getElem_concat_length rfl] at hend
  rw [List.getElem_append_left (by omega), hend] at hinside
  exact hy (hinside ▸ List.getElem_mem _)

/-- A list that is closed by the first `x` is determined by the cells. -/
theorem spells_concat_inj (hx : x ∉ xs) (hy : x ∉ ys) (hxs : Spells cell b off (xs ++ [x]))
    (hys : Spells cell b off (ys ++ [x])) : xs = ys := by
  have hlen := Nat.le_antisymm (length_le_of_spells_concat hx hys hxs)
    (length_le_of_spells_concat hy hxs hys)
  apply List.ext_getElem hlen
  intro i hi hi'
  have hcell := hxs i (by rw [List.length_append]; omega)
  have hcell' := hys i (by rw [List.length_append]; omega)
  rw [List.getElem_append_left hi] at hcell
  rw [List.getElem_append_left hi'] at hcell'
  rw [← hcell, hcell']

theorem spells_splice [DecidableEq β] (cell : β → Nat → α) (b : β) (off : Nat) (xs : List α) :
    Spells (splice cell b off xs) b off xs := fun _ h => splice_get h

/-- A fresh memory: `xs` at the start of the buffer `b`, and `x` elsewhere. -/
def holding [DecidableEq β] (b : β) (xs : List α) (x : α) : Memory β α :=
  ⟨splice (fun _ _ => x) b 0 xs, [], []⟩

theorem spells_holding [DecidableEq β] (b : β) (xs : List α) (x : α) :
    Spells (holding b xs x).cell b 0 xs := spells_splice _ b 0 xs

/-! ## Programs

The weakest precondition is the postcondition of the result, since programs are functions; what
the name buys is that the equations take a program apart statement by statement.
-/

/-- A program that returns a `ρ`. -/
abbrev Prog (β α ρ : Type) := StateM (Memory β α) ρ

/-- Load a cell. -/
def load (b : β) (i : Nat) : Prog β α α :=
  fun m => (m.cell b i, { m with loads := (b, i) :: m.loads })

/-- Store into a cell. -/
def store [DecidableEq β] (b : β) (i : Nat) (x : α) : Prog β α Unit :=
  fun m => ((), { m with cell := splice m.cell b i [x], stores := (b, i) :: m.stores })

/-- The weakest precondition of `c` for `Q`. -/
def wp (c : Prog β α ρ) (Q : ρ → Memory β α → Prop) (m : Memory β α) : Prop := Q (c m).1 (c m).2

section

variable {c : Prog β α ρ} {f : ρ → Prog β α ρ'} {m : Memory β α}

@[simp] theorem wp_pure (r : ρ) (Q : ρ → Memory β α → Prop) (m : Memory β α) :
    wp (pure r) Q m = Q r m := rfl

@[simp] theorem wp_bind (c : Prog β α ρ) (f : ρ → Prog β α ρ') (Q : ρ' → Memory β α → Prop)
    (m : Memory β α) : wp (c >>= f) Q m = wp c (fun r => wp (f r) Q) m := rfl

@[simp] theorem wp_load (b : β) (i : Nat) (Q : α → Memory β α → Prop) (m : Memory β α) :
    wp (load b i) Q m = Q (m.cell b i) { m with loads := (b, i) :: m.loads } := rfl

@[simp] theorem wp_store [DecidableEq β] (b : β) (i : Nat) (x : α) (Q : Unit → Memory β α → Prop)
    (m : Memory β α) : wp (store b i x) Q m
      = Q () { m with cell := splice m.cell b i [x], stores := (b, i) :: m.stores } := rfl

theorem wp_ite (p : Prop) [Decidable p] (c d : Prog β α ρ) (Q : ρ → Memory β α → Prop)
    (m : Memory β α) :
    wp (if p then c else d) Q m = if p then wp c Q m else wp d Q m := by
  split <;> rfl

/-- What a program ensures may be proved in parts. -/
theorem wp_and {Q Q' : ρ → Memory β α → Prop} (h : wp c Q m) (h' : wp c Q' m) :
    wp c (fun r m' => Q r m' ∧ Q' r m') m := ⟨h, h'⟩

/-- What a program ensures may be weakened. -/
theorem wp_mono {Q Q' : ρ → Memory β α → Prop} (h : wp c Q m) (hQ : ∀ r m', Q r m' → Q' r m') :
    wp c Q' m := hQ _ _ h

end

/-! ## Accesses

A log is judged one entry at a time, so what a program adds to a bounded log can be said without
listing it. -/

/-- Every entry of the log that concerns the buffer `b` is at an index below `n`. -/
def Below (b : β) (n : Nat) (log : List (β × Nat)) : Prop := ∀ a ∈ log, a.1 = b → a.2 < n

instance [DecidableEq β] (b : β) (n : Nat) (log : List (β × Nat)) : Decidable (Below b n log) :=
  inferInstanceAs (Decidable (∀ a ∈ log, _))

@[simp] theorem below_nil (b : β) (n : Nat) : Below b n [] := by
  intro a ha
  cases ha

@[simp] theorem below_cons_self {b : β} {n i : Nat} {log : List (β × Nat)} :
    Below b n ((b, i) :: log) ↔ i < n ∧ Below b n log := by
  simp [Below]

/-- The indices logged for `b` between two logs are those from `lo` up to `hi`. -/
def Fills (b : β) (lo hi : Nat) (log log' : List (β × Nat)) : Prop :=
  ∀ i, (b, i) ∈ log' ↔ (b, i) ∈ log ∨ lo ≤ i ∧ i < hi

theorem Fills.refl (b : β) (lo : Nat) (log : List (β × Nat)) : Fills b lo lo log log := by
  intro i
  refine (or_iff_left ?_).symm
  omega

/-- One more entry, at the next index. -/
theorem Fills.cons {lo hi : Nat} {log log' : List (β × Nat)} (h : Fills b lo hi log log')
    (hle : lo ≤ hi) : Fills b lo (hi + 1) log ((b, hi) :: log') := by
  intro i
  rw [List.mem_cons, h i, Prod.mk.injEq, eq_self, true_and]
  constructor
  · rintro (rfl | hlog | hi')
    · exact Or.inr ⟨hle, Nat.lt_succ_self i⟩
    · exact Or.inl hlog
    · exact Or.inr ⟨hi'.1, Nat.lt_succ_of_lt hi'.2⟩
  · rintro (hlog | ⟨hlo, hlt⟩)
    · exact Or.inr (Or.inl hlog)
    · rcases Nat.eq_or_lt_of_le (Nat.le_of_lt_succ hlt) with rfl | hlt'
      · exact Or.inl rfl
      · exact Or.inr (Or.inr ⟨hlo, hlt'⟩)

/-- Two adjacent ranges. -/
theorem Fills.trans {lo mid hi : Nat} {log log' log'' : List (β × Nat)}
    (h : Fills b lo mid log log') (h' : Fills b mid hi log' log'') (hle : lo ≤ mid)
    (hle' : mid ≤ hi) : Fills b lo hi log log'' := by
  intro i
  rw [h' i, h i, or_assoc]
  apply or_congr_right
  omega

/-- A run from `m` to `m'` that loads at indices below `rd`, stores at indices below `wr`, and
makes at most `k` loads. -/
structure Accesses (rd wr : β → Nat) (k : Nat) (m m' : Memory β α) : Prop where
  loads : ∀ a ∈ m'.loads, a ∈ m.loads ∨ a.2 < rd a.1
  stores : ∀ a ∈ m'.stores, a ∈ m.stores ∨ a.2 < wr a.1
  count : m'.loads.length ≤ m.loads.length + k

namespace Accesses

variable {rd wr : β → Nat} {k k' : Nat} {m m' m'' : Memory β α}

theorem refl (m : Memory β α) : Accesses rd wr k m m :=
  ⟨fun _ => Or.inl, fun _ => Or.inl, Nat.le_add_right ..⟩

theorem trans (h : Accesses rd wr k m m') (h' : Accesses rd wr k' m' m'') :
    Accesses rd wr (k + k') m m'' where
  loads a ha := (h'.loads a ha).elim (h.loads a) Or.inr
  stores a ha := (h'.stores a ha).elim (h.stores a) Or.inr
  count := by
    have h₁ := h.count
    have h₂ := h'.count
    omega

theorem mono (h : Accesses rd wr k m m') (hk : k ≤ k') : Accesses rd wr k' m m' where
  loads := h.loads
  stores := h.stores
  count := Nat.le_trans h.count (Nat.add_le_add_left hk _)

/-- A load, at the end of a run. -/
theorem load {i : Nat} (h : Accesses rd wr k m m') (hi : i < rd b) :
    Accesses rd wr (k + 1) m { m' with loads := (b, i) :: m'.loads } where
  loads a ha := by
    rcases List.mem_cons.mp ha with rfl | ha
    · exact Or.inr hi
    · exact h.loads a ha
  stores := h.stores
  count := Nat.succ_le_succ h.count

/-- A store, at the end of a run. -/
theorem store {i : Nat} (h : Accesses rd wr k m m') (hi : i < wr b)
    (cell : β → Nat → α) :
    Accesses rd wr k m { m' with cell := cell, stores := (b, i) :: m'.stores } where
  loads := h.loads
  stores a ha := by
    rcases List.mem_cons.mp ha with rfl | ha
    · exact Or.inr hi
    · exact h.stores a ha
  count := h.count

end Accesses

end Memory
