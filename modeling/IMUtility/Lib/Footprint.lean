import Mathlib.Data.List.Basic

/-! # Footprints

Where an operation goes in memory is often told by a list beside it: of the cells that it touches,
of the offsets that it computes. Such a list says something about the operation only if the
operation is tied to it. Here the operation is taken to be a sequence of elementary actions, each
with the places it goes to, and it follows a list if these are its places, in order (`Follows`).
What follows one list and then another follows both (`Follows.append`), and a loop follows the lists
of its passes (`Follows.of_foldlM`). -/

namespace Footprint

variable {σ τ α β ι : Type}

/-- Actions with the places `l`, in this order, lead from `s` to `s'`. -/
def Follows (act : α → σ → Option σ) (places : α → List β) (l : List β) (s s' : σ) : Prop :=
  ∃ as : List α, as.flatMap places = l ∧ as.foldlM (fun s a => act a s) s = some s'

variable {act : α → σ → Option σ} {places : α → List β} {l l' : List β} {s s' s'' : σ}

theorem Follows.nil (act : α → σ → Option σ) (places : α → List β) (s : σ) :
    Follows act places [] s s := ⟨[], rfl, rfl⟩

theorem Follows.single {a : α} (h : act a s = some s') : Follows act places (places a) s s' := by
  refine ⟨[a], List.flatMap_singleton .., ?_⟩
  rw [List.foldlM_cons, h]
  rfl

theorem Follows.append (h : Follows act places l s s') (h' : Follows act places l' s' s'') :
    Follows act places (l ++ l') s s'' := by
  obtain ⟨as, rfl, hrun⟩ := h
  obtain ⟨as', rfl, hrun'⟩ := h'
  refine ⟨as ++ as', List.flatMap_append .., ?_⟩
  rw [List.foldlM_append, hrun]
  exact hrun'

/-- **Loops.** If every pass that keeps the invariant follows the list of its index, the loop
follows these lists one after the other. By induction on the passes. -/
theorem Follows.of_foldlM (view : τ → σ) {f : τ → ι → Option τ} {I : τ → Prop}
    {placesAt : ι → List β} (hpass : ∀ t i t', I t → f t i = some t' →
      I t' ∧ Follows act places (placesAt i) (view t) (view t'))
    {is : List ι} {t t' : τ} (ht : I t) (hrun : is.foldlM f t = some t') :
    I t' ∧ Follows act places (is.flatMap placesAt) (view t) (view t') := by
  induction is generalizing t with
  | nil =>
      obtain rfl : t = t' := Option.some.inj hrun
      exact ⟨ht, Follows.nil act places (view t)⟩
  | cons i is ih =>
      rw [List.foldlM_cons] at hrun
      obtain ⟨t₁, hfirst, hrest⟩ := Option.bind_eq_some_iff.mp hrun
      obtain ⟨ht₁, hone⟩ := hpass t i t₁ ht hfirst
      obtain ⟨ht', hmore⟩ := ih ht₁ hrest
      exact ⟨ht', hone.append hmore⟩

end Footprint
