import IMUtility.Json.Basic
import IMUtility.Lib.Delimited

/-! # What `Json_findByKey` computes

On a text `t` the function is a matter of two positions: the first place of the key, and the next
quote but one behind it. `Finds t k max_value_size v` says so without reference to a run, and
`wp_findByKey` that the function returns true exactly if some `v` is found, and then stores it. What
is left of the text at an index is `t.drop index`; the loops are inductions on it. -/

namespace IMUtility
namespace Json

open Memory
open Delimited (before FirstAt before_cons_self before_cons_of_ne)

/-! ## The positions

The reduction of the index to 32 bits is kept in `valueStart`, so that the function is
characterised on all texts of fewer than 2^32 characters; that it matters for one length only is
seen later.
-/

/-- Where the value of a key at `p` is taken from: behind the next quote after the one that
follows the key. -/
def valueStart (t k : List Byte) (p : Nat) : Nat :=
  uint32 (p + k.length + 1 + (before quote (t.drop (p + k.length + 1))).length + 1)

/-- The function finds `v`. -/
structure FindsAt (t k : List Byte) (max_value_size : Nat) (v : List Byte) (p : Nat) : Prop
    extends FirstAt t k p where
  closed : t[p + k.length]? = some quote
  value_eq : v = before quote (t.drop (valueStart t k p))
  value_closed : valueStart t k p + v.length < t.length
  value_fits : v.length < max_value_size

@[inherit_doc FindsAt]
def Finds (t k : List Byte) (max_value_size : Nat) (v : List Byte) : Prop :=
  ∃ p, FindsAt t k max_value_size v p

/-- The first place of the key is unique, so that what is found is what is taken from there. -/
theorem finds_iff_of_firstAt {t k v : List Byte} {max_value_size p : Nat} (hat : FirstAt t k p)
    (hclosed : t[p + k.length]? = some quote) :
    Finds t k max_value_size v ↔
      (valueStart t k p + (before quote (t.drop (valueStart t k p))).length < t.length ∧
        (before quote (t.drop (valueStart t k p))).length < max_value_size) ∧
      v = before quote (t.drop (valueStart t k p)) := by
  constructor
  · rintro ⟨p', h⟩
    obtain rfl := h.toFirstAt.unique hat
    obtain rfl := h.value_eq
    exact ⟨⟨h.value_closed, h.value_fits⟩, rfl⟩
  · rintro ⟨⟨hlt, hfits⟩, rfl⟩
    exact ⟨p, { hat with
      closed := hclosed, value_eq := rfl, value_closed := hlt, value_fits := hfits }⟩

/-! ## The loops

The text does not change while it is read, and the value is another buffer, so `Spells` of the
text is carried through each loop. The number of places, or of characters, that are left is what
the inductions are on.
-/

variable {t : List Byte} {m : Memory Buffer Byte}

/-- A character of the text, in front of what is left behind it. -/
theorem drop_eq_cons {i : Nat} (ht : Spells m.cell .buffer 0 t) (hi : i < t.length) :
    t.drop i = m.cell .buffer i :: t.drop (i + 1) := by
  have hcell := ht i hi
  rw [Nat.zero_add] at hcell
  rw [List.drop_eq_getElem_cons hi, hcell]

theorem wp_strncmpEqual (ht : Spells m.cell .buffer 0 t) {ks : List Byte} {index : Nat}
    (hfits : index + ks.length ≤ t.length) :
    wp (strncmpEqual index ks)
      (fun r m' => (r = true ↔ ks <+: t.drop index) ∧ m'.cell = m.cell) m := by
  induction ks generalizing index m with
  | nil =>
      rw [strncmpEqual, wp_pure]
      exact ⟨by simp, rfl⟩
  | cons k ks ih =>
      rw [List.length_cons] at hfits
      have hdrop := drop_eq_cons ht (i := index) (by omega)
      rw [strncmpEqual, wp_bind, wp_load, wp_ite, hdrop]
      by_cases hk : m.cell .buffer index = k
      · rw [if_pos hk, hk]
        refine wp_mono (ih (m := ⟨m.cell, (.buffer, index) :: m.loads, m.stores⟩) ht
          (show index + 1 + ks.length ≤ t.length by omega)) ?_
        rintro r m' ⟨hr, hcell⟩
        exact ⟨hr.trans (List.prefix_cons_inj k).symm, hcell⟩
      · rw [if_neg hk, wp_pure]
        refine ⟨⟨fun h => absurd h Bool.false_ne_true, fun h => ?_⟩, rfl⟩
        exact absurd (List.cons_prefix_cons.mp h).1.symm hk

/-- **The search** ends at the first place of the key below `max_search_size`. By induction on the
places left. -/
theorem wp_searchLoop (ht : Spells m.cell .buffer 0 t) {key : CString} {max_search_size index : Nat}
    (hfits : index < max_search_size → max_search_size + key.strlen ≤ t.length) :
    wp (searchLoop key max_search_size index)
      (fun r m' => m'.cell = m.cell ∧
        ((∃ p, index ≤ p ∧ p < max_search_size ∧ key.chars <+: t.drop p ∧
            (∀ p', index ≤ p' → p' < p → ¬ key.chars <+: t.drop p') ∧
            r = (t[p + key.strlen]? == some quote, p)) ∨
          (r.1 = false ∧ ∀ p', index ≤ p' → p' < max_search_size → ¬ key.chars <+: t.drop p'))) m := by
  induction hn : max_search_size - index generalizing index m with
  | zero =>
      rw [searchLoop, if_neg (by omega), wp_pure]
      exact ⟨rfl, Or.inr ⟨rfl, fun p' _ _ => by omega⟩⟩
  | succ n ih =>
      have hlt : index < max_search_size := by omega
      have hroom := hfits hlt
      rw [searchLoop, if_pos hlt, wp_bind]
      have hkey : index + key.chars.length ≤ t.length := by
        rw [CString.strlen] at hroom
        omega
      apply wp_mono (wp_strncmpEqual ht hkey)
      rintro equal m₁ ⟨hequal, hcell₁⟩
      have ht₁ : Spells m₁.cell .buffer 0 t := by rwa [hcell₁]
      rw [wp_ite]
      split
      case isTrue h =>
        -- `break`: the status is whether a quote follows the key
        have hat := drop_eq_cons ht₁ (i := index + key.strlen) (by omega)
        have hget : t[index + key.strlen]? = some (m₁.cell .buffer (index + key.strlen)) := by
          rw [← List.head?_drop, hat, List.head?_cons]
        rw [wp_bind, wp_load, wp_pure]
        refine ⟨hcell₁, Or.inl ⟨index, le_rfl, hlt, hequal.mp h, fun p' _ _ => by omega, ?_⟩⟩
        rw [hget]
        simp
      case isFalse h =>
        refine wp_mono (ih ht₁ (fun _ => hroom) (by omega)) ?_
        rintro r m' ⟨hcell, hcases⟩
        refine ⟨hcell.trans hcell₁, ?_⟩
        -- this place is none of the key, so the first one is that of the rest
        have hhere : ¬ key.chars <+: t.drop index := fun hocc => h (hequal.mpr hocc)
        rcases hcases with ⟨p, hle, hp, hocc, hfirst, hr⟩ | ⟨hr, hnone⟩
        · refine Or.inl ⟨p, by omega, hp, hocc, ?_, hr⟩
          intro p' hle' hlt'
          rcases Nat.eq_or_lt_of_le hle' with rfl | hgt
          · exact hhere
          · exact hfirst p' hgt hlt'
        · refine Or.inr ⟨hr, ?_⟩
          intro p' hle' hlt'
          rcases Nat.eq_or_lt_of_le hle' with rfl | hgt
          · exact hhere
          · exact hnone p' hgt hlt'

/-- The loop to the next quote passes the part before it. -/
theorem wp_skipLoop (ht : Spells m.cell .buffer 0 t) {index : Nat} (hle : index ≤ t.length) :
    wp (skipLoop t.length index)
      (fun r m' => r = index + (before quote (t.drop index)).length ∧ m'.cell = m.cell) m := by
  induction hn : t.length - index generalizing index m with
  | zero =>
      obtain rfl : index = t.length := by omega
      rw [skipLoop, if_neg (Nat.lt_irrefl _), wp_pure, List.drop_length]
      exact ⟨rfl, rfl⟩
  | succ n ih =>
      have hdrop := drop_eq_cons ht (i := index) (by omega)
      rw [skipLoop, if_pos (by omega), wp_bind, wp_load, wp_ite, hdrop]
      split
      case isTrue hquote =>
        rw [wp_pure, hquote, before_cons_self]
        exact ⟨rfl, rfl⟩
      case isFalse hquote =>
        -- a character that is not a quote is one of those in front of it
        refine wp_mono (ih (m := ⟨m.cell, (.buffer, index) :: m.loads, m.stores⟩) ht
          (show index + 1 ≤ t.length by omega) (by omega)) ?_
        rintro r m' ⟨rfl, hcell⟩
        refine ⟨?_, hcell⟩
        rw [before_cons_of_ne hquote, List.length_cons]
        omega

/-- The text is not written. -/
theorem spells_buffer (ht : Spells m.cell .buffer 0 t) (off : Nat) (xs : List Byte) :
    Spells (splice m.cell .value off xs) .buffer 0 t := by
  intro i hi
  rw [splice_of_ne (by decide)]
  exact ht i hi

/-- **The copy** stores what stands in front of the next quote, and a NUL. By induction on the
characters left. -/
theorem wp_valueLoop (ht : Spells m.cell .buffer 0 t) {max_value_size index value_size : Nat} :
    wp (valueLoop t.length max_value_size index value_size)
      (fun r m' =>
        (r = true ↔ index + (before quote (t.drop index)).length < t.length ∧
          value_size + (before quote (t.drop index)).length < max_value_size) ∧
        (r = true → m'.cell
          = splice m.cell .value value_size (before quote (t.drop index) ++ [0]))) m := by
  induction hn : t.length - index generalizing index value_size m with
  | zero =>
      rw [valueLoop, if_neg (by omega), wp_pure]
      exact ⟨⟨fun h => absurd h Bool.false_ne_true, fun h => by omega⟩,
        fun h => absurd h Bool.false_ne_true⟩
  | succ n ih =>
      by_cases hroom : value_size < max_value_size
      case neg =>
        rw [valueLoop, if_neg (by omega), wp_pure]
        exact ⟨⟨fun h => absurd h Bool.false_ne_true, fun h => by omega⟩,
          fun h => absurd h Bool.false_ne_true⟩
      case pos =>
        have hdrop := drop_eq_cons ht (i := index) (by omega)
        rw [valueLoop, if_pos ⟨by omega, hroom⟩]
        simp only [wp_bind, wp_load, wp_store, wp_ite, wp_pure,
          splice_of_ne (show Buffer.buffer ≠ Buffer.value by decide), hdrop]
        split
        case isTrue hquote =>
          -- the quote was stored, and the NUL takes its place
          rw [hquote, before_cons_self, splice_overwrite, List.nil_append, List.length_nil]
          exact ⟨⟨fun _ => ⟨by omega, hroom⟩, fun _ => trivial⟩, fun _ => rfl⟩
        case isFalse hquote =>
          refine wp_mono (ih (m := ⟨splice m.cell .value value_size [m.cell .buffer index],
            (.buffer, index) :: (.buffer, index) :: m.loads, (.value, value_size) :: m.stores⟩)
            (spells_buffer ht _ _) (by omega)) ?_
          rintro r m' ⟨hr, hcell⟩
          rw [before_cons_of_ne hquote, List.length_cons]
          refine ⟨hr.trans (by omega), fun h => ?_⟩
          rw [hcell h]
          exact splice_splice m.cell .value value_size [m.cell .buffer index]
            (before quote (t.drop (index + 1)) ++ [0])

/-! ## The function

The search gives the first place, if the key is there at all; what follows is a function of that
place. If the key is not closed by a quote there, nothing is found, even if it stands closed
further on.
-/

/-- **`Json_findByKey`** returns true exactly if it finds a value, and stores what it finds. -/
theorem wp_findByKey (ht : Spells m.cell .buffer 0 t) (hlen : t.length < 2 ^ 32) (key : CString)
    (max_value_size : Nat) :
    wp (findByKey t.length key max_value_size)
      (fun r m' => (r = true ↔ ∃ v, Finds t key.chars max_value_size v) ∧
        ∀ v, Finds t key.chars max_value_size v →
          m'.cell = splice m.cell .value 0 (v ++ [0])) m := by
  have hkey : key.strlen = key.chars.length := rfl
  have hmax : (if t.length > key.strlen then uint32 (t.length - key.strlen) else 0)
      = t.length - key.strlen := by
    split
    · exact Nat.mod_eq_of_lt (by omega)
    · omega
  rw [findByKey, wp_bind, hmax]
  apply wp_mono (wp_searchLoop ht (by omega))
  rintro ⟨success, index⟩ m₁ ⟨hcell₁, hcases⟩
  have ht₁ : Spells m₁.cell .buffer 0 t := by rwa [hcell₁]
  rcases hcases with ⟨p, -, hp, hocc, hfirst, hr⟩ | ⟨hr, hnone⟩
  · have hat : FirstAt t key.chars p := ⟨hocc, fun p' hlt => hfirst p' (Nat.zero_le _) hlt⟩
    obtain ⟨rfl, rfl⟩ := Prod.mk.inj hr
    dsimp only
    rw [wp_ite]
    split
    case isTrue hclosed =>
      have hclosed' : t[index + key.chars.length]? = some quote := by simpa [hkey] using hclosed
      have hstart : uint32 (index + uint32 (key.strlen + 1)) = index + key.chars.length + 1 := by
        simp only [uint32]
        omega
      rw [hstart, wp_bind]
      apply wp_mono (wp_skipLoop ht₁ (by omega))
      rintro _ m₂ ⟨rfl, hcell₂⟩
      have ht₂ : Spells m₂.cell .buffer 0 t := by rwa [hcell₂]
      apply wp_mono (wp_valueLoop ht₂)
      rintro r m₃ ⟨hr, hcell₃⟩
      -- what the last loop returns decides whether the one candidate is found
      have hfinds : ∀ v, Finds t key.chars max_value_size v ↔ r = true ∧
          v = before quote (t.drop (valueStart t key.chars index)) := by
        intro v
        rw [finds_iff_of_firstAt hat hclosed', hr, Nat.zero_add]
        rfl
      refine ⟨⟨fun h => ⟨_, (hfinds _).mpr ⟨h, rfl⟩⟩, fun ⟨v, h⟩ => ((hfinds v).mp h).1⟩, ?_⟩
      intro v h
      obtain ⟨htrue, rfl⟩ := (hfinds v).mp h
      rw [hcell₃ htrue, hcell₂, hcell₁]
      rfl
    -- the first place is not closed, and there is no second first place
    case isFalse hclosed =>
      have hnot : ∀ v, ¬ Finds t key.chars max_value_size v := by
        rintro v ⟨p, h⟩
        obtain rfl := h.toFirstAt.unique hat
        exact hclosed (by simpa [hkey] using h.closed)
      rw [wp_pure]
      exact ⟨⟨fun h => absurd h Bool.false_ne_true, fun ⟨v, h⟩ => absurd h (hnot v)⟩,
        fun v h => absurd h (hnot v)⟩
  · have hnot : ∀ v, ¬ Finds t key.chars max_value_size v := by
      rintro v ⟨p, h⟩
      have hp : p + key.chars.length < t.length := (List.getElem?_eq_some_iff.mp h.closed).1
      exact hnone p (Nat.zero_le _) (by omega) h.occurs
    obtain rfl : success = false := hr
    dsimp only
    rw [if_neg Bool.false_ne_true, wp_pure]
    exact ⟨⟨fun h => absurd h Bool.false_ne_true, fun ⟨v, h⟩ => absurd h (hnot v)⟩,
      fun v h => absurd h (hnot v)⟩

end Json
end IMUtility
