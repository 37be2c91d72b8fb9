import IMUtility.Json.Reading

/-! # The positions of `Json_findByKey`

Two results about the places the function looks at. On a text short enough that the index cannot
wrap around, what it returns and stores is told by three positions of the text: that of the key, and
those of the two quotes around the value (`findByKey_eq_true_iff_located`). And on any content, with
any key and any capacity, it loads and stores inside its two buffers and comes to an end
(`findByKey_accesses`). -/

namespace IMUtility
namespace Json

open Memory
open Delimited (NextAt ReadsAt exists_reads_iff_readsAt)

/-! ## What is returned

For texts of at most 2^32 - 2 characters the wrapped index is out of the way, and what is found is
a matter of reading. The positions of the key and of the two quotes say the same as the pieces, by
`exists_reads_iff_readsAt`.
-/

/-- The key is first at `p`, in front of the last places of the text, and closed by a quote; the
next quotes are at `q` and `r`, and what is between them fits. -/
structure Located (t k : List Byte) (max_value_size p q r : Nat) : Prop where
  room : p < t.length - k.length
  occurs : k <+: t.drop p
  least : ∀ p' < p, ¬ k <+: t.drop p'
  closed : t[p + k.length]? = some quote
  next : NextAt quote t (p + k.length) q
  last : NextAt quote t q r
  fits : r - q - 1 < max_value_size

variable {t k v : List Byte} {max_value_size : Nat}

theorem located_iff {p q r : Nat} : Located t k max_value_size p q r ↔
    ReadsAt quote t k p q r ∧ r - q - 1 < max_value_size := by
  constructor
  · intro h
    exact ⟨⟨⟨h.occurs, h.least⟩, h.closed, h.next, h.last⟩, h.fits⟩
  · rintro ⟨h, hfits⟩
    obtain ⟨hp, -⟩ := List.getElem?_eq_some_iff.mp h.closed
    exact ⟨by omega, h.occurs, h.first, h.closed, h.next, h.last, hfits⟩

/-- The length of what stands between the two quotes. -/
theorem Located.length_value {p q r : Nat} (h : Located t k max_value_size p q r) :
    ((t.drop (q + 1)).take (r - q - 1)).length = r - q - 1 := by
  obtain ⟨hr, -⟩ := List.getElem?_eq_some_iff.mp h.last.eq
  rw [List.length_take, List.length_drop]
  omega

theorem finds_iff_located (hlen : t.length ≤ 2 ^ 32 - 2) : Finds t k max_value_size v ↔
    ∃ p q r, Located t k max_value_size p q r ∧ v = (t.drop (q + 1)).take (r - q - 1) := by
  -- the text is too short for the counter of the search to wrap
  have hwraps : ¬ Wraps t k v := by
    intro h
    have hwrap := h.length_eq
    omega
  rw [finds_iff (by omega), or_iff_left hwraps, exists_reads_iff_readsAt]
  constructor
  · rintro ⟨⟨p, q, r, h, rfl⟩, hfits⟩
    obtain ⟨hr, -⟩ := List.getElem?_eq_some_iff.mp h.last.eq
    rw [List.length_take, List.length_drop] at hfits
    exact ⟨p, q, r, located_iff.mpr ⟨h, by omega⟩, rfl⟩
  · rintro ⟨p, q, r, h, rfl⟩
    refine ⟨⟨p, q, r, (located_iff.mp h).1, rfl⟩, ?_⟩
    rw [h.length_value]
    exact h.fits

/-- **`Json_findByKey`, by positions.** -/
theorem findByKey_eq_true_iff_located (t : List Byte) (hlen : t.length ≤ 2 ^ 32 - 2)
    (key : CString) (max_value_size : Nat) (m : Memory Buffer Byte)
    (ht : Spells m.cell .buffer 0 t) :
    ((findByKey t.length key max_value_size m).1 = true ↔
        ∃ p q r, Located t key.chars max_value_size p q r) ∧
      ∀ p q r, Located t key.chars max_value_size p q r →
        Spells (findByKey t.length key max_value_size m).2.cell .value 0
          ((t.drop (q + 1)).take (r - q - 1) ++ [0]) := by
  obtain ⟨htrue, hvalue⟩ := wp_findByKey ht (by omega) key max_value_size
  refine ⟨htrue.trans ⟨?_, ?_⟩, ?_⟩
  · rintro ⟨v, hv⟩
    obtain ⟨p, q, r, h, -⟩ := (finds_iff_located hlen).mp hv
    exact ⟨p, q, r, h⟩
  · rintro ⟨p, q, r, h⟩
    exact ⟨_, (finds_iff_located hlen).mpr ⟨p, q, r, h, rfl⟩⟩
  · intro p q r h
    rw [hvalue _ ((finds_iff_located hlen).mpr ⟨p, q, r, h, rfl⟩)]
    exact spells_splice m.cell .value 0 _

/-- `"k":"v"`, with room for `v` and its NUL. -/
theorem findByKey_located_member :
    Spells (findByKey 7 ⟨[0x6B], by decide⟩ 2
      (holding .buffer [0x22, 0x6B, 0x22, 0x3A, 0x22, 0x76, 0x22] 0)).2.cell .value 0
      [0x76, 0] := by
  refine (findByKey_eq_true_iff_located [0x22, 0x6B, 0x22, 0x3A, 0x22, 0x76, 0x22] (by decide)
    ⟨[0x6B], by decide⟩ 2 (holding .buffer [0x22, 0x6B, 0x22, 0x3A, 0x22, 0x76, 0x22] 0)
    (spells_holding _ _ _)).2 1 4 6 ⟨by decide, by decide, by decide, by decide, ?_, ?_, by decide⟩
  · refine ⟨by decide, by decide, ?_⟩
    intro l hl hlt
    obtain rfl : l = 3 := by simp at hl; omega
    decide
  · refine ⟨by decide, by decide, ?_⟩
    intro l hl hlt
    obtain rfl : l = 5 := by omega
    decide

/-! ## Where it loads and stores

Nothing is assumed of the content here, so each loop is bounded by its own guard. `Accesses`
counts the loads as well: the comparison makes at most one a character of the key, the search at
most that many a place, and the two loops behind it are linear in the text.
-/

section Accesses

variable {rd wr : Buffer → Nat} {m : Memory Buffer Byte}

theorem wp_strncmpEqual_accesses {ks : List Byte} {index : Nat}
    (hfits : index + ks.length ≤ rd .buffer) :
    wp (strncmpEqual index ks) (fun _ m' => Accesses rd wr ks.length m m') m := by
  induction ks generalizing index m with
  | nil =>
      rw [strncmpEqual, wp_pure]
      exact Accesses.refl m
  | cons k ks ih =>
      rw [List.length_cons] at hfits
      have hone : Accesses rd wr 1 m { m with loads := (.buffer, index) :: m.loads } :=
        (Accesses.refl m).load (k := 0) (by omega)
      rw [strncmpEqual, wp_bind, wp_load, wp_ite]
      split
      · apply wp_mono (ih (by omega))
        intro _ m' h
        exact (hone.trans h).mono (by rw [List.length_cons]; omega)
      · rw [wp_pure]
        exact hone.mono (by rw [List.length_cons]; omega)

/-- The window of the comparison, and the character behind it, lie in the text. By induction on
the places left. -/
theorem wp_searchLoop_accesses {key : CString} {max_search_size index : Nat}
    (hfits : index < max_search_size → max_search_size + key.strlen ≤ rd .buffer) :
    wp (searchLoop key max_search_size index)
      (fun _ m' => Accesses rd wr ((max_search_size - index) * (key.strlen + 1)) m m') m := by
  induction hn : max_search_size - index generalizing index m with
  | zero =>
      rw [searchLoop, if_neg (by omega), wp_pure]
      exact Accesses.refl m
  | succ n ih =>
      have hlt : index < max_search_size := by omega
      have hroom := hfits hlt
      have hkey : index + key.chars.length ≤ rd .buffer := by
        rw [CString.strlen] at hroom
        omega
      rw [searchLoop, if_pos hlt, wp_bind]
      apply wp_mono (wp_strncmpEqual_accesses hkey)
      intro equal m₁ h₁
      rw [wp_ite]
      split
      case isTrue =>
        -- found: one more load, of the byte behind the occurrence
        rw [wp_bind, wp_load, wp_pure]
        have hclose : index + key.strlen < rd .buffer := by omega
        refine (h₁.load hclose).mono ?_
        rw [Nat.succ_mul]
        exact Nat.le_add_left _ _
      case isFalse =>
        -- not found here: the rest of the loop has its own share of the loads
        apply wp_mono (ih (fun _ => hroom) (by omega))
        intro _ m' h
        refine (h₁.trans h).mono ?_
        rw [Nat.succ_mul, CString.strlen]
        omega

/-- The loop to the next quote looks at the text only. -/
theorem wp_skipLoop_accesses {buffer_size index : Nat} (hfits : buffer_size ≤ rd .buffer) :
    wp (skipLoop buffer_size index) (fun _ m' => Accesses rd wr (buffer_size - index) m m') m := by
  induction hn : buffer_size - index generalizing index m with
  | zero =>
      rw [skipLoop, if_neg (by omega), wp_pure]
      exact Accesses.refl m
  | succ n ih =>
      have hone : Accesses rd wr 1 m { m with loads := (.buffer, index) :: m.loads } :=
        (Accesses.refl m).load (k := 0) (by omega)
      rw [skipLoop, if_pos (by omega), wp_bind, wp_load, wp_ite]
      split
      · rw [wp_pure]
        exact hone.mono (by omega)
      · apply wp_mono (ih (by omega))
        intro _ m' h
        exact (hone.trans h).mono (by omega)

/-- The copy stores below the capacity, and leaves a NUL there when it ends at a quote. -/
theorem wp_valueLoop_accesses {buffer_size max_value_size index value_size : Nat}
    (hfits : buffer_size ≤ rd .buffer) (hroom : max_value_size ≤ wr .value) :
    wp (valueLoop buffer_size max_value_size index value_size)
      (fun r m' => Accesses rd wr (2 * (buffer_size - index)) m m' ∧
        (r = true → ∃ i < max_value_size, m'.cell .value i = 0)) m := by
  induction hn : buffer_size - index generalizing index value_size m with
  | zero =>
      rw [valueLoop, if_neg (by omega), wp_pure]
      exact ⟨Accesses.refl m, fun h => absurd h Bool.false_ne_true⟩
  | succ n ih =>
      by_cases hvalue : value_size < max_value_size
      case neg =>
        rw [valueLoop, if_neg fun h => hvalue h.2, wp_pure]
        exact ⟨(Accesses.refl m).mono (Nat.zero_le _), fun h => absurd h Bool.false_ne_true⟩
      case pos =>
        have hindex : index < rd .buffer := by omega
        have hstore : value_size < wr .value := by omega
        rw [valueLoop, if_pos ⟨by omega, hvalue⟩]
        simp only [wp_bind, wp_load, wp_store, wp_ite, wp_pure]
        have hcopy := (((Accesses.refl (k := 0) m).load hindex).store hstore
          (splice m.cell .value value_size [m.cell .buffer index])).load hindex
        split
        case isTrue =>
          refine ⟨(hcopy.store hstore _).mono (by omega), fun _ => ⟨value_size, hvalue, ?_⟩⟩
          exact spells_splice _ Buffer.value value_size [(0 : Byte)] 0 Nat.one_pos
        case isFalse =>
          apply wp_mono (ih (by omega))
          rintro r m' ⟨h, hnul⟩
          exact ⟨(hcopy.trans h).mono (by omega), hnul⟩

theorem wp_findByKey_accesses {buffer_size : Nat} {key : CString} {max_value_size : Nat}
    (hfits : buffer_size ≤ rd .buffer) (hroom : max_value_size ≤ wr .value) :
    wp (findByKey buffer_size key max_value_size)
      (fun r m' => Accesses rd wr (buffer_size * (key.strlen + 4)) m m' ∧
        (r = true → ∃ i < max_value_size, m'.cell .value i = 0)) m := by
  -- the number of places, reduced or not, is at most the difference of the lengths
  have hmax : (if buffer_size > key.strlen then uint32 (buffer_size - key.strlen) else 0)
      ≤ buffer_size - key.strlen := by
    split
    · exact Nat.mod_le _ _
    · exact Nat.zero_le _
  rw [findByKey]
  generalize (if buffer_size > key.strlen then uint32 (buffer_size - key.strlen) else 0)
    = max_search_size at *
  have hsearch : (max_search_size - 0) * (key.strlen + 1) ≤ buffer_size * (key.strlen + 1) :=
    Nat.mul_le_mul_right _ (by omega)
  have htotal : buffer_size * (key.strlen + 4)
      = buffer_size * (key.strlen + 1) + (buffer_size + 2 * buffer_size) := by
    rw [Nat.mul_add, Nat.mul_add]
    omega
  have hrun : wp (searchLoop key max_search_size 0)
      (fun _ m' => Accesses rd wr ((max_search_size - 0) * (key.strlen + 1)) m m') m :=
    wp_searchLoop_accesses (by omega)
  rw [wp_bind]
  apply wp_mono hrun
  rintro ⟨success, index⟩ m₁ h₁
  dsimp only
  rw [wp_ite]
  split
  -- whatever the index is after the reductions, the guards of the two loops hold
  case isTrue =>
    rw [wp_bind]
    apply wp_mono (wp_skipLoop_accesses hfits)
    intro index' m₂ h₂
    apply wp_mono (wp_valueLoop_accesses hfits hroom)
    rintro r m₃ ⟨h₃, hnul⟩
    refine ⟨((h₁.trans h₂).trans h₃).mono ?_, hnul⟩
    omega
  case isFalse =>
    rw [wp_pure]
    exact ⟨h₁.mono (by omega), fun h => absurd h Bool.false_ne_true⟩

end Accesses

/-- What of the two buffers a call may load. -/
def readable (buffer_size : Nat) : Buffer → Nat
  | .buffer => buffer_size
  | .value => 0

/-- What of the two buffers a call may store. -/
def writable (max_value_size : Nat) : Buffer → Nat
  | .buffer => 0
  | .value => max_value_size

/-- **`Json_findByKey` stays inside its buffers**, whatever the text and the key: it loads from
the text below its size and stores into the value below its capacity, nothing else; the loads are
bounded in number; and when it returns true, the value is closed by a NUL below the capacity. -/
theorem findByKey_accesses (buffer_size : Nat) (key : CString) (max_value_size : Nat)
    (cell : Buffer → Nat → Byte) :
    (∀ a ∈ (findByKey buffer_size key max_value_size ⟨cell, [], []⟩).2.loads,
        a.1 = .buffer ∧ a.2 < buffer_size) ∧
      (∀ a ∈ (findByKey buffer_size key max_value_size ⟨cell, [], []⟩).2.stores,
        a.1 = .value ∧ a.2 < max_value_size) ∧
      (findByKey buffer_size key max_value_size ⟨cell, [], []⟩).2.loads.length
        ≤ buffer_size * (key.strlen + 4) ∧
      ((findByKey buffer_size key max_value_size ⟨cell, [], []⟩).1 = true →
        ∃ i < max_value_size,
          (findByKey buffer_size key max_value_size ⟨cell, [], []⟩).2.cell .value i = 0) := by
  obtain ⟨h, hnul⟩ : wp (findByKey buffer_size key max_value_size)
      (fun r m' => Accesses (readable buffer_size) (writable max_value_size)
          (buffer_size * (key.strlen + 4)) ⟨cell, [], []⟩ m' ∧
        (r = true → ∃ i < max_value_size, m'.cell .value i = 0)) ⟨cell, [], []⟩ :=
    wp_findByKey_accesses le_rfl le_rfl
  refine ⟨?_, ?_, ?_, hnul⟩
  · rintro ⟨b, i⟩ ha
    have hi := (h.loads _ ha).resolve_left List.not_mem_nil
    cases b with
    | buffer => exact ⟨rfl, hi⟩
    | value => exact absurd hi (Nat.not_lt_zero i)
  · rintro ⟨b, i⟩ ha
    have hi := (h.stores _ ha).resolve_left List.not_mem_nil
    cases b with
    | buffer => exact absurd hi (Nat.not_lt_zero i)
    | value => exact ⟨rfl, hi⟩
  · have hcount := h.count
    rwa [List.length_nil, Nat.zero_add] at hcount

end Json
end IMUtility
