import Mathlib.Data.List.Infix
import Mathlib.Data.List.TakeWhile

/-! # Words in a delimited text

A text is cut at each delimiter `d`; the pieces are `t.splitOn d`. A scanner that knows nothing of
the pieces looks for the first place of a word `k`, and then counts delimiters: `Reads` is what it
sees. If `k` has no delimiter in it, each place of `k` lies in one piece, and
`exists_reads_iff_hits` tells the same by the pieces: the first one that contains `k` decides. -/

namespace Delimited

variable {α : Type} [DecidableEq α]

/-! ## Up to a delimiter

`before` is `List.takeWhile`; the lemmas are about the place where it stops, and say that a text
is cut in one way only.
-/

/-- The part in front of the first `d`. -/
def before (d : α) (l : List α) : List α := l.takeWhile (· ≠ d)

variable {d : α} {l x y t k : List α}

@[simp] theorem before_cons_self (d : α) (l : List α) : before d (d :: l) = [] := by
  simp [before]

theorem before_cons_of_ne {c : α} (hc : c ≠ d) (l : List α) :
    before d (c :: l) = c :: before d l := by
  simp [before, hc]

theorem notMem_before (d : α) (l : List α) : d ∉ before d l := by
  intro h
  have hall := List.all_eq_true.mp (List.all_takeWhile (l := l) (p := (· ≠ d))) d h
  simp at hall

theorem before_append (hx : d ∉ x) (l : List α) : before d (x ++ d :: l) = x := by
  induction x with
  | nil => exact before_cons_self d l
  | cons c x ih =>
      rw [List.mem_cons, not_or] at hx
      rw [List.cons_append, before_cons_of_ne (Ne.symm hx.1), ih hx.2]

theorem before_eq_self (hl : d ∉ l) : before d l = l := by
  rw [before, List.takeWhile_eq_self_iff]
  intro c hc
  rw [decide_eq_true_iff]
  rintro rfl
  exact hl hc

/-- A list with a delimiter is cut at the first one. -/
theorem exists_eq_before_append (hl : d ∈ l) : ∃ r, l = before d l ++ d :: r := by
  induction l with
  | nil => exact absurd hl List.not_mem_nil
  | cons c l ih =>
      by_cases hc : c = d
      · subst hc
        exact ⟨l, by rw [before_cons_self, List.nil_append]⟩
      · obtain ⟨r, hr⟩ := ih ((List.mem_cons.mp hl).resolve_left (Ne.symm hc))
        exact ⟨r, by rw [before_cons_of_ne hc, List.cons_append, ← hr]⟩

theorem mem_of_length_before_lt (h : (before d l).length < l.length) : d ∈ l := by
  by_contra hl
  rw [before_eq_self hl] at h
  exact Nat.lt_irrefl _ h

/-- The part in front of the first delimiter is determined. -/
theorem append_cons_inj {x' y' : List α} (hx : d ∉ x) (hx' : d ∉ x')
    (h : x ++ d :: y = x' ++ d :: y') : x = x' ∧ y = y' := by
  obtain rfl : x = x' := by rw [← before_append hx y, h, before_append hx' y']
  exact ⟨rfl, (List.cons_inj_right d).mp (List.append_cancel_left h)⟩

/-! ## The first place of a word

Places are indices into the text, and a word stands at `p` if it is a prefix of what is left
there. A word without a delimiter that begins inside a piece also ends inside it, which is what
ties places to pieces.
-/

/-- The first place of `k` in `t` is `p`. -/
structure FirstAt (t k : List α) (p : Nat) : Prop where
  occurs : k <+: t.drop p
  first : ∀ p' < p, ¬ k <+: t.drop p'

omit [DecidableEq α] in
theorem FirstAt.unique {p p' : Nat} (h : FirstAt t k p) (h' : FirstAt t k p') : p = p' := by
  rcases Nat.lt_trichotomy p p' with hlt | heq | hgt
  · exact absurd h.occurs (h'.first p hlt)
  · exact heq
  · exact absurd h'.occurs (h.first p' hgt)

omit [DecidableEq α] in
/-- A word without delimiter that starts in front of one ends in front of it. -/
theorem prefix_of_prefix_append (hk : d ∉ k) (h : k <+: x ++ d :: y) : k <+: x := by
  rcases Nat.lt_or_ge x.length k.length with hlt | hle
  · have hpre : x ++ [d] <+: x ++ d :: y :=
      (List.prefix_append_right_inj x).mpr ⟨y, rfl⟩
    have hinside : x ++ [d] <+: k := by
      apply List.prefix_of_prefix_length_le hpre h
      rw [List.length_append, List.length_singleton]
      exact hlt
    exact absurd (hinside.subset (List.mem_append_right x List.mem_cons_self)) hk
  · exact List.prefix_of_prefix_length_le h (List.prefix_append x _) hle

omit [DecidableEq α] in
/-- A place of `k` that starts inside the first piece is a place in that piece. -/
theorem prefix_drop_of_le (hk : d ∉ k) {p : Nat} (hp : p ≤ x.length)
    (h : k <+: (x ++ d :: y).drop p) : k <+: x.drop p := by
  rw [List.drop_append_of_le_length hp] at h
  exact prefix_of_prefix_append hk h

/-! ## Reading

The scanner's view of a text. It is stated by the parts of the text rather than by indices, so
that texts that are built from parts can be read by rewriting.
-/

/-- From the first place of `k` on: `k` is closed by a delimiter, and `s` and `v` are the next two
pieces. -/
structure Reads (d : α) (t k pre s v rest : List α) : Prop where
  eq : t = pre ++ (k ++ d :: (s ++ d :: (v ++ d :: rest)))
  first : ∀ p < pre.length, ¬ k <+: t.drop p
  s_free : d ∉ s
  v_free : d ∉ v

omit [DecidableEq α] in
/-- What is read from a text is read from every longer one. -/
theorem Reads.append {pre s v rest : List α} (h : Reads d t k pre s v rest) (u : List α) :
    Reads d (t ++ u) k pre s v (rest ++ u) where
  eq := by
    rw [h.eq]
    simp
  first := by
    intro p hp hocc
    apply h.first p hp
    have hlen : pre.length + k.length ≤ t.length := by
      rw [h.eq]
      simp only [List.length_append]
      omega
    rw [List.drop_append_of_le_length (by omega)] at hocc
    apply List.prefix_of_prefix_length_le hocc (List.prefix_append _ u)
    rw [List.length_drop]
    omega
  s_free := h.s_free
  v_free := h.v_free

omit [DecidableEq α] in
theorem Reads.firstAt {pre s v rest : List α} (h : Reads d t k pre s v rest) :
    FirstAt t k pre.length where
  occurs := by
    rw [h.eq, List.drop_left]
    exact List.prefix_append k _
  first := h.first

/-! ### Reading by indices -/

/-- The first delimiter behind `i` is at `j`. -/
structure NextAt (d : α) (t : List α) (i j : Nat) : Prop where
  lt : i < j
  eq : t[j]? = some d
  free : ∀ l, i < l → l < j → t[l]? ≠ some d

section Indices

variable {v : List α} {i j : Nat}

omit [DecidableEq α] in
theorem NextAt.of_drop {x y : List α} (h : t.drop (i + 1) = x ++ d :: y) (hx : d ∉ x) :
    NextAt d t i (i + 1 + x.length) where
  lt := by omega
  eq := by rw [← List.getElem?_drop, h, List.getElem?_append_right le_rfl, Nat.sub_self]; rfl
  free l hl hlt := by
    obtain ⟨n, rfl⟩ := Nat.exists_eq_add_of_lt hl
    have hn : n < x.length := by omega
    rw [Nat.add_right_comm, ← List.getElem?_drop, h, List.getElem?_append_left hn]
    exact fun heq => hx (List.mem_of_getElem? heq)

omit [DecidableEq α] in
/-- What stands between two consecutive delimiters, and what follows. -/
theorem NextAt.drop_eq (h : NextAt d t i j) :
    t.drop (i + 1) = (t.drop (i + 1)).take (j - i - 1) ++ d :: t.drop (j + 1) ∧
      d ∉ (t.drop (i + 1)).take (j - i - 1) := by
  obtain ⟨hj, hat⟩ := List.getElem?_eq_some_iff.mp h.eq
  have hlt := h.lt
  refine ⟨?_, ?_⟩
  · have hend : i + 1 + (j - i - 1) = j := by omega
    rw [← hat, ← List.drop_eq_getElem_cons hj]
    conv_lhs => rw [← List.take_append_drop (j - i - 1) (t.drop (i + 1)), List.drop_drop, hend]
  · intro hmem
    obtain ⟨n, heq⟩ := List.mem_iff_getElem?.mp hmem
    -- a delimiter in the piece would be one between the two places
    have hn : n < j - i - 1 := by
      obtain ⟨hlen, -⟩ := List.getElem?_eq_some_iff.mp heq
      rw [List.length_take] at hlen
      omega
    rw [List.getElem?_take_of_lt hn, List.getElem?_drop] at heq
    exact h.free (i + 1 + n) (by omega) (by omega) heq

/-- The indices at which `v` is read: `k` starts at `p`, and is closed; the next delimiters are at
`q` and `r`. -/
structure ReadsAt (d : α) (t k : List α) (p q r : Nat) : Prop extends FirstAt t k p where
  closed : t[p + k.length]? = some d
  next : NextAt d t (p + k.length) q
  last : NextAt d t q r

omit [DecidableEq α] in
/-- **Reading by indices.** -/
theorem exists_reads_iff_readsAt : (∃ pre s rest, Reads d t k pre s v rest) ↔
    ∃ p q r, ReadsAt d t k p q r ∧ v = (t.drop (q + 1)).take (r - q - 1) := by
  constructor
  · rintro ⟨pre, s, rest, h⟩
    have hkey : t.drop (pre.length + k.length) = d :: (s ++ d :: (v ++ d :: rest)) := by
      rw [h.eq, ← List.drop_drop, List.drop_left, List.drop_left]
    have hs : t.drop (pre.length + k.length + 1) = s ++ d :: (v ++ d :: rest) := by
      rw [← List.drop_drop, hkey, List.drop_one, List.tail_cons]
    have hv : t.drop (pre.length + k.length + 1 + s.length + 1) = v ++ d :: rest := by
      rw [Nat.add_assoc _ s.length 1, ← List.drop_drop, hs, ← List.drop_drop, List.drop_left,
        List.drop_one, List.tail_cons]
    refine ⟨pre.length, _, _, ⟨h.firstAt, ?_, NextAt.of_drop hs h.s_free,
      NextAt.of_drop hv h.v_free⟩, ?_⟩
    · rw [← List.head?_drop, hkey, List.head?_cons]
    · have hlen : pre.length + k.length + 1 + s.length + 1 + v.length
          - (pre.length + k.length + 1 + s.length) - 1 = v.length := by omega
      rw [hv, hlen, List.take_left]
  · rintro ⟨p, q, r, h, rfl⟩
    obtain ⟨x, hx⟩ := h.occurs
    obtain ⟨hp, -⟩ := List.getElem?_eq_some_iff.mp h.closed
    obtain ⟨hnext, hs⟩ := h.next.drop_eq
    obtain ⟨hlast, hv⟩ := h.last.drop_eq
    -- what follows the occurrence begins with the delimiter
    have hx' : x = d :: t.drop (p + k.length + 1) := by
      have hdrop : t.drop (p + k.length) = x := by rw [← List.drop_drop, ← hx, List.drop_left]
      have hhead := h.closed
      rw [← List.head?_drop, hdrop] at hhead
      obtain ⟨y, rfl⟩ := List.head?_eq_some_iff.mp hhead
      rw [← List.drop_drop, hdrop, List.drop_one, List.tail_cons]
    refine ⟨t.take p, _, t.drop (r + 1), ?_, ?_, hs, hv⟩
    · rw [← hlast, ← hnext, ← hx', hx, List.take_append_drop]
    · intro p' hp'
      rw [List.length_take] at hp'
      exact h.first p' (by omega)

end Indices

/-- The first place of `k` in `w` is its end. -/
def EndsFirst (k w : List α) : Prop :=
  k <:+ w ∧ ∀ p < w.length - k.length, ¬ k <+: w.drop p

instance (k w : List α) : Decidable (EndsFirst k w) := inferInstanceAs (Decidable (_ ∧ _))

omit [DecidableEq α] in
theorem endsFirst_self (k : List α) : EndsFirst k k :=
  ⟨List.suffix_refl k, fun p hp => absurd hp (by omega)⟩

/-- The pieces of `t` from the first one on that contains `k`. -/
def piecesFrom (d : α) (k t : List α) : List (List α) :=
  (t.splitOn d).dropWhile fun w => ¬ k <:+: w

/-- The first of the pieces has its first `k` at its end, and the next but one is `v`, not the last
of all. -/
def HitsIn (k v : List α) : List (List α) → Prop
  | w :: _ :: v' :: _ :: _ => EndsFirst k w ∧ v' = v
  | _ => False

instance (k v : List α) : (ws : List (List α)) → Decidable (HitsIn k v ws)
  | [] | [_] | [_, _] | [_, _, _] => isFalse id
  | w :: _ :: v' :: _ :: _ => inferInstanceAs (Decidable (EndsFirst k w ∧ v' = v))

/-- The pieces of `t` read `v` from `k`. -/
def Hits (d : α) (k v t : List α) : Prop := HitsIn k v (piecesFrom d k t)

instance (d : α) (k v t : List α) : Decidable (Hits d k v t) :=
  inferInstanceAs (Decidable (HitsIn k v _))

/-! ### Reading by pieces -/

section Pieces

variable {v : List α}

omit [DecidableEq α] in
/-- A piece without `k` is passed over. -/
theorem exists_reads_cons_iff (hk : d ∉ k) (hx : ¬ k <:+: x) :
    (∃ pre s rest, Reads d (x ++ d :: y) k pre s v rest) ↔
      ∃ pre s rest, Reads d y k pre s v rest := by
  -- no place of `k` begins in the piece or at its delimiter
  have hearly : ∀ p ≤ x.length, ¬ k <+: (x ++ d :: y).drop p := by
    intro p hp hocc
    exact hx ((prefix_drop_of_le hk hp hocc).isInfix.trans (List.drop_suffix p x).isInfix)
  have hlate : ∀ p, (x ++ d :: y).drop (x.length + 1 + p) = y.drop p := by
    intro p
    rw [List.drop_append, List.drop_of_length_le (by omega), List.nil_append,
      show x.length + 1 + p - x.length = p + 1 by omega, List.drop_succ_cons]
  constructor
  · rintro ⟨pre, s, rest, h⟩
    have hlt : x.length < pre.length := by
      by_contra hle
      exact hearly pre.length (Nat.le_of_not_lt hle) h.firstAt.occurs
    have hpre : x ++ [d] <+: pre := by
      have hleft : x ++ [d] <+: x ++ d :: y := (List.prefix_append_right_inj x).mpr ⟨y, rfl⟩
      apply List.prefix_of_prefix_length_le hleft
      · rw [h.eq]
        exact List.prefix_append pre _
      · rw [List.length_append, List.length_singleton]
        exact hlt
    -- what is in front of the first place has the whole piece in it
    obtain ⟨pre', rfl⟩ := hpre
    refine ⟨pre', s, rest, ?_, ?_, h.s_free, h.v_free⟩
    · have heq := h.eq
      rw [List.append_assoc, List.append_assoc] at heq
      simpa using List.append_cancel_left heq
    · intro p hp hocc
      rw [← hlate p] at hocc
      refine h.first (x.length + 1 + p) ?_ hocc
      simp only [List.length_append, List.length_singleton]
      omega
  · rintro ⟨pre, s, rest, h⟩
    refine ⟨x ++ d :: pre, s, rest, ?_, ?_, h.s_free, h.v_free⟩
    · rw [h.eq]
      simp
    · intro p hp hocc
      rcases Nat.lt_or_ge x.length p with hlt | hle
      · obtain ⟨q, rfl⟩ : ∃ q, p = x.length + 1 + q := ⟨p - (x.length + 1), by omega⟩
        rw [hlate q] at hocc
        refine h.first q ?_ hocc
        simp only [List.length_append, List.length_cons] at hp
        omega
      · exact hearly p hle hocc

omit [DecidableEq α] in
/-- A piece with `k` decides: it must end with its first `k`, and two pieces must follow. -/
theorem exists_reads_iff_of_infix (hk : d ∉ k) (hx : d ∉ x) (hin : k <:+: x) :
    (∃ pre s rest, Reads d (x ++ d :: y) k pre s v rest) ↔
      EndsFirst k x ∧ ∃ s rest, y = s ++ d :: (v ++ d :: rest) ∧ d ∉ s ∧ d ∉ v := by
  constructor
  · rintro ⟨pre, s, rest, h⟩
    -- the first place of `k` is not behind the one in `x`
    obtain ⟨a, b, rfl⟩ := hin
    have hle : pre.length ≤ a.length := by
      by_contra hgt
      apply h.first a.length (Nat.lt_of_not_le hgt)
      rw [List.append_assoc, List.append_assoc, List.drop_left]
      exact List.prefix_append k _
    have hocc := prefix_drop_of_le hk (by simp only [List.length_append]; omega) h.firstAt.occurs
    have hpre : pre <+: a ++ k ++ b := by
      refine List.prefix_of_prefix_length_le ?_ (List.prefix_append _ (d :: y))
        (by simp only [List.length_append]; omega)
      rw [h.eq]
      exact List.prefix_append pre _
    obtain ⟨c, hc⟩ := hpre
    rw [← hc] at hocc h hx ⊢
    rw [List.drop_left] at hocc
    obtain ⟨c', rfl⟩ := hocc
    have heq := h.eq
    rw [List.append_assoc, List.append_assoc, List.append_cancel_left_eq,
      List.append_cancel_left_eq] at heq
    -- what follows `k` in the piece is followed by a delimiter, so there is nothing of it
    have hc' : c' = [] := by
      cases c' with
      | nil => rfl
      | cons e c' =>
          have hhead : e = d := by simpa using congrArg List.head? heq
          exact absurd (by simp [hhead]) hx
    subst hc'
    rw [List.append_nil] at h ⊢
    have hy : y = s ++ d :: (v ++ d :: rest) := by simpa using heq
    refine ⟨⟨List.suffix_append pre k, ?_⟩, s, rest, hy, h.s_free, h.v_free⟩
    intro p hp hbad
    rw [List.length_append] at hp
    apply h.first p (by omega)
    rw [List.drop_append_of_le_length (by rw [List.length_append]; omega)]
    exact hbad.trans (List.prefix_append _ _)
  · rintro ⟨⟨⟨pre, rfl⟩, hfirst⟩, s, rest, rfl, hs, hv⟩
    refine ⟨pre, s, rest, by simp, ?_, hs, hv⟩
    intro p hp hocc
    apply hfirst p (by rw [List.length_append]; omega)
    exact prefix_drop_of_le hk (by rw [List.length_append]; omega) hocc

/-- The first of several pieces ends at a delimiter. -/
theorem exists_eq_of_splitOn {s u : List α} {us : List (List α)} (h : y.splitOn d = s :: u :: us) :
    ∃ y', y = s ++ d :: y' ∧ d ∉ s ∧ y'.splitOn d = u :: us := by
  by_cases hd : d ∈ y
  · obtain ⟨y', hy⟩ := exists_eq_before_append hd
    have hfree := notMem_before d y
    rw [hy, List.splitOn_append_cons_self_of_not_mem hfree] at h
    obtain ⟨rfl, hus⟩ := List.cons.inj h
    exact ⟨y', hy, hfree, hus⟩
  · rw [List.splitOn_eq_singleton hd] at h
    exact absurd (List.cons.inj h).2.symm (List.cons_ne_nil u us)

/-- Two pieces in front of a third. -/
theorem exists_eq_iff_splitOn :
    (∃ s rest, y = s ++ d :: (v ++ d :: rest) ∧ d ∉ s ∧ d ∉ v) ↔
      ∃ s u us, y.splitOn d = s :: v :: u :: us := by
  constructor
  · rintro ⟨s, rest, rfl, hs, hv⟩
    obtain ⟨u, us, hrest⟩ := List.exists_cons_of_ne_nil (List.splitOn_ne_nil d rest)
    refine ⟨s, u, us, ?_⟩
    rw [List.splitOn_append_cons_self_of_not_mem hs, List.splitOn_append_cons_self_of_not_mem hv,
      hrest]
  · rintro ⟨s, u, us, h⟩
    obtain ⟨y', rfl, hs, h'⟩ := exists_eq_of_splitOn h
    obtain ⟨rest, rfl, hv, -⟩ := exists_eq_of_splitOn h'
    exact ⟨s, rest, rfl, hs, hv⟩

omit [DecidableEq α] in
/-- What `HitsIn` asks of the pieces behind one that contains `k`. -/
theorem hitsIn_cons_iff {w : List α} {ws : List (List α)} :
    HitsIn k v (w :: ws) ↔ EndsFirst k w ∧ ∃ s u us, ws = s :: v :: u :: us := by
  -- three pieces must follow: one to skip, the value, and one that shows it is closed
  match ws with
  | [] => simp [HitsIn]
  | [_] => simp [HitsIn]
  | [_, _] => simp [HitsIn]
  | s :: v' :: u :: us =>
    simp only [HitsIn, List.cons.injEq, exists_and_left, exists_eq', and_true]
    tauto

/-- **Reading by places is reading by pieces.** By induction on the length, a piece at a time. -/
theorem exists_reads_iff_hits (hk : d ∉ k) (t : List α) :
    (∃ pre s rest, Reads d t k pre s v rest) ↔ Hits d k v t := by
  induction hn : t.length using Nat.strong_induction_on generalizing t with
  | _ n ih =>
    by_cases hd : d ∈ t
    · obtain ⟨y, hy⟩ := exists_eq_before_append hd
      have hfree := notMem_before d t
      generalize before d t = x at hy hfree
      subst hy
      rw [Hits, piecesFrom, List.splitOn_append_cons_self_of_not_mem hfree, List.dropWhile_cons]
      by_cases hin : k <:+: x
      -- the first piece has `k`: this is the occurrence that counts
      · rw [if_neg (by simpa using hin), hitsIn_cons_iff, exists_reads_iff_of_infix hk hfree hin,
          exists_eq_iff_splitOn]
      -- it has not: skip the piece and its delimiter
      · rw [if_pos (by simpa using hin), exists_reads_cons_iff hk hin]
        refine ih y.length ?_ y rfl
        rw [← hn, List.length_append, List.length_cons]
        omega
    · -- one piece, with no delimiter to close `k`
      constructor
      · rintro ⟨pre, s, rest, h⟩
        refine absurd ?_ hd
        rw [h.eq]
        simp
      · intro h
        rw [Hits, piecesFrom, List.splitOn_eq_singleton hd, List.dropWhile_cons] at h
        split at h <;> exact h.elim

end Pieces

end Delimited
