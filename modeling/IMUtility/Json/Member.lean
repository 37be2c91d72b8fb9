import IMUtility.Json.Reading

/-! # Is what is found the value of the key?

A member of a JSON object is the name in quotes, a colon and the value in quotes, with white space
between them. `Json_findByKey` looks for none of this but the quote behind the name and the two
quotes that follow. `findByKey_sound_iff` tells the texts on which what it stores is the value of a
member with that name. -/

namespace IMUtility
namespace Json

open Memory
open Delimited

/-- `':'`. -/
def colon : Byte := 0x3A

/-- White space between two tokens: space, tab, line feed and carriage return. -/
def Blank (w : List Byte) : Prop := ∀ c ∈ w, c = 0x20 ∨ c = 0x09 ∨ c = 0x0A ∨ c = 0x0D

/-- `t` is `pre`, the member with name `k` and value `v`, and something else. -/
def MemberAt (t k v pre : List Byte) : Prop :=
  ∃ w₁ w₂ rest, Blank w₁ ∧ Blank w₂ ∧
    t = pre ++ quote :: (k ++ quote :: (w₁ ++ colon :: (w₂ ++ quote :: (v ++ quote :: rest))))

/-- The member with name `k` and value `v` stands in `t`. -/
def Member (t k v : List Byte) : Prop := ∃ pre, MemberAt t k v pre

/-- The first place of the key is a whole name: a quote stands before it, and `s`, which stands
between the quote that closes it and the next, is a colon in white space. -/
def WholeName (pre s : List Byte) : Prop :=
  (∃ pre', pre = pre' ++ [quote]) ∧ ∃ w₁ w₂, Blank w₁ ∧ Blank w₂ ∧ s = w₁ ++ colon :: w₂

theorem Blank.quote_notMem {w : List Byte} (h : Blank w) : quote ∉ w := by
  intro hq
  have hcases := h quote hq
  revert hcases
  decide

theorem quote_notMem_colon {w₁ w₂ : List Byte} (h₁ : Blank w₁) (h₂ : Blank w₂) :
    quote ∉ w₁ ++ colon :: w₂ := by
  have hcolon : quote ≠ colon := by decide
  rw [List.mem_append, List.mem_cons]
  rintro (h | h | h)
  · exact h₁.quote_notMem h
  · exact hcolon h
  · exact h₂.quote_notMem h

variable {t k v pre s rest : List Byte}

/-- What is read is the value of a member exactly if the first place of the key is a whole name, or
some later one is the name of a member with that value. -/
theorem member_iff_of_reads (h : Reads quote t k pre s v rest) :
    Member t k v ↔ WholeName pre s ∨ ∃ pre', pre.length ≤ pre'.length ∧ MemberAt t k v pre' := by
  constructor
  · rintro ⟨pre', w₁, w₂, rest', hw₁, hw₂, ht⟩
    rcases Nat.lt_or_ge pre'.length pre.length with hlt | hge
    · -- the name of the member is the first place of the key
      have ht' : t = (pre' ++ [quote]) ++ (k ++ quote :: (w₁ ++ colon :: (w₂ ++ quote :: (v ++
          quote :: rest')))) := by
        rw [ht]
        simp
      have hocc : k <+: t.drop (pre' ++ [quote]).length := by
        rw [ht', List.drop_left]
        exact List.prefix_append k _
      have hlength : (pre' ++ [quote]).length = pre'.length + 1 := by
        rw [List.length_append, List.length_singleton]
      have hsame : pre.length = (pre' ++ [quote]).length := by
        rcases Nat.lt_or_ge (pre' ++ [quote]).length pre.length with hbad | hok
        · exact absurd hocc (h.first _ hbad)
        · omega
      -- the two ways to cut the text begin alike, so what is read is the value of that member
      obtain ⟨rfl, htail⟩ := List.append_inj (h.eq.symm.trans ht') hsame
      rw [List.append_cancel_left_eq, List.cons_inj_right] at htail
      have hpiece : s ++ quote :: (v ++ quote :: rest)
          = (w₁ ++ colon :: w₂) ++ quote :: (v ++ quote :: rest') := by
        rw [htail]
        simp
      obtain ⟨rfl, -⟩ := append_cons_inj h.s_free (quote_notMem_colon hw₁ hw₂) hpiece
      exact Or.inl ⟨⟨pre', rfl⟩, w₁, w₂, hw₁, hw₂, rfl⟩
    · exact Or.inr ⟨pre', hge, w₁, w₂, rest', hw₁, hw₂, ht⟩
  · rintro (⟨⟨pre', rfl⟩, w₁, w₂, hw₁, hw₂, rfl⟩ | ⟨pre', -, hmem⟩)
    · refine ⟨pre', w₁, w₂, rest, hw₁, hw₂, ?_⟩
      rw [h.eq]
      simp
    · exact ⟨pre', hmem⟩

/-- A text with a member is not one where the index wraps around. -/
theorem not_wraps_of_member {v' : List Byte} (h : Member t k v) : ¬ Wraps t k v' := by
  obtain ⟨pre, w₁, w₂, rest, -, -, ht⟩ := h
  refine not_wraps_of_quote (a := pre ++ [quote]) (b := w₁ ++ colon :: w₂)
    (c := v ++ quote :: rest) ?_
  rw [ht]
  simp

/-- What is found stands in the text. -/
theorem Finds.subset {max_value_size : Nat} (h : Finds t k max_value_size v) : v ⊆ t := by
  obtain ⟨p, hp⟩ := h
  rw [hp.value_eq]
  exact fun c hc => List.mem_of_mem_drop ((List.takeWhile_prefix _).subset hc)

/-- **When what is stored is the value of the key.** -/
theorem findByKey_sound_iff (t : List Byte) (hnul : (0 : Byte) ∉ t) (hlen : t.length < 2 ^ 32)
    (key : CString) (max_value_size : Nat) (m : Memory Buffer Byte)
    (ht : Spells m.cell .buffer 0 t) :
    ((findByKey t.length key max_value_size m).1 = true →
        ∀ v, (0 : Byte) ∉ v →
          Spells (findByKey t.length key max_value_size m).2.cell .value 0 (v ++ [0]) →
          Member t key.chars v) ↔
      (∀ pre s v rest, Reads quote t key.chars pre s v rest → v.length < max_value_size →
        WholeName pre s ∨ ∃ pre', pre.length ≤ pre'.length ∧ MemberAt t key.chars v pre') ∧
      ∀ v, Wraps t key.chars v → max_value_size ≤ v.length := by
  obtain ⟨htrue, hstored⟩ := wp_findByKey ht hlen key max_value_size
  -- the string in `value` is what was found
  have hvalue : ∀ v, Finds t key.chars max_value_size v → (0 : Byte) ∉ v ∧
      Spells (findByKey t.length key max_value_size m).2.cell .value 0 (v ++ [0]) := by
    intro v hv
    refine ⟨fun hzero => hnul (hv.subset hzero), ?_⟩
    rw [hstored v hv]
    exact spells_splice m.cell .value 0 (v ++ [0])
  constructor
  -- each thing that is found gives a run, and the run a member
  · intro hsound
    have hfound : ∀ v, Finds t key.chars max_value_size v → Member t key.chars v := by
      intro v hv
      obtain ⟨hzero, hspells⟩ := hvalue v hv
      exact hsound (htrue.mpr ⟨v, hv⟩) v hzero hspells
    refine ⟨fun pre s v rest hreads hfits => ?_, fun v hwraps => ?_⟩
    · rw [← member_iff_of_reads hreads]
      exact hfound v ((finds_iff hlen).mpr ⟨Or.inl ⟨pre, s, rest, hreads⟩, hfits⟩)
    · by_contra hfits
      have hmember := hfound v ((finds_iff hlen).mpr ⟨Or.inr hwraps, Nat.lt_of_not_le hfits⟩)
      exact not_wraps_of_member hmember hwraps
  -- what was stored is what was found: by reading, since nothing that wraps around fits
  · rintro ⟨hreads, hwraps⟩ hreturn v hzero hspells
    obtain ⟨v', hv'⟩ := htrue.mp hreturn
    obtain ⟨hzero', hspells'⟩ := hvalue v' hv'
    obtain rfl := spells_concat_inj hzero hzero' hspells hspells'
    obtain ⟨⟨pre, s, rest, h⟩ | h, hfits⟩ := (finds_iff hlen).mp hv'
    · exact (member_iff_of_reads h).mpr (hreads pre s v rest h hfits)
    · exact absurd hfits (Nat.not_lt.mpr (hwraps v h))

/-- `"a":"x"`: what is stored for `a` is its value. -/
theorem findByKey_sound_name :
    Member [0x22, 0x61, 0x22, 0x3A, 0x22, 0x78, 0x22] [0x61] [0x78] := by
  refine (findByKey_sound_iff [0x22, 0x61, 0x22, 0x3A, 0x22, 0x78, 0x22] (by decide) (by decide)
    ⟨[0x61], by decide⟩ 10 (holding .buffer [0x22, 0x61, 0x22, 0x3A, 0x22, 0x78, 0x22] 0)
    (spells_holding _ _ _)).mpr ⟨fun pre s v rest h _ => ?_, fun v h => ?_⟩ (by decide +kernel)
    [0x78] (by decide) ?_
  · have hpre : pre.length = 1 := h.firstAt.unique ⟨by decide, by decide⟩
    have heq : [0x22] ++ ([0x61] ++ quote :: ([colon] ++ quote :: ([0x78] ++ quote :: [])))
        = pre ++ ([0x61] ++ quote :: (s ++ quote :: (v ++ quote :: rest))) := h.eq
    obtain ⟨rfl, htail⟩ := List.append_inj heq hpre.symm
    rw [List.append_cancel_left_eq, List.cons_inj_right] at htail
    obtain ⟨rfl, -⟩ := append_cons_inj (by decide) h.s_free htail
    refine Or.inl ⟨⟨[], rfl⟩, [], [], ?_, ?_, rfl⟩
    · exact fun c hc => absurd hc List.not_mem_nil
    · exact fun c hc => absurd hc List.not_mem_nil
  · exact absurd h.length_eq (by decide)
  · decide +kernel

/-- The object with the one member `"ab":"x"`: for `b`, which is the end of that name, the
function returns true and stores `x`. -/
theorem findByKey_suffix_key :
    (findByKey 10 ⟨[0x62], by decide⟩ 10
        (holding .buffer [0x7B, 0x22, 0x61, 0x62, 0x22, 0x3A, 0x22, 0x78, 0x22, 0x7D] 0)).1 = true ∧
      Spells (findByKey 10 ⟨[0x62], by decide⟩ 10
        (holding .buffer [0x7B, 0x22, 0x61, 0x62, 0x22, 0x3A, 0x22, 0x78, 0x22, 0x7D] 0)).2.cell
        .value 0 ([0x78] ++ [0]) ∧
      ¬ Member [0x7B, 0x22, 0x61, 0x62, 0x22, 0x3A, 0x22, 0x78, 0x22, 0x7D] [0x62] [0x78] := by
  refine ⟨by decide +kernel, ?_, ?_⟩
  · decide +kernel
  · rintro ⟨pre, w₁, w₂, rest, -, -, h⟩
    have hname : [quote, 0x62, quote] <:+:
        ([0x7B, 0x22, 0x61, 0x62, 0x22, 0x3A, 0x22, 0x78, 0x22, 0x7D] : List Byte) := by
      rw [h]
      exact ⟨pre, w₁ ++ colon :: (w₂ ++ quote :: ([0x78] ++ quote :: rest)), by simp⟩
    exact absurd hname (by decide)

end Json
end IMUtility
