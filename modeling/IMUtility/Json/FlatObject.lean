import IMUtility.Json.Member

/-! # Finding a member of a flat object

A flat object is a JSON object all of whose values are strings, with no escapes; white space may
stand between any two tokens. Not every member of one is found: the search ends at the first place
of the key in the text, whatever that place belongs to. `findByKey_complete_iff` tells when a member
is found by the pieces into which the quotes cut the text (`Delimited.Hits`). -/

namespace IMUtility
namespace Json

open Memory
open Delimited

/-- The characters of a string without escapes. -/
def Plain (s : List Byte) : Prop := ∀ c ∈ s, c ≠ quote ∧ c ≠ 0x5C ∧ c ≠ 0

/-- A member, with the white space around its tokens. -/
structure Entry where
  name : List Byte
  value : List Byte
  beforeName : List Byte
  beforeColon : List Byte
  afterColon : List Byte
  afterValue : List Byte
  name_ne_nil : name ≠ []
  name_plain : Plain name
  value_plain : Plain value
  beforeName_blank : Blank beforeName
  beforeColon_blank : Blank beforeColon
  afterColon_blank : Blank afterColon
  afterValue_blank : Blank afterValue

/-- An object of members with distinct names; `inner` is the white space of an empty one. -/
structure FlatObject where
  entries : List Entry
  lead : List Byte
  inner : List Byte
  trail : List Byte
  lead_blank : Blank lead
  inner_blank : Blank inner
  trail_blank : Blank trail
  names_nodup : (entries.map Entry.name).Nodup

def Entry.text (e : Entry) : List Byte :=
  e.beforeName ++ quote :: (e.name ++ quote :: (e.beforeColon ++ colon ::
    (e.afterColon ++ quote :: (e.value ++ quote :: e.afterValue))))

namespace FlatObject

/-- The members, separated by commas. -/
def body (inner : List Byte) : List Entry → List Byte
  | [] => inner
  | [e] => e.text
  | e :: es => e.text ++ 0x2C :: body inner es

/-- The object, in braces. -/
def text (o : FlatObject) : List Byte :=
  o.lead ++ 0x7B :: (body o.inner o.entries ++ 0x7D :: o.trail)

/-! ## The text

All that the search needs of an object: a member stands somewhere in the text, with its quotes,
and there is no NUL. The structure of the whole is not used, because the search does not look at
it.
-/

theorem Plain.nul_notMem {s : List Byte} (h : Plain s) : (0 : Byte) ∉ s :=
  fun hz => (h 0 hz).2.2 rfl

theorem Plain.quote_notMem {s : List Byte} (h : Plain s) : quote ∉ s :=
  fun hq => (h quote hq).1 rfl

/-- A member stands in the text with the rest of the text around it. -/
theorem exists_body_eq (inner : List Byte) {es : List Entry} {e : Entry} (he : e ∈ es) :
    ∃ a b, body inner es = a ++ (e.text ++ b) := by
  induction es with
  | nil => exact absurd he List.not_mem_nil
  | cons e' es ih =>
      cases es with
      | nil =>
          obtain rfl := List.mem_singleton.mp he
          exact ⟨[], [], by simp [body]⟩
      | cons e'' es =>
          -- the first member, or one behind its comma
          rcases List.mem_cons.mp he with rfl | he
          · exact ⟨[], 0x2C :: body inner (e'' :: es), rfl⟩
          · obtain ⟨a, b, hab⟩ := ih he
            refine ⟨e'.text ++ 0x2C :: a, b, ?_⟩
            rw [body, hab]
            · simp
            · simp

theorem exists_text_eq (o : FlatObject) {e : Entry} (he : e ∈ o.entries) :
    ∃ a b, o.text = a ++ (e.text ++ b) := by
  obtain ⟨a, b, hab⟩ := exists_body_eq o.inner he
  refine ⟨o.lead ++ 0x7B :: a, b ++ 0x7D :: o.trail, ?_⟩
  rw [text, hab]
  simp

/-! The text has no NUL. -/

theorem Blank.nul_notMem {w : List Byte} (h : Blank w) : (0 : Byte) ∉ w := by
  intro hz
  have hcases := h 0 hz
  revert hcases
  decide

theorem nul_notMem_entry (e : Entry) : (0 : Byte) ∉ e.text := by
  have hquote : (0 : Byte) ≠ quote := by decide
  have hcolon : (0 : Byte) ≠ colon := by decide
  simp only [Entry.text, List.mem_append, List.mem_cons, not_or]
  exact ⟨Blank.nul_notMem e.beforeName_blank, hquote, Plain.nul_notMem e.name_plain, hquote,
    Blank.nul_notMem e.beforeColon_blank, hcolon, Blank.nul_notMem e.afterColon_blank, hquote,
    Plain.nul_notMem e.value_plain, hquote, Blank.nul_notMem e.afterValue_blank⟩

theorem nul_notMem_body {inner : List Byte} (hinner : Blank inner) (es : List Entry) :
    (0 : Byte) ∉ body inner es := by
  induction es with
  | nil => exact Blank.nul_notMem hinner
  | cons e es ih =>
      cases es with
      | nil => exact nul_notMem_entry e
      | cons e' es =>
          have hcomma : (0 : Byte) ≠ 0x2C := by decide
          rw [body, List.mem_append, List.mem_cons, not_or, not_or]
          · exact ⟨nul_notMem_entry e, hcomma, ih⟩
          · simp

theorem nul_notMem_text (o : FlatObject) : (0 : Byte) ∉ o.text := by
  have hopen : (0 : Byte) ≠ 0x7B := by decide
  have hclose : (0 : Byte) ≠ 0x7D := by decide
  simp only [text, List.mem_append, List.mem_cons, not_or]
  exact ⟨Blank.nul_notMem o.lead_blank, hopen, nul_notMem_body o.inner_blank o.entries, hclose,
    Blank.nul_notMem o.trail_blank⟩

/-! ## Finding a member

The pieces between the quotes are names, values and what is between them. A name of a member has a
piece of its own, but the search may stop earlier, in a piece that only contains it. Whether it
does is `Hits`, a condition that a reader can evaluate on the pieces.
-/

/-- The index does not wrap around for the name of a member. -/
theorem not_wraps (o : FlatObject) {e : Entry} (he : e ∈ o.entries) (v : List Byte) :
    ¬ Wraps o.text e.name v := by
  obtain ⟨a, b, hab⟩ := o.exists_text_eq he
  refine not_wraps_of_quote (a := a ++ (e.beforeName ++ [quote]))
    (b := e.beforeColon ++ colon :: e.afterColon)
    (c := e.value ++ quote :: (e.afterValue ++ b)) ?_
  rw [hab, Entry.text]
  simp

/-- What is found for the name of a member, by the pieces of the text. -/
theorem finds_iff_hits (o : FlatObject) {e : Entry} (he : e ∈ o.entries)
    (hlen : o.text.length < 2 ^ 32) {max_value_size : Nat} {v : List Byte}
    (hfits : v.length < max_value_size) :
    Finds o.text e.name max_value_size v ↔ Hits quote e.name v o.text := by
  rw [finds_iff hlen, exists_reads_iff_hits (Plain.quote_notMem e.name_plain)]
  constructor
  · rintro ⟨h | h, -⟩
    · exact h
    · exact absurd h (o.not_wraps he v)
  · exact fun h => ⟨Or.inl h, hfits⟩

/-- **When a member is found**: among the pieces into which the quotes cut the object, the first one
that contains the name has its first place at its end, and the next piece but one is the value. -/
theorem findByKey_complete_iff (o : FlatObject) (e : Entry) (he : e ∈ o.entries) (key : CString)
    (hkey : key.chars = e.name) (max_value_size : Nat) (hfits : e.value.length < max_value_size)
    (hlen : o.text.length < 2 ^ 32) (m : Memory Buffer Byte)
    (ht : Spells m.cell .buffer 0 o.text) :
    ((findByKey o.text.length key max_value_size m).1 = true ∧
        Spells (findByKey o.text.length key max_value_size m).2.cell .value 0 (e.value ++ [0])) ↔
      Hits quote e.name e.value o.text := by
  obtain ⟨htrue, hstored⟩ := wp_findByKey ht hlen key max_value_size
  rw [hkey] at htrue hstored
  rw [← o.finds_iff_hits he hlen hfits]
  constructor
  · rintro ⟨hreturn, hspells⟩
    obtain ⟨v, hv⟩ := htrue.mp hreturn
    have hnul : (0 : Byte) ∉ v := fun hz => o.nul_notMem_text (hv.subset hz)
    -- two strings stand in `value`, the one that is expected and the one that was found; their
    -- NULs make them equal
    have hspells' : Spells (findByKey o.text.length key max_value_size m).2.cell .value 0
        (v ++ [0]) := by
      rw [hstored v hv]
      exact spells_splice m.cell .value 0 (v ++ [0])
    rwa [spells_concat_inj (Plain.nul_notMem e.value_plain) hnul hspells hspells']
  · intro hv
    refine ⟨htrue.mpr ⟨e.value, hv⟩, ?_⟩
    rw [hstored e.value hv]
    exact spells_splice m.cell .value 0 (e.value ++ [0])

/-- A member of one-letter strings, without white space. -/
def letters (name value : Byte) (hname : name ≠ quote ∧ name ≠ 0x5C ∧ name ≠ 0)
    (hvalue : value ≠ quote ∧ value ≠ 0x5C ∧ value ≠ 0) : Entry where
  name := [name]
  value := [value]
  beforeName := []
  beforeColon := []
  afterColon := []
  afterValue := []
  name_ne_nil := List.cons_ne_nil _ _
  name_plain := by simpa [Plain] using hname
  value_plain := by simpa [Plain] using hvalue
  beforeName_blank := by simp [Blank]
  beforeColon_blank := by simp [Blank]
  afterColon_blank := by simp [Blank]
  afterValue_blank := by simp [Blank]

/-- `"b":"a","a":"x"` in braces. -/
def valueIsKey : FlatObject where
  entries := [letters 0x62 0x61 (by decide) (by decide), letters 0x61 0x78 (by decide) (by decide)]
  lead := []
  inner := []
  trail := []
  lead_blank := by simp [Blank]
  inner_blank := by simp [Blank]
  trail_blank := by simp [Blank]
  names_nodup := by decide

/-- The first member of that object is found. -/
theorem findByKey_complete_first :
    (findByKey 17 ⟨[0x62], by decide⟩ 2 (holding .buffer valueIsKey.text 0)).1 = true ∧
      Spells (findByKey 17 ⟨[0x62], by decide⟩ 2 (holding .buffer valueIsKey.text 0)).2.cell .value 0
        ([0x61] ++ [0]) :=
  (findByKey_complete_iff valueIsKey (letters 0x62 0x61 (by decide) (by decide))
    List.mem_cons_self ⟨[0x62], by decide⟩ rfl 2 (by decide) (by decide) _
    (spells_holding _ _ _)).mpr (by decide)

/-- The second is not: the value of the first is equal to its name, and what is stored for it is
`a`, the name itself, and not `x`. -/
theorem findByKey_value_is_key :
    letters 0x61 0x78 (by decide) (by decide) ∈ valueIsKey.entries ∧
      Spells (findByKey valueIsKey.text.length ⟨[0x61], by decide⟩ 2
        (holding .buffer valueIsKey.text 0)).2.cell .value 0 [0x61, 0] ∧
      ¬ Spells (findByKey valueIsKey.text.length ⟨[0x61], by decide⟩ 2
        (holding .buffer valueIsKey.text 0)).2.cell .value 0 ([0x78] ++ [0]) := by
  refine ⟨by simp [valueIsKey], ?_, ?_⟩
  · decide +kernel
  · decide +kernel

end FlatObject

end Json
end IMUtility
