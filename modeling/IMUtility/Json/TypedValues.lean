import IMUtility.Base64.Pieces
import IMUtility.Json.RoundTrip
import IMUtility.Utils.Numerals

/-! # Numbers and bytes as values

The members of a built object are strings, and the other modules turn numbers and bytes into
strings and back. The texts that they make consist of letters, digits, `+`, `/` and `=`, so a name
with any other character is in none of them, and the search cannot stop at a value. Then every
member gives back what was put into it (`member_survives`), by way of the buffers of the encoder,
of the builder, of the search and of the decoder. -/

namespace IMUtility
namespace Json

open Memory
open Refinement (run)

/-- What a member stands for. -/
inductive Value
  | number (n : BitVec 32)
  | bytes (d : List Byte)

namespace Value

/-- The string is made from the value: a number that was printed, or what a successful
`Base64_encode` has left. -/
def Writes (p : Platform) : Value → CString → Prop
  | .number n, s => s.strlen ≤ 10 ∧ s.chars = Utils.numeral s.strlen n.toNat
  | .bytes d, s => Base64.Encodes p d s.chars

/-- The value is got from the first `len` characters at `c`: by `Utils_StringToUint32`, or by
`Base64_decode`, which takes three bytes or more. -/
def ReadFrom (p : Platform) (c : Nat → Byte) (len : Nat) : Value → Prop
  | .number n => ∀ str : List Byte, len ≤ str.length → (∀ i (h : i < str.length), str[i] = c i) →
    (Utils.stringToUint32 str (BitVec.ofNat 8 len)).success = true ∧
      (Utils.stringToUint32 str (BitVec.ofNat 8 len)).integer = n
  | .bytes d => ∀ (max_out_len : Nat) (m : Memory Base64.Buffer Byte), m.cell .input = c →
    ((Base64.decode p len max_out_len m).1 = 0 ↔ 3 ≤ d.length ∧ d.length ≤ max_out_len) ∧
      ((Base64.decode p len max_out_len m).1 = 0 →
        Spells (Base64.decode p len max_out_len m).2.cell .output 0 d)

end Value

variable {p : Platform} {value : Value} {s : CString} {c : Nat → Byte}
  {members : List (CString × CString)} {e : CString × CString}

/-! ## The texts

A digit is letter `52 + d` of the alphabet, so numerals and encoded bytes have their characters in
one set.
-/

/-- The digits are letters of the alphabet. -/
theorem inText_of_mem_numeral {width n : Nat} {x : Byte} (hx : x ∈ Utils.numeral width n) :
    Base64.InText x := by
  have hdigit : ∀ d < 10, Utils.digitChar d = Base64.symbol (52 + d) := by decide
  obtain ⟨d, hd, rfl⟩ := List.mem_map.mp hx
  have hlt := Utils.lt_of_mem_digits (List.mem_reverse.mp hd)
  exact Or.inr ⟨52 + d, by omega, hdigit d hlt⟩

theorem inText_of_writes (h : value.Writes p s) : ∀ x ∈ s.chars, Base64.InText x := by
  intro x hx
  cases value with
  | number n =>
      obtain ⟨-, hchars⟩ := h
      rw [hchars] at hx
      exact inText_of_mem_numeral hx
  | bytes d =>
      rw [(Base64.encodes_iff.mp h).1] at hx
      exact Base64.inText_of_mem_text hx

/-! ## Reading a text

The reader gets a pointer to the characters and their number, as the search leaves them. A number
is read back whatever follows it in the buffer; bytes are decoded from an input of exactly that
length, and the decoder asks for three bytes or more.
-/

/-- **The value is read from its own text**, whatever stands behind it. -/
theorem readFrom_of_writes (h : value.Writes p s)
    (hc : ∀ i (hi : i < s.chars.length), c i = s.chars[i]) : value.ReadFrom p c s.strlen := by
  cases value with
  | number n =>
      obtain ⟨hten, hchars⟩ := h
      intro str hle hstr
      have hlen : (BitVec.ofNat 8 s.strlen).toNat = s.strlen := by
        rw [BitVec.toNat_ofNat]
        omega
      -- the reader looks at the first `len` characters only
      have htake : str.take s.strlen = s.chars := by
        apply List.ext_getElem
        · rw [List.length_take, Nat.min_eq_left hle]
          rfl
        · intro i hi hi'
          rw [List.getElem_take, hstr, hc i hi']
      apply Utils.stringToUint32_numeral
      · rw [hlen]
        exact hle
      · rw [hlen]
        exact hten
      · rw [hlen, htake]
        exact hchars
  | bytes d =>
      obtain ⟨hchars, hrange⟩ := Base64.encodes_iff.mp h
      rw [← hchars] at hrange
      intro max_out_len m hm
      have hinput : Spells m.cell .input 0 s.chars := by
        intro i hi
        rw [Nat.zero_add, hm]
        exact hc i hi
      have hstrip : Base64.text d = s.chars ++ List.replicate 0 Base64.padding := by
        rw [List.replicate_zero, List.append_nil, hchars]
      obtain ⟨hbytes, hquartets⟩ := Base64.decodedBytes_text hstrip hinput
      obtain ⟨hiff, hdone⟩ := @Base64.wp_decode p s.strlen max_out_len m hrange
      rw [CString.strlen, hbytes, hquartets] at hiff
      rw [CString.strlen, hbytes] at hdone
      rw [CString.strlen]
      constructor
      · rw [hiff, Nat.div_ne_zero_iff]
        omega
      · intro hstatus
        rw [hdone hstatus]
        exact spells_splice m.cell .output 0 d

/-! ## Finding the member

A value cannot contain a name that has a character outside the set, and an earlier name does not
by assumption. So the first string that contains the name is the name itself.
-/

/-- Names that the search can tell from each other and from the values. -/
structure Named (members : List (CString × CString)) : Prop where
  quoteless : ∀ e ∈ members, quote ∉ e.1.chars
  notSeparator : ∀ e ∈ members, NotSeparator e.1.chars
  marked : ∀ e ∈ members, ∃ x ∈ e.1.chars, ¬ Base64.InText x
  /-- No name is a part of one in front of it. -/
  distinct : members.Pairwise fun e f => ¬ f.1.chars <:+: e.1.chars

theorem Named.quoteless_all (h : Named members)
    (hvalues : ∀ e ∈ members, ∀ x ∈ e.2.chars, Base64.InText x) : Quoteless members := by
  have hquote : ¬ Base64.InText quote := by decide +kernel
  intro e he
  exact ⟨h.quoteless e he, fun hmem => hquote (hvalues e he quote hmem)⟩

/-- A name with a character that no value has is found. -/
theorem Named.found_eq (h : Named members)
    (hvalues : ∀ e ∈ members, ∀ x ∈ e.2.chars, Base64.InText x) (he : e ∈ members) :
    found e.1.chars members = some e.2.chars := by
  obtain ⟨front, back, rfl⟩ := List.append_of_mem he
  apply found_of_fresh rfl
  intro f hf
  have hmem : f ∈ front ++ e :: back := List.mem_append_left _ hf
  refine ⟨(List.pairwise_append.mp h.distinct).2.2 f hf e List.mem_cons_self, ?_⟩
  intro hpart
  obtain ⟨x, hx, hmark⟩ := h.marked e he
  exact hmark (hvalues f hmem x (hpart.subset hx))

/-- **Every value survives.** If all accepted values were made from numbers and bytes, then the
search of the closed object finds each of them by its name, and what it leaves is read as what was
put in, whatever members were refused in between. -/
theorem member_survives (p : Platform) (buffer buffer' : Storage) (start_size end_size : Nat)
    (calls : List (Nat × CString × CString)) (replies : List Bool)
    (hrun : run (step p) buffer (clientCalls start_size calls end_size)
      = some (true :: replies ++ [true], buffer'))
    (hnames : Named (acceptedMembers calls replies))
    (hvalues : ∀ e ∈ acceptedMembers calls replies, ∃ value : Value, value.Writes p e.2)
    (hlen : buffer'.text.length ≤ 2 ^ 32 - 2) (m : Memory Buffer Byte)
    (hm : Spells m.cell .buffer 0 buffer'.bytes) :
    ∀ e ∈ acceptedMembers calls replies, ∀ value : Value, value.Writes p e.2 →
      ∀ max_value_size, e.2.strlen < max_value_size →
        (findByKey buffer'.text.length e.1 max_value_size m).1 = true ∧
          value.ReadFrom p ((findByKey buffer'.text.length e.1 max_value_size m).2.cell .value)
            e.2.strlen := by
  intro e he value hvalue max_value_size hfits
  -- every value that is written is spelled with characters of a Base64 text
  have hinText : ∀ f ∈ acceptedMembers calls replies, ∀ x ∈ f.2.chars, Base64.InText x := by
    intro f hf
    obtain ⟨value, hvalue⟩ := hvalues f hf
    exact inText_of_writes hvalue
  have hfound := hnames.found_eq hinText he
  obtain ⟨tail, htail, hholds⟩ := holds_of_clientCalls hrun
  rw [hholds.text_eq] at hlen ⊢
  obtain ⟨htrue, hstored⟩ := stored_of_found (hnames.quoteless_all hinText) htail
    (hnames.quoteless e he) (hnames.notSeparator e he) hholds hm hfound hfits (Nat.le_refl _)
    (Nat.le_of_lt hholds.length_lt) hlen
  refine ⟨htrue, readFrom_of_writes hvalue ?_⟩
  intro i hi
  have hspells := (spells_append.mp hstored).1 i hi
  rwa [Nat.zero_add] at hspells

/-- `{"_":"AQID",}`: three bytes, and a number that was refused. -/
theorem member_survives_bytes :
    let name : CString := .single 0x5F (by decide)
    let name' : CString := .single 0x2D (by decide)
    let calls : List (Nat × CString × CString) :=
      [(16, name, ⟨[0x41, 0x51, 0x49, 0x44], by decide⟩), (16, name', ⟨[0x34, 0x32], by decide⟩)]
    ∃ buffer', run (step .size32) ⟨0, List.replicate 16 0, [], []⟩ (clientCalls 16 calls 16)
        = some ([true, true, false, true], buffer') ∧
      (findByKey buffer'.text.length name 5 (Memory.holding .buffer buffer'.bytes 0)).1 = true ∧
      (Value.bytes [1, 2, 3]).ReadFrom .size32 ((findByKey buffer'.text.length name 5
        (Memory.holding .buffer buffer'.bytes 0)).2.cell .value) 4 := by
  intro name name' calls
  obtain ⟨buffer', hrun, htext⟩ : ∃ buffer',
      run (step .size32) ⟨0, List.replicate 16 0, [], []⟩ (clientCalls 16 calls 16)
        = some ([true, true, false, true], buffer') ∧ buffer'.text.length = 13 :=
    ⟨_, rfl, by decide⟩
  have hnames : Named (acceptedMembers calls [true, false]) :=
    ⟨by decide, by decide, by decide +kernel, by decide⟩
  have hbytes : (Value.bytes [1, 2, 3]).Writes .size32 ⟨[0x41, 0x51, 0x49, 0x44], by decide⟩ :=
    Base64.encodes_iff.mpr ⟨by decide, by decide⟩
  have hvalues : ∀ e ∈ acceptedMembers calls [true, false],
      ∃ value : Value, value.Writes .size32 e.2 := by
    intro e he
    obtain rfl := List.mem_singleton.mp he
    exact ⟨_, hbytes⟩
  exact ⟨buffer', hrun, member_survives .size32 _ buffer' 16 16 calls [true, false] hrun hnames
    hvalues (by omega) (Memory.holding .buffer buffer'.bytes 0) (Memory.spells_holding _ _ _)
    (name, ⟨[0x41, 0x51, 0x49, 0x44], by decide⟩) List.mem_cons_self (.bytes [1, 2, 3]) hbytes 5
    (by decide)⟩

end Json
end IMUtility
