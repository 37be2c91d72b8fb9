import IMUtility.Json.BuilderRuns
import IMUtility.Json.Reading

/-! # Finding in what was built

The builder escapes nothing. As long as the strings have no quotes, the quotes of a built object
stand where the builder put them, so its members can be told from its text (`accepted_unique`), and
what `Json_findByKey` finds in it can be told from its members (`found`): the search stops at the
first string that contains the key, be it a name or a value. Members that were refused do not
disturb it (`findByKey_accepted`), although a refused member can leave a comma in front of the
closing brace: the comma is no string. -/

namespace IMUtility
namespace Json

open Memory
open Delimited
open Refinement (run exists_of_run_cons exists_of_run_append)

/-- No string of a member has a quote. -/
def Quoteless (members : List (CString × CString)) : Prop :=
  ∀ e ∈ members, quote ∉ e.1.chars ∧ quote ∉ e.2.chars

/-- What the search for `k` finds in a built object. -/
def found (k : List Byte) : List (CString × CString) → Option (List Byte)
  | [] => none
  | (name, value) :: members =>
    if k <:+: name.chars then
      if EndsFirst k name.chars then some value.chars else none
    else if k <:+: value.chars then
      -- a value that ends with the key is taken for a name, and the next name for its value
      if EndsFirst k value.chars then members.head?.map fun e => e.1.chars else none
    else found k members

instance (members : List (CString × CString)) : Decidable (Quoteless members) :=
  inferInstanceAs (Decidable (∀ e ∈ members, quote ∉ e.1.chars ∧ quote ∉ e.2.chars))

theorem Quoteless.tail {e : CString × CString} {members : List (CString × CString)}
    (h : Quoteless (e :: members)) : Quoteless members :=
  fun f hf => h f (List.mem_cons_of_mem e hf)

/-- A key that is not one of the characters between the strings. -/
def NotSeparator (k : List Byte) : Prop :=
  k ≠ [] ∧ k ≠ [openBrace] ∧ k ≠ [colon] ∧ k ≠ [comma]

instance (k : List Byte) : Decidable (NotSeparator k) := inferInstanceAs (Decidable (_ ∧ _))

/-- A member is found if its name is in no string in front of it. -/
theorem found_of_fresh {k : List Byte} {front back : List (CString × CString)}
    {e : CString × CString} (hname : e.1.chars = k)
    (hfresh : ∀ f ∈ front, ¬ k <:+: f.1.chars ∧ ¬ k <:+: f.2.chars) :
    found k (front ++ e :: back) = some e.2.chars := by
  induction front with
  | nil =>
      rw [List.nil_append, found, hname, if_pos (List.infix_refl k), if_pos (endsFirst_self k)]
  | cons f front ih =>
      obtain ⟨hkey, hvalue⟩ := hfresh f List.mem_cons_self
      rw [List.cons_append, found, if_neg hkey, if_neg hvalue]
      exact ih fun g hg => hfresh g (List.mem_cons_of_mem f hg)

/-! ## The text, by its quotes

`Delimited` reads a text piece by piece, each piece in front of a quote. A built object is brought
to that form: behind the opening brace, name, colon, value and comma follow each other as pieces.
-/

/-- A member without its first quote, in front of `t`. -/
def inside (e : CString × CString) (t : List Byte) : List Byte :=
  e.1.chars ++ quote :: ([colon] ++ quote :: (e.2.chars ++ quote :: t))

/-- What follows a member, with `tail` behind the last one. -/
def behind (tail : List Byte) : List (CString × CString) → List Byte
  | [] => tail
  | e :: members => [comma] ++ quote :: inside e (behind tail members)

theorem intercalate_members (tail : List Byte) (e : CString × CString)
    (members : List (CString × CString)) :
    [comma].intercalate ((e :: members).map fun m => member m.1 m.2) ++ tail
      = quote :: inside e (behind tail members) := by
  induction members generalizing e with
  | nil => simp [List.intercalate_singleton, member, inside, behind]
  | cons e' members ih =>
      have hrest := ih e'
      rw [List.map_cons] at hrest
      rw [List.map_cons, List.map_cons, List.intercalate_cons_cons, List.append_assoc, hrest,
        behind]
      simp [member, inside]

theorem document_cons (tail : List Byte) (e : CString × CString)
    (members : List (CString × CString)) :
    document (e :: members) ++ tail = [openBrace] ++ quote :: inside e (behind tail members) := by
  rw [document, List.cons_append, intercalate_members]
  rfl

/-! ## The members are determined

Two texts that agree are cut at the same quotes. The pieces give the names and the values one
after the other, and a text without a further quote has no further member.
-/

theorem inside_inj {e e' : CString × CString} {t t' : List Byte}
    (he : quote ∉ e.1.chars ∧ quote ∉ e.2.chars) (he' : quote ∉ e'.1.chars ∧ quote ∉ e'.2.chars)
    (h : inside e t = inside e' t') : e = e' ∧ t = t' := by
  obtain ⟨hname, h⟩ := append_cons_inj he.1 he'.1 h
  obtain ⟨-, h⟩ := append_cons_inj (by decide) (by decide) h
  obtain ⟨hvalue, h⟩ := append_cons_inj he.2 he'.2 h
  refine ⟨?_, h⟩
  obtain ⟨⟨name, _⟩, ⟨value, _⟩⟩ := e
  obtain ⟨⟨name', _⟩, ⟨value', _⟩⟩ := e'
  cases hname
  cases hvalue
  rfl

theorem quote_mem_behind (tail : List Byte) (e : CString × CString)
    (members : List (CString × CString)) : quote ∈ behind tail (e :: members) := by
  rw [behind]
  simp

/-- The quotes tell where the members end. By induction on them. -/
theorem behind_inj {tail tail' : List Byte} (htail : quote ∉ tail) (htail' : quote ∉ tail')
    {members members' : List (CString × CString)} (h : Quoteless members)
    (h' : Quoteless members') (heq : behind tail members = behind tail' members') :
    members = members' := by
  induction members generalizing members' with
  | nil =>
      cases members' with
      | nil => rfl
      | cons e' members' =>
          have hmem := quote_mem_behind tail' e' members'
          rw [← heq] at hmem
          exact absurd hmem htail
  | cons e members ih =>
      cases members' with
      | nil =>
          have hmem := quote_mem_behind tail e members
          rw [heq] at hmem
          exact absurd hmem htail'
      | cons e' members' =>
          -- past the comma, the two members, and then the rest
          obtain ⟨-, heq⟩ := append_cons_inj (by decide) (by decide) heq
          obtain ⟨rfl, hrest⟩ :=
            inside_inj (h e List.mem_cons_self) (h' e' List.mem_cons_self) heq
          rw [ih h.tail h'.tail hrest]

/-- A document is its opening brace and what would follow a member in front of it, without the
first comma. -/
theorem document_inj {tail tail' : List Byte} (htail : quote ∉ tail) (htail' : quote ∉ tail')
    {members members' : List (CString × CString)} (h : Quoteless members)
    (h' : Quoteless members') (heq : document members ++ tail = document members' ++ tail') :
    members = members' := by
  have hnone : ∀ t, quote ∉ t → quote ∉ document [] ++ t := by
    intro t ht
    rw [List.mem_append, not_or]
    exact ⟨by decide, ht⟩
  -- a document with a member has a quote, one without has none
  have hsome : ∀ t e ms, quote ∈ document (e :: ms) ++ t := by
    intro t e ms
    rw [document_cons]
    simp
  cases members with
  | nil =>
      cases members' with
      | nil => rfl
      | cons e' members' => exact absurd (heq ▸ hsome tail' e' members') (hnone tail htail)
  | cons e members =>
      cases members' with
      | nil => exact absurd (heq ▸ hsome tail e members) (hnone tail' htail')
      | cons e' members' =>
          rw [document_cons, document_cons] at heq
          obtain ⟨-, heq⟩ := append_cons_inj (by decide) (by decide) heq
          obtain ⟨rfl, hrest⟩ :=
            inside_inj (h e List.mem_cons_self) (h' e' List.mem_cons_self) heq
          rw [behind_inj htail htail' h.tail h'.tail hrest]

/-! ## Reading from a document

The separators are pieces of one character, and a key that is none of them is not found in one. So
the search passes from string to string, and stops at the first that contains the key, as `found`
does.
-/

section Found

variable {k v : List Byte}

/-- Passing over the character between two strings. -/
theorem exists_reads_of_separator (hk : quote ∉ k) {c : Byte} (hne : k ≠ []) (hc : k ≠ [c])
    {y : List Byte} :
    (∃ pre s rest, Reads quote ([c] ++ quote :: y) k pre s v rest) ↔
      ∃ pre s rest, Reads quote y k pre s v rest := by
  apply exists_reads_cons_iff hk
  intro hin
  rcases (List.infix_singleton_iff k c).mp hin with hnil | heq
  · exact hne hnil
  · exact hc heq

variable {tail : List Byte}

/-- Without a quote there is nothing to read. -/
theorem not_reads_of_quote_notMem {t pre s rest : List Byte} (ht : quote ∉ t) :
    ¬ Reads quote t k pre s v rest := by
  intro hreads
  apply ht
  rw [hreads.eq]
  simp

/-- The second piece of what follows a member is the name of the next one. -/
theorem exists_eq_behind (htail : quote ∉ tail) {members : List (CString × CString)}
    (h : Quoteless members) :
    (∃ s rest, behind tail members = s ++ quote :: (v ++ quote :: rest) ∧ quote ∉ s ∧ quote ∉ v) ↔
      (members.head?.map fun e => e.1.chars) = some v := by
  cases members with
  | nil =>
      constructor
      · rintro ⟨s, rest, heq, -⟩
        have hmem : quote ∈ behind tail [] := by
          rw [heq]
          simp
        exact absurd hmem htail
      · intro hnone
        cases hnone
  | cons e members =>
      obtain ⟨hname, -⟩ := h e List.mem_cons_self
      constructor
      · rintro ⟨s, rest, heq, hs, hv⟩
        -- between two members there is a comma, and no quote in a name
        obtain ⟨-, heq⟩ := append_cons_inj (by decide) hs heq
        rw [List.head?_cons, Option.map_some, (append_cons_inj hname hv heq).1]
      · intro heq
        cases heq
        exact ⟨[comma], _, rfl, by decide, hname⟩

/-- The first string with the key decides. By induction on the members. -/
theorem exists_reads_behind (htail : quote ∉ tail) (hk : quote ∉ k) (hsep : NotSeparator k)
    {members : List (CString × CString)} (h : Quoteless members) :
    (∃ pre s rest, Reads quote (behind tail members) k pre s v rest) ↔
      found k members = some v := by
  obtain ⟨hne, -, hcolon, hcomma⟩ := hsep
  induction members with
  | nil =>
      constructor
      · rintro ⟨pre, s, rest, hreads⟩
        exact absurd hreads (not_reads_of_quote_notMem htail)
      · intro hnone
        cases hnone
  | cons e members ih =>
      obtain ⟨hname, hvalue⟩ := h e List.mem_cons_self
      rw [behind, exists_reads_of_separator hk hne hcomma, inside, found]
      -- the name contains the key: it decides, whether it ends with the key or not
      by_cases hinName : k <:+: e.1.chars
      · rw [if_pos hinName, exists_reads_iff_of_infix hk hname hinName]
        split
        case isTrue hends =>
          constructor
          · rintro ⟨-, s, rest, heq, hs, hv⟩
            obtain ⟨-, heq⟩ := append_cons_inj (by decide) hs heq
            rw [(append_cons_inj hvalue hv heq).1]
          · intro heq
            cases heq
            exact ⟨hends, [colon], behind tail members, rfl, by decide, hvalue⟩
        case isFalse hends =>
          exact ⟨fun hreads => absurd hreads.1 hends, fun hnone => by cases hnone⟩
      · rw [if_neg hinName, exists_reads_cons_iff hk hinName,
          exists_reads_of_separator hk hne hcolon]
        -- the name does not, but the value may, and the search does not tell them apart
        by_cases hinValue : k <:+: e.2.chars
        · rw [if_pos hinValue, exists_reads_iff_of_infix hk hvalue hinValue]
          split
          case isTrue hends =>
            rw [← exists_eq_behind htail h.tail]
            exact ⟨fun hreads => hreads.2, fun hreads => ⟨hends, hreads⟩⟩
          case isFalse hends =>
            exact ⟨fun hreads => absurd hreads.1 hends, fun hnone => by cases hnone⟩
        · rw [if_neg hinValue, exists_reads_cons_iff hk hinValue]
          exact ih h.tail

theorem exists_reads_document (htail : quote ∉ tail) (hk : quote ∉ k) (hsep : NotSeparator k)
    {members : List (CString × CString)} (h : Quoteless members) :
    (∃ pre s rest, Reads quote (document members ++ tail) k pre s v rest) ↔
      found k members = some v := by
  cases members with
  | nil =>
      constructor
      · rintro ⟨pre, s, rest, hreads⟩
        have hnone : quote ∉ document [] ++ tail := by
          rw [List.mem_append, not_or]
          exact ⟨by decide, htail⟩
        exact absurd hreads (not_reads_of_quote_notMem hnone)
      · intro hnone
        cases hnone
  | cons e members =>
      rw [← exists_reads_behind htail hk hsep h, document_cons, behind,
        exists_reads_of_separator hk hsep.1 hsep.2.1,
        exists_reads_of_separator hk hsep.1 hsep.2.2.2]

end Found

/-! ## What a run leaves

A refused member may leave a comma behind the document, which the next member then uses instead of
writing its own. So the text after any calls is the document of the accepted members and, perhaps,
one comma that is pending.
-/

section Runs

variable {p : Platform} {buffer buffer' : Storage} {members : List (CString × CString)}

/-- The calls of a client, each with a size of its own. -/
def clientCalls (start_size : Nat) (calls : List (Nat × CString × CString)) (end_size : Nat) :
    List Call :=
  .startString start_size :: addCalls calls ++ [.endString end_size]

/-- What a refused member can leave behind the document. -/
def Pending (members : List (CString × CString)) (pending : List Byte) : Prop :=
  pending = [] ∨ pending = if members = [] then [] else [comma]

/-- The comma is written once, by whichever call comes first. -/
theorem pending_append_separator {pending : List Byte} (h : Pending members pending)
    (buffer : Storage) : pending ++ separator buffer (document members ++ pending)
      = if members = [] then [] else [comma] := by
  rcases h with rfl | rfl
  · rw [List.nil_append, List.append_nil, separator_document]
  · by_cases hnil : members = []
    · rw [if_pos hnil, List.nil_append, List.append_nil, separator_document, if_pos hnil]
    · have hlast : (document members ++ [comma]).getLast? = some comma := List.getLast?_concat ..
      have hne : comma ≠ quote := by decide
      rw [if_neg hnil, separator, Storage.last, hlast, Option.getD_some, if_neg hne,
        List.append_nil]

/-- After any calls the document has the accepted members. By induction on the calls. -/
theorem holds_of_addCalls (calls : List (Nat × CString × CString)) {pending : List Byte}
    (hpending : Pending members pending) (h : Holds buffer (document members ++ pending))
    {replies : List Bool} (hrun : run (step p) buffer (addCalls calls) = some (replies, buffer')) :
    ∃ pending', Pending (members ++ acceptedMembers calls replies) pending' ∧
      Holds buffer' (document (members ++ acceptedMembers calls replies) ++ pending') := by
  induction calls generalizing members buffer pending replies with
  | nil =>
      cases hrun
      rw [acceptedMembers, List.zip_nil_left, List.filterMap_nil, List.append_nil]
      exact ⟨pending, hpending, h⟩
  | cons c calls ih =>
      obtain ⟨size, key, value⟩ := c
      obtain ⟨status, b, replies', hcall, hrest, rfl⟩ := exists_of_run_cons hrun
      obtain ⟨hcheck, hextends⟩ := h.of_addData hcall
      have hholds := hextends.holds
      rw [added, ← hcheck, List.append_assoc, ← List.append_assoc pending,
        pending_append_separator hpending] at hholds
      cases status with
      -- accepted: nothing is pending behind a member
      | true =>
          rw [if_pos rfl, ← document_concat members (key, value)] at hholds
          rw [← List.append_nil (document _)] at hholds
          obtain ⟨pending', hpending', h'⟩ := ih (Or.inl rfl) hholds hrest
          rw [List.append_assoc] at hpending' h'
          exact ⟨pending', hpending', h'⟩
      -- refused: the comma stays, once there is a member
      | false =>
          rw [if_neg Bool.false_ne_true, List.append_nil] at hholds
          exact ih (Or.inr rfl) hholds hrest

/-- After a run that closes the object the text has the accepted members, and no other quotes. -/
theorem holds_of_clientCalls {start_size end_size : Nat} {calls : List (Nat × CString × CString)}
    {replies : List Bool} (hrun : run (step p) buffer (clientCalls start_size calls end_size)
      = some (true :: replies ++ [true], buffer')) :
    ∃ tail, quote ∉ tail ∧ Holds buffer' (document (acceptedMembers calls replies) ++ tail) := by
  obtain ⟨rs, b₂, rs', hfirst, hlast, hreplies⟩ := exists_of_run_append hrun
  obtain ⟨r₁, b₁, rs₁, hstart, hadds, rfl⟩ := exists_of_run_cons hfirst
  obtain ⟨r₃, b₃, rs₃, hend, hnil, rfl⟩ := exists_of_run_cons hlast
  cases hnil
  obtain ⟨hreplies, hclosed⟩ := List.append_inj' hreplies rfl
  obtain ⟨rfl, rfl⟩ := List.cons.inj hreplies
  obtain rfl := (List.cons.inj hclosed).1
  have h₁ : Holds b₁ (document [] ++ []) := (of_startString hstart).2.holds
  obtain ⟨pending, hpending, h₂⟩ := holds_of_addCalls calls (Or.inl rfl) h₁ hadds
  obtain ⟨hcheck, hextends⟩ := h₂.of_endString hend
  have hholds := hextends.holds
  rw [closing, if_pos (of_decide_eq_true hcheck.symm), List.append_assoc] at hholds
  refine ⟨pending ++ [closeBrace], ?_, hholds⟩
  rw [List.mem_append, not_or]
  refine ⟨?_, by decide⟩
  -- a comma may be pending, from a member that was refused
  rcases hpending with rfl | rfl
  · exact List.not_mem_nil
  · split <;> decide

end Runs

/-- **The text determines the members.** Two clients that end with the same text, in whatever
buffers, have had the same members accepted, as long as no accepted string has a quote. -/
theorem accepted_unique (p p' : Platform) (buffer₁ buffer₁' buffer₂ buffer₂' : Storage)
    (start₁ end₁ start₂ end₂ : Nat) (calls₁ calls₂ : List (Nat × CString × CString))
    (replies₁ replies₂ : List Bool)
    (hrun₁ : run (step p) buffer₁ (clientCalls start₁ calls₁ end₁)
      = some (true :: replies₁ ++ [true], buffer₁'))
    (hrun₂ : run (step p') buffer₂ (clientCalls start₂ calls₂ end₂)
      = some (true :: replies₂ ++ [true], buffer₂'))
    (h₁ : Quoteless (acceptedMembers calls₁ replies₁))
    (h₂ : Quoteless (acceptedMembers calls₂ replies₂)) (htext : buffer₁'.text = buffer₂'.text) :
    acceptedMembers calls₁ replies₁ = acceptedMembers calls₂ replies₂ := by
  obtain ⟨tail₁, htail₁, hholds₁⟩ := holds_of_clientCalls hrun₁
  obtain ⟨tail₂, htail₂, hholds₂⟩ := holds_of_clientCalls hrun₂
  rw [hholds₁.text_eq, hholds₂.text_eq] at htext
  exact document_inj htail₁ htail₂ h₁ h₂ htext

/-- `{"a":"a"}`, in one call, and after a call that was refused for its size. -/
theorem accepted_unique_again :
    let a : CString := .single 0x61 (by decide)
    acceptedMembers [(10, a, a)] [true] = acceptedMembers [(3, a, a), (12, a, a)] [false, true] := by
  intro a
  obtain ⟨buffer₁', hrun₁, htext₁⟩ : ∃ buffer', run (step .size64)
      ⟨0, List.replicate 10 0xAA, [], []⟩ (clientCalls 10 [(10, a, a)] 10)
        = some ([true, true, true], buffer') ∧ buffer'.text
          = [0x7B, 0x22, 0x61, 0x22, 0x3A, 0x22, 0x61, 0x22, 0x7D] := ⟨_, rfl, by decide⟩
  obtain ⟨buffer₂', hrun₂, htext₂⟩ : ∃ buffer', run (step .size32)
      ⟨0, List.replicate 12 0, [], []⟩ (clientCalls 12 [(3, a, a), (12, a, a)] 12)
        = some ([true, false, true, true], buffer') ∧ buffer'.text
          = [0x7B, 0x22, 0x61, 0x22, 0x3A, 0x22, 0x61, 0x22, 0x7D] := ⟨_, rfl, by decide⟩
  exact accepted_unique .size64 .size32 _ buffer₁' _ buffer₂' 10 10 12 12 _ _ [true] [false, true]
    hrun₁ hrun₂ (by decide) (by decide) (htext₁.trans htext₂.symm)

/-! ## Finding in what a run leaves

The object that the builder leaves is the buffer of the search. A caller may tell the search the
length of the text or any greater size that is in the buffer: what is found in the text is found
in front of whatever follows it.
-/

variable {k v : List Byte} {t : List Byte} {max_value_size : Nat}

theorem finds_iff_reads (hlen : t.length ≤ 2 ^ 32 - 2) : Finds t k max_value_size v ↔
    (∃ pre s rest, Reads quote t k pre s v rest) ∧ v.length < max_value_size := by
  have hwraps : ¬ Wraps t k v := by
    intro h
    have hwrap := h.length_eq
    omega
  rw [finds_iff (by omega), or_iff_left hwraps]

section Search

variable {members : List (CString × CString)} {tail : List Byte} {key : CString}
  {buffer' : Storage} {m : Memory Buffer Byte}
  (hmembers : Quoteless members) (htail : quote ∉ tail) (hkey : quote ∉ key.chars)
  (hsep : NotSeparator key.chars) (hholds : Holds buffer' (document members ++ tail))
  (hm : Spells m.cell .buffer 0 buffer'.bytes)
include hmembers htail hkey hsep hholds hm

/-- A search of the text returns `true` exactly if something that fits is found. -/
theorem findByKey_iff_found (hlen : (document members ++ tail).length ≤ 2 ^ 32 - 2) :
    (findByKey (document members ++ tail).length key max_value_size m).1 = true ↔
      ∃ v, found key.chars members = some v ∧ v.length < max_value_size := by
  obtain ⟨rest, hbytes⟩ := hholds.bytes_eq
  have ht : Spells m.cell .buffer 0 (document members ++ tail) := by
    rw [hbytes] at hm
    exact (spells_append.mp hm).1
  obtain ⟨htrue, -⟩ := wp_findByKey ht (by omega) key max_value_size
  rw [htrue]
  apply exists_congr
  intro v
  rw [finds_iff_reads hlen, exists_reads_document htail hkey hsep hmembers]

/-- A string that is found is stored, also when the search is told a larger size. -/
theorem stored_of_found (hfound : found key.chars members = some v)
    (hfits : v.length < max_value_size) {n : Nat} (hle : (document members ++ tail).length ≤ n)
    (hn : n ≤ buffer'.bytes.length) (hlimit : n ≤ 2 ^ 32 - 2) :
    (findByKey n key max_value_size m).1 = true ∧
      Spells (findByKey n key max_value_size m).2.cell .value 0 (v ++ [0]) := by
  obtain ⟨rest, hbytes⟩ := hholds.bytes_eq
  -- told a size beyond the text, the search also sees its NUL and what follows
  have htext : buffer'.bytes.take n = (document members ++ tail)
      ++ (0 :: rest).take (n - (document members ++ tail).length) := by
    rw [hbytes, List.take_append, List.take_of_length_le hle]
  have hsize : (buffer'.bytes.take n).length = n := by
    rw [List.length_take, Nat.min_eq_left hn]
  have ht : Spells m.cell .buffer 0 (buffer'.bytes.take n) := by
    rw [← List.take_append_drop n buffer'.bytes] at hm
    exact (spells_append.mp hm).1
  have hfinds : Finds (buffer'.bytes.take n) key.chars max_value_size v := by
    rw [finds_iff_reads (by omega), htext]
    obtain ⟨pre, s, rest', hreads⟩ :=
      (exists_reads_document htail hkey hsep hmembers).mpr hfound
    exact ⟨⟨pre, s, _, hreads.append _⟩, hfits⟩
  obtain ⟨htrue, hstored⟩ := wp_findByKey ht (by omega) key max_value_size
  rw [hsize] at htrue hstored
  refine ⟨htrue.mpr ⟨v, hfinds⟩, ?_⟩
  rw [hstored v hfinds]
  exact spells_splice m.cell .value 0 (v ++ [0])

end Search

end Json
end IMUtility
