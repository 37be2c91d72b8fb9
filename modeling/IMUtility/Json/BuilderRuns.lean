import IMUtility.Json.Document

/-! # Whole runs of the builder

The comma is put where the text so far ends with a quote, so from `Json_startString` on the text
tells how many members there are, as long as nothing but whole members has been written. That is
so on every run in which all calls return `true` (`built_iff_fits`). On other runs it depends on
the calls that are refused (`refused_leaves_document`), and so does the bound on what is written
(`stores_below_size`). -/

namespace IMUtility
namespace Json

open Refinement (run Along along_cons_of_step run_cons_of_step exists_of_run_cons run_append
  exists_of_run_append run_of_along)

variable {p : Platform} {buffer buffer' : Storage} {t : List Byte} {buffer_size : Nat}
  {members : List (CString × CString)}

/-! ## One call, read backwards

`Document` says what a call does when the object is long enough, and that it is undefined
otherwise. From a call that has returned, the first case can be read off.
-/

/-- A call that is defined has appended what `added` says. -/
theorem Holds.of_addData (h : Holds buffer t) {key value : CString} {status : Bool}
    (hcall : addData p buffer buffer_size key value = some (status, buffer')) :
    status = hasRoom p buffer_size (t ++ separator buffer t).length key value ∧
      Extends t (added p buffer t buffer_size key value) buffer buffer' := by
  by_cases hroom : (t ++ added p buffer t buffer_size key value).length < buffer.bytes.length
  · obtain ⟨b, heq, hextends⟩ := h.addData_eq hroom
    rw [heq] at hcall
    cases hcall
    exact ⟨rfl, hextends⟩
  · rw [h.addData_eq_none (Nat.le_of_not_lt hroom)] at hcall
    cases hcall

theorem Holds.of_endString (h : Holds buffer t) {status : Bool}
    (hcall : endString p buffer buffer_size = some (status, buffer')) :
    status = decide (p.sizeT (2 + t.length) ≤ buffer_size) ∧
      Extends t (closing p t buffer_size) buffer buffer' := by
  by_cases hroom : (t ++ closing p t buffer_size).length < buffer.bytes.length
  · obtain ⟨b, heq, hextends⟩ := h.endString_eq hroom
    rw [heq] at hcall
    cases hcall
    exact ⟨rfl, hextends⟩
  · rw [h.endString_eq_none (Nat.le_of_not_lt hroom)] at hcall
    cases hcall

theorem of_startString (hcall : startString buffer buffer_size = some (true, buffer')) :
    2 ≤ buffer_size ∧ Extends [] [openBrace] buffer buffer' := by
  by_cases hsize : 2 ≤ buffer_size
  · refine ⟨hsize, ?_⟩
    by_cases hroom : 2 ≤ buffer.bytes.length
    · obtain ⟨b, heq, hextends⟩ := startString_eq hsize hroom
      rw [heq] at hcall
      cases hcall
      exact hextends
    · have hcopy : buffer.strcpy 0 [openBrace] = none := by
        apply Storage.strcpy_eq_none
        rw [List.length_singleton]
        omega
      rw [startString, if_pos hsize, hcopy] at hcall
      cases hcall
  · rw [startString, if_neg hsize] at hcall
    cases hcall

/-! ## Documents

`document` is the text before the closing brace: a brace, and the members with commas between
them. It grows at its end, and it ends with a quote as soon as there is a member; that is what
`Json_addData` looks at.
-/

theorem intercalate_concat {α : Type} (sep : List α) {xs : List (List α)} (h : xs ≠ [])
    (x : List α) : sep.intercalate (xs ++ [x]) = sep.intercalate xs ++ sep ++ x := by
  induction xs with
  | nil => exact absurd rfl h
  | cons y ys ih =>
      cases ys with
      | nil => simp [List.intercalate_cons_cons]
      | cons z zs =>
          have hne : z :: zs ≠ [] := List.cons_ne_nil z zs
          have hne' : z :: zs ++ [x] ≠ [] := by simp
          rw [List.cons_append, List.intercalate_cons_of_ne_nil hne', ih hne,
            List.intercalate_cons_of_ne_nil hne]
          simp only [List.append_assoc]

theorem document_concat (members : List (CString × CString)) (m : CString × CString) :
    document (members ++ [m])
      = document members ++ ((if members = [] then [] else [comma]) ++ member m.1 m.2) := by
  unfold document
  rw [List.map_append, List.map_singleton, List.cons_append, List.cons.injEq]
  refine ⟨rfl, ?_⟩
  split
  case isTrue hnil =>
    rw [hnil]
    simp [List.intercalate_singleton]
  case isFalse hne =>
    rw [intercalate_concat, List.append_assoc]
    simpa using hne

/-- The last character of a document is a quote exactly if it has a member. -/
theorem getLast?_document (members : List (CString × CString)) :
    (document members).getLast? = some (if members = [] then openBrace else quote) := by
  rcases List.eq_nil_or_concat members with rfl | ⟨ms, m, hconcat⟩
  · rfl
  · have hne : ms ++ [m] ≠ [] := by simp
    rw [List.concat_eq_append] at hconcat
    rw [hconcat, document_concat, if_neg hne, member, ← List.append_assoc, ← List.append_assoc,
      List.getLast?_concat]

theorem separator_document (buffer : Storage) (members : List (CString × CString)) :
    separator buffer (document members) = if members = [] then [] else [comma] := by
  unfold separator Storage.last
  rw [getLast?_document, Option.getD_some]
  by_cases hnil : members = []
  · have hne : openBrace ≠ quote := by decide
    rw [if_pos hnil, if_pos hnil, if_neg hne]
  · rw [if_neg hnil, if_neg hnil, if_pos rfl]

/-- An accepted member makes the next document. -/
theorem Extends.document {m : CString × CString}
    (h : Extends (document members) (separator buffer (document members) ++ member m.1 m.2)
      buffer buffer') : Holds buffer' (document (members ++ [m])) := by
  have hholds := h.holds
  rw [separator_document, ← document_concat] at hholds
  exact hholds

/-! ## Runs in which every call returns `true`

The invariant is that the buffer holds the document of the members so far. In the one direction it
gives, at the end, a text that lies in the object, so that no sum of a check has wrapped; in the
other, the room that is left at the end is more than each call needs.
-/

section Successful

/-- The calls that build an object. -/
def buildCalls (buffer_size : Nat) (members : List (CString × CString)) : List Call :=
  .startString buffer_size :: (members.map fun m => .addData buffer_size m.1 m.2)
    ++ [.endString buffer_size]

theorem hasRoom_of_le {index : Nat} {key value : CString}
    (h : index + (member key value).length < buffer_size) (hsize : buffer_size < p.sizeRange) :
    hasRoom p buffer_size index key value = true := by
  rw [length_member] at h
  have htotal : p.sizeT (5 + (key.strlen : Int) + value.strlen + 1)
      = 5 + key.strlen + value.strlen + 1 := p.sizeT_of_lt (by omega) (by omega)
  have hsum : p.sizeT ((5 + key.strlen + value.strlen + 1 : Nat) + (index : Int))
      = 5 + key.strlen + value.strlen + 1 + index := p.sizeT_of_lt (by omega) (by omega)
  unfold hasRoom
  rw [htotal]
  show decide (p.sizeT ((5 + key.strlen + value.strlen + 1 : Nat) + (index : Int)) ≤ _) = true
  rw [hsum]
  exact decide_eq_true (by omega)

theorem length_document_le (members more : List (CString × CString)) :
    (document members).length ≤ (document (members ++ more)).length := by
  induction more using List.reverseRecOn with
  | nil => rw [List.append_nil]
  | append_singleton more m ih =>
      rw [← List.append_assoc, document_concat, List.length_append]
      omega

/-- While the text still to come fits, every member is accepted. By induction on the members. -/
theorem run_addData_of_fits (more : List (CString × CString))
    (h : Holds buffer (document members)) (hsize : buffer_size < p.sizeRange)
    (hobject : buffer_size ≤ buffer.bytes.length)
    (hfits : (document (members ++ more)).length < buffer_size) :
    ∃ buffer', run (step p) buffer (more.map fun m => .addData buffer_size m.1 m.2)
        = some (List.replicate more.length true, buffer') ∧
      Holds buffer' (document (members ++ more)) ∧
      buffer'.bytes.length = buffer.bytes.length := by
  induction more generalizing members buffer with
  | nil =>
      rw [List.append_nil]
      exact ⟨buffer, rfl, h, rfl⟩
  -- the next document is no longer than the last one, so its check holds
  | cons m more ih =>
      rw [List.append_cons] at hfits ⊢
      have hnext := length_document_le (members ++ [m]) more
      have hdoc : document members ++ (separator buffer (document members) ++ member m.1 m.2)
          = document (members ++ [m]) := by
        rw [separator_document, document_concat]
      have hlen := congrArg List.length hdoc
      rw [← List.append_assoc, List.length_append] at hlen
      have hcheck : hasRoom p buffer_size
          (document members ++ separator buffer (document members)).length m.1 m.2 = true :=
        hasRoom_of_le (by omega) hsize
      have hadded : added p buffer (document members) buffer_size m.1 m.2
          = separator buffer (document members) ++ member m.1 m.2 := by
        rw [added, if_pos hcheck]
      have hroom :
          (document members ++ added p buffer (document members) buffer_size m.1 m.2).length
            < buffer.bytes.length := by
        rw [hadded, hdoc]
        omega
      obtain ⟨b, heq, hextends⟩ := h.addData_eq hroom
      rw [hadded] at hextends
      rw [hcheck] at heq
      obtain ⟨b', hrun, hholds, hlen'⟩ := ih hextends.document (by rw [hextends.length_eq]; omega)
        hfits
      refine ⟨b', ?_, hholds, hlen'.trans hextends.length_eq⟩
      have hstep : step p buffer (.addData buffer_size m.1 m.2) = some (true, b) := heq
      rw [List.map_cons, run_cons_of_step hstep, hrun]
      rfl

/-- Members that were accepted are in the document. By induction on them. -/
theorem holds_of_run_addData (more : List (CString × CString))
    (h : Holds buffer (document members)) {replies : List Bool}
    (hrun : run (step p) buffer (more.map fun m => .addData buffer_size m.1 m.2)
      = some (replies, buffer')) (htrue : ∀ r ∈ replies, r = true) :
    Holds buffer' (document (members ++ more)) ∧
      buffer'.bytes.length = buffer.bytes.length := by
  induction more generalizing members buffer replies with
  | nil =>
      cases hrun
      rw [List.append_nil]
      exact ⟨h, rfl⟩
  | cons m more ih =>
      obtain ⟨status, b, replies', hcall, hrest, rfl⟩ := exists_of_run_cons hrun
      obtain rfl : status = true := htrue status List.mem_cons_self
      obtain ⟨hcheck, hextends⟩ := h.of_addData hcall
      rw [added, if_pos hcheck.symm] at hextends
      obtain ⟨hholds, hlen⟩ :=
        ih hextends.document hrest fun r hr => htrue r (List.mem_cons_of_mem _ hr)
      rw [List.append_cons]
      exact ⟨hholds, hlen.trans hextends.length_eq⟩

/-- All calls true: the object stands in the buffer, and the check of the last call held. -/
theorem holds_of_build (hrun : run (step p) buffer (buildCalls buffer_size members)
      = some (List.replicate (members.length + 2) true, buffer')) :
    Holds buffer' (object members) ∧
      p.sizeT (2 + (document members).length) ≤ buffer_size ∧
      (object members).length < buffer.bytes.length := by
  obtain ⟨rs, b₂, rs', hfirst, hlast, hreplies⟩ := exists_of_run_append hrun
  obtain ⟨r₁, b₁, rs₁, hstart, hadds, rfl⟩ := exists_of_run_cons hfirst
  obtain ⟨r₃, b₃, rs₃, hend, hnil, rfl⟩ := exists_of_run_cons hlast
  cases hnil
  -- the reply list has only `true` in it
  have htrue : ∀ r ∈ r₁ :: rs₁ ++ [r₃], r = true := by
    rw [← hreplies]
    intro r hr
    exact List.eq_of_mem_replicate hr
  obtain rfl : r₁ = true := htrue r₁ (by simp)
  obtain rfl : r₃ = true := htrue r₃ (by simp)
  obtain ⟨-, hextends⟩ := of_startString hstart
  have h₁ : Holds b₁ (document []) := hextends.holds
  obtain ⟨h₂, hlen₂⟩ := holds_of_run_addData members h₁ hadds fun r hr => htrue r (by simp [hr])
  obtain ⟨hstatus, hclosed⟩ := h₂.of_endString hend
  have hcheck := of_decide_eq_true hstatus.symm
  rw [closing, if_pos hcheck] at hclosed
  refine ⟨hclosed.holds, hcheck, ?_⟩
  rw [← hextends.length_eq, ← hlen₂, ← hclosed.length_eq]
  exact hclosed.holds.length_lt

theorem length_object (members : List (CString × CString)) :
    (object members).length = (document members).length + 1 := by
  rw [object, List.length_append, List.length_singleton]

/-- The capacity check of `Json_endString`, for a text that lies in an object. -/
theorem endString_check_iff (hlimit : t.length + 2 < p.sizeRange) :
    p.sizeT (2 + (t.length : Int)) ≤ buffer_size ↔ t.length + 1 < buffer_size := by
  rw [p.sizeT_of_lt (n := 2 + t.length) (by omega) (by omega)]
  omega

/-- The calls return `true` when the object fits. -/
theorem run_build_of_fits (hobject : buffer_size ≤ buffer.bytes.length)
    (hlimit : buffer.bytes.length < p.sizeRange)
    (hfits : (object members).length < buffer_size) :
    ∃ buffer', run (step p) buffer (buildCalls buffer_size members)
      = some (List.replicate (members.length + 2) true, buffer') := by
  have hlen := length_object members
  have hdoc : 1 ≤ (document members).length := Nat.le_add_left 1 _
  have hcheck : p.sizeT (2 + ((document members).length : Int)) ≤ buffer_size := by
    apply (endString_check_iff (by omega)).mpr
    omega
  obtain ⟨b₁, hstart, hextends⟩ : ∃ b₁, startString buffer buffer_size = some (true, b₁) ∧ _ :=
    startString_eq (by omega) (by omega)
  have h₁ : Holds b₁ (document []) := hextends.holds
  have hlen₁ := hextends.length_eq
  have hsize : buffer_size < p.sizeRange := by omega
  have htext : (document ([] ++ members)).length < buffer_size := by
    show (document members).length < buffer_size
    omega
  obtain ⟨b₂, hadds, h₂, hlen₂⟩ := run_addData_of_fits members h₁ hsize (by omega) htext
  -- the brace is accepted: the check sees the document, which is one shorter than the object
  have hclosing : closing p (document ([] ++ members)) buffer_size = [closeBrace] :=
    if_pos hcheck
  have hroom : (document ([] ++ members) ++ closing p (document ([] ++ members)) buffer_size).length
      < b₂.bytes.length := by
    rw [hclosing]
    show (object members).length < _
    omega
  obtain ⟨b₃, hend, -⟩ := h₂.endString_eq hroom
  rw [List.nil_append, decide_eq_true hcheck] at hend
  refine ⟨b₃, ?_⟩
  have hfirst : run (step p) buffer
      (.startString buffer_size :: members.map fun m => .addData buffer_size m.1 m.2)
      = some (true :: List.replicate members.length true, b₂) := by
    have hone : step p buffer (.startString buffer_size) = some (true, b₁) := hstart
    rw [run_cons_of_step hone, hadds]
    rfl
  have hlast : run (step p) b₂ [.endString buffer_size] = some ([true], b₃) := by
    have hone : step p b₂ (.endString buffer_size) = some (true, b₃) := hend
    rw [run_cons_of_step hone]
    rfl
  rw [buildCalls, run_append hfirst, hlast, Option.map_some]
  show some (true :: List.replicate members.length true ++ [true], b₃) = _
  rw [← List.replicate_succ, ← List.replicate_succ']

/-- **Building an object.** In a buffer of `buffer_size` bytes or more, all calls return `true`
exactly when the whole text fits with its NUL, and then the buffer holds that text. -/
theorem built_iff_fits (p : Platform) (buffer : Storage) (buffer_size : Nat)
    (members : List (CString × CString)) (hobject : buffer_size ≤ buffer.bytes.length)
    (hlimit : buffer.bytes.length < p.sizeRange) :
    ((∃ buffer', run (step p) buffer (buildCalls buffer_size members)
        = some (List.replicate (members.length + 2) true, buffer')) ↔
      (object members).length < buffer_size) ∧
    ∀ buffer', run (step p) buffer (buildCalls buffer_size members)
        = some (List.replicate (members.length + 2) true, buffer') →
      Holds buffer' (object members) := by
  refine ⟨⟨?_, run_build_of_fits hobject hlimit⟩, fun buffer' hrun => (holds_of_build hrun).1⟩
  rintro ⟨buffer', hrun⟩
  -- what was written lies in the object, so the sum of the last check did not wrap around
  obtain ⟨-, hcheck, hroom⟩ := holds_of_build hrun
  rw [length_object] at hroom ⊢
  exact (endString_check_iff (by omega)).mp hcheck

/-- The string of one character. -/
def CString.single (c : Byte) (hc : c ≠ 0) : CString := ⟨[c], by simpa using hc.symm⟩

/-- Two members, in a buffer that the text fills. -/
theorem built_iff_fits_two :
    ∃ buffer', run (step .size32) ⟨0, List.replicate 18 0, [], []⟩
        (buildCalls 18 [(.single 0x61 (by decide), .single 0x62 (by decide)),
          (.single 0x63 (by decide), .single 0x64 (by decide))])
      = some ([true, true, true, true], buffer') :=
  (built_iff_fits .size32 ⟨0, List.replicate 18 0, [], []⟩ 18 _ (by decide) (by decide)).1.mpr
    (by decide)

end Successful

/-! ## Refused members

A refused call has still written its comma if the text ended with a quote. `Separable` rules that
out: it asks that a member be accepted wherever a comma is written for it. Then the text after any
run is the document of the accepted members.
-/

section Refused

/-- The calls that add members, with the size each of them is given. -/
def addCalls (calls : List (Nat × CString × CString)) : List Call :=
  calls.map fun c => .addData c.1 c.2.1 c.2.2

/-- The members whose call returned `true`. -/
def acceptedMembers (calls : List (Nat × CString × CString)) (replies : List Bool) :
    List (CString × CString) :=
  (calls.zip replies).filterMap fun (c, r) => if r then some c.2 else none

/-- No comma is written for a member that does not fit behind it. -/
def Separable (p : Platform) (buffer : Storage) : Call → Prop
  | .addData buffer_size key value =>
    buffer.text.getLast? = some quote →
      hasRoom p buffer_size (buffer.text.length + 1) key value = true
  | .startString _ | .endString _ => True

theorem separator_of_getLast {c : Byte} (hlast : t.getLast? = some c) :
    separator buffer t = if t.getLast? = some quote then [comma] else [] := by
  unfold separator Storage.last
  rw [hlast, Option.getD_some]
  simp only [Option.some.injEq]

/-- A refused call leaves the text exactly if it is `Separable`. -/
theorem Holds.refused_iff (h : Holds buffer t) (hne : t ≠ []) {key value : CString}
    (hcall : addData p buffer buffer_size key value = some (false, buffer')) :
    buffer'.text = buffer.text ↔ Separable p buffer (.addData buffer_size key value) := by
  obtain ⟨hcheck, hextends⟩ := h.of_addData hcall
  rw [added, ← hcheck, if_neg Bool.false_ne_true, List.append_nil] at hextends
  obtain ⟨c, hlast⟩ : ∃ c, t.getLast? = some c := ⟨_, List.getLast?_eq_some_getLast hne⟩
  have hseparator : separator buffer t = if t.getLast? = some quote then [comma] else [] :=
    separator_of_getLast hlast
  unfold Separable
  rw [hextends.holds.text_eq, h.text_eq]
  -- without a quote at the end there is no comma to write
  by_cases hquote : t.getLast? = some quote
  · rw [if_pos hquote] at hseparator
    rw [hseparator, List.length_append] at hcheck
    rw [hseparator]
    constructor
    · intro heq
      simp at heq
    · intro hroom
      have hroom := hroom hquote
      rw [List.length_singleton] at hcheck
      rw [hroom] at hcheck
      cases hcheck
  · rw [if_neg hquote] at hseparator
    rw [hseparator, List.append_nil]
    exact ⟨fun _ hlast => absurd hlast hquote, fun _ => rfl⟩

/-- After a run of separable calls the document has the accepted members. By induction on the
calls. -/
theorem holds_of_separable (calls : List (Nat × CString × CString))
    (h : Holds buffer (document members)) {replies : List Bool}
    (hrun : run (step p) buffer (addCalls calls) = some (replies, buffer'))
    (hcond : Along (step p) (Separable p) buffer (addCalls calls)) :
    Holds buffer' (document (members ++ acceptedMembers calls replies)) := by
  induction calls generalizing members buffer replies with
  | nil =>
      cases hrun
      rw [acceptedMembers, List.zip_nil_left, List.filterMap_nil, List.append_nil]
      exact h
  | cons c calls ih =>
      obtain ⟨size, key, value⟩ := c
      obtain ⟨status, b, replies', hcall, hrest, rfl⟩ := exists_of_run_cons hrun
      have hlater := hcond.2 status b hcall
      obtain ⟨hcheck, hextends⟩ := h.of_addData hcall
      cases status with
      -- accepted: one more member in the document
      | true =>
          rw [added, if_pos hcheck.symm] at hextends
          have hmore := ih hextends.document hrest hlater
          rw [List.append_assoc] at hmore
          exact hmore
      | false =>
          -- a refused call was separable, so it has left the text
          have hsame := (h.refused_iff (List.cons_ne_nil _ _) hcall).mpr hcond.1
          rw [hextends.holds.text_eq, h.text_eq] at hsame
          have hb : Holds b (document members) := hsame ▸ hextends.holds
          exact ih hb hrest hlater

/-- **When refused members leave no trace.** After `Json_startString` and any calls of
`Json_addData` of which none writes a comma for a member that does not fit behind it, the text is
the document of the accepted members, and closing it closes exactly these; a further call that is
refused leaves the text if and only if it does not write such a comma either. -/
theorem refused_leaves_document (p : Platform) (buffer buffer₀ buffer' : Storage)
    (buffer_size : Nat) (hstart : startString buffer buffer_size = some (true, buffer₀))
    (calls : List (Nat × CString × CString)) (replies : List Bool)
    (hrun : run (step p) buffer₀ (addCalls calls) = some (replies, buffer'))
    (hcond : Along (step p) (Separable p) buffer₀ (addCalls calls)) :
    buffer'.text = document (acceptedMembers calls replies) ∧
    (∀ size key value buffer'', addData p buffer' size key value = some (false, buffer'') →
      (buffer''.text = buffer'.text ↔ Separable p buffer' (.addData size key value))) ∧
    ∀ size buffer'', endString p buffer' size = some (true, buffer'') →
      buffer''.text = object (acceptedMembers calls replies) := by
  have h₀ : Holds buffer₀ (document []) := (of_startString hstart).2.holds
  have h := holds_of_separable calls h₀ hrun hcond
  rw [List.nil_append] at h
  refine ⟨h.text_eq, ?_, ?_⟩
  · intro size key value buffer'' hcall
    exact h.refused_iff (List.cons_ne_nil _ _) hcall
  · intro size buffer'' hcall
    obtain ⟨hcheck, hextends⟩ := h.of_endString hcall
    -- `Json_endString` has reported success, so its check passed
    rw [closing, if_pos (of_decide_eq_true hcheck.symm)] at hextends
    exact hextends.holds.text_eq

/-- A first member that is refused, and the same member with enough room. -/
theorem refused_leaves_document_first :
    ∃ buffer₀ buffer', startString ⟨0, List.replicate 12 0, [], []⟩ 12 = some (true, buffer₀) ∧
      run (step .size32) buffer₀ (addCalls [(3, .single 0x61 (by decide), .single 0x62 (by decide)),
        (12, .single 0x61 (by decide), .single 0x62 (by decide))]) = some ([false, true], buffer') ∧
      buffer'.text = document [(.single 0x61 (by decide), .single 0x62 (by decide))] := by
  let key := CString.single 0x61 (by decide)
  let value := CString.single 0x62 (by decide)
  let buffer₀ : Storage := ⟨0, openBrace :: List.replicate 11 0, [], [0, 1]⟩
  let buffer₁ : Storage := ⟨0, openBrace :: List.replicate 11 0, [0, 0, 1], [0, 1]⟩
  have hstart : startString ⟨0, List.replicate 12 0, [], []⟩ 12 = some (true, buffer₀) := by decide
  have hfirst : step .size32 buffer₀ (.addData 3 key value) = some (false, buffer₁) := by decide
  have hcond : Along (step .size32) (Separable .size32) buffer₀
      (addCalls [(3, key, value), (12, key, value)]) := by
    apply along_cons_of_step hfirst
    · exact fun hlast => absurd hlast (by decide)
    · exact ⟨fun hlast => absurd hlast (by decide), fun _ _ _ => trivial⟩
  obtain ⟨buffer', hrun⟩ : ∃ buffer', run (step .size32) buffer₀
      (addCalls [(3, key, value), (12, key, value)]) = some ([false, true], buffer') :=
    ⟨_, rfl⟩
  exact ⟨buffer₀, buffer', hstart, hrun,
    (refused_leaves_document .size32 _ buffer₀ buffer' 12 hstart _ _ hrun hcond).1⟩

/-- A second member that is refused: its comma stays, and the object is closed behind it. -/
theorem refused_leaves_comma :
    ∃ buffer₁ buffer₂ buffer₃,
      run (step .size32) ⟨0, List.replicate 12 0, [], []⟩
        [.startString 12, .addData 12 (.single 0x61 (by decide)) (.single 0x62 (by decide))]
        = some ([true, true], buffer₁) ∧
      addData .size32 buffer₁ 12 (.single 0x63 (by decide)) (.single 0x64 (by decide))
        = some (false, buffer₂) ∧
      buffer₂.text ≠ buffer₁.text ∧
      endString .size32 buffer₂ 12 = some (true, buffer₃) ∧
      buffer₃.text ≠ object [(.single 0x61 (by decide), .single 0x62 (by decide))] := by
  refine ⟨_, _, _, rfl, rfl, ?_, rfl, ?_⟩
  · decide
  · decide

end Refused

/-! ## What is written where

The comma and its NUL are copied before the capacity is looked at, and the sums of the checks wrap
around at `size_t`. `InPlace` excludes both, call by call; a run of such calls keeps the text and
all that is written below `buffer_size`.
-/

section Bounds

/-- The `buffer_size` of a call. -/
def Call.bufferSize : Call → Nat
  | .startString buffer_size | .addData buffer_size _ _ | .endString buffer_size => buffer_size

/-- The comma has room for its NUL, and no sum passes a check by wrapping around. -/
def InPlace (p : Platform) (buffer : Storage) : Call → Prop
  | .startString _ => True
  | .addData buffer_size key value =>
    let index := (buffer.text ++ separator buffer buffer.text).length
    index < buffer_size ∧ (hasRoom p buffer_size index key value = true →
      index + (member key value).length < buffer_size)
  | .endString buffer_size =>
    p.sizeT (2 + buffer.text.length) ≤ buffer_size → 2 + buffer.text.length ≤ buffer_size

/-- Everything happens below `buffer_size`. -/
structure Bounded (buffer_size : Nat) (buffer : Storage) : Prop where
  object : buffer_size ≤ buffer.bytes.length
  stores : ∀ i ∈ buffer.stores, i < buffer_size
  text : ∃ t, Holds buffer t ∧ t.length < buffer_size

theorem Bounded.of_extends {xs : List Byte} (h : Bounded buffer_size buffer)
    (hextends : Extends t xs buffer buffer') (hlt : (t ++ xs).length < buffer_size) :
    Bounded buffer_size buffer' where
  object := by
    rw [hextends.length_eq]
    exact h.object
  stores := hextends.below buffer_size h.stores hlt
  text := ⟨t ++ xs, hextends.holds, hlt⟩

/-- One call in place keeps the bound, and is defined. -/
theorem Bounded.step (h : Bounded buffer_size buffer) {call : Call}
    (hsize : call.bufferSize = buffer_size) (hcall : InPlace p buffer call) :
    ∃ status buffer', step p buffer call = some (status, buffer') ∧
      Bounded buffer_size buffer' := by
  obtain ⟨t, ht, hlt⟩ := h.text
  have hobject := h.object
  cases call with
  | startString size =>
      obtain rfl : size = buffer_size := hsize
      by_cases hfits : 2 ≤ size
      · obtain ⟨b, heq, hextends⟩ := startString_eq hfits (hfits.trans hobject)
        exact ⟨true, b, heq, h.of_extends hextends hfits⟩
      · refine ⟨false, buffer, ?_, h⟩
        show startString buffer size = _
        rw [startString, if_neg hfits]
  -- the member if it is accepted, the comma alone if not: both below the size
  | addData size key value =>
      obtain rfl : size = buffer_size := hsize
      obtain ⟨hcomma, hmember⟩ := hcall
      rw [ht.text_eq] at hcomma hmember
      have hadded : (t ++ added p buffer t size key value).length < size := by
        unfold added
        split
        case isTrue hcheck =>
          rw [← List.append_assoc, List.length_append]
          exact hmember hcheck
        case isFalse =>
          rw [List.append_nil]
          exact hcomma
      obtain ⟨b, heq, hextends⟩ := ht.addData_eq (hadded.trans_le hobject)
      exact ⟨_, b, heq, h.of_extends hextends hadded⟩
  -- the brace if it is accepted; the sum of its check has not wrapped
  | endString size =>
      obtain rfl : size = buffer_size := hsize
      unfold InPlace at hcall
      rw [ht.text_eq] at hcall
      have hclosing : (t ++ closing p t size).length < size := by
        unfold closing
        split
        case isTrue hcheck =>
          have hroom := hcall hcheck
          rw [List.length_append, List.length_singleton]
          omega
        case isFalse =>
          rw [List.append_nil]
          exact hlt
      obtain ⟨b, heq, hextends⟩ := ht.endString_eq (hclosing.trans_le hobject)
      exact ⟨_, b, heq, h.of_extends hextends hclosing⟩

/-- **When building stays inside the buffer.** After a successful `Json_startString` on a buffer
of `buffer_size` bytes or more, every sequence of calls with that size and in place is defined,
stores nothing at `buffer_size` or behind it, and leaves a NUL in front of it. -/
theorem stores_below_size (p : Platform) (before : Byte) (bytes : List Byte) (buffer_size : Nat)
    (hobject : buffer_size ≤ bytes.length) (buffer₀ : Storage)
    (hstart : startString ⟨before, bytes, [], []⟩ buffer_size = some (true, buffer₀))
    (calls : List Call) (hsize : ∀ c ∈ calls, c.bufferSize = buffer_size)
    (hcond : Along (step p) (InPlace p) buffer₀ calls) :
    ∃ replies buffer', run (step p) buffer₀ calls = some (replies, buffer') ∧
      (∀ i ∈ buffer'.stores, i < buffer_size) ∧ (0 : Byte) ∈ buffer'.bytes.take buffer_size := by
  obtain ⟨hfits, hextends⟩ := of_startString hstart
  -- the brace of `Json_startString` and its NUL are below the size it was given
  have h₀ : Bounded buffer_size buffer₀ := by
    refine ⟨?_, ?_, [openBrace], hextends.holds, hfits⟩
    · rw [hextends.length_eq]
      exact hobject
    · exact hextends.below buffer_size (by simp) hfits
  obtain ⟨replies, buffer', hrun, hbounded⟩ :=
    run_of_along (fun _ _ hb hs hc => hb.step hs hc) h₀ hsize hcond
  obtain ⟨t, ht, hlt⟩ := hbounded.text
  exact ⟨replies, buffer', hrun, hbounded.stores, ht.nul_mem_take hlt⟩

/-- A member that fills the buffer, and the closing brace that is refused. -/
theorem stores_below_size_nine :
    ∃ buffer₀ replies buffer', startString ⟨0, List.replicate 10 0, [], []⟩ 9
        = some (true, buffer₀) ∧
      run (step .size32) buffer₀
        [.addData 9 (.single 0x61 (by decide)) (.single 0x62 (by decide)), .endString 9]
        = some (replies, buffer') ∧
      (∀ i ∈ buffer'.stores, i < 9) ∧ (0 : Byte) ∈ buffer'.bytes.take 9 := by
  let key := CString.single 0x61 (by decide)
  let value := CString.single 0x62 (by decide)
  let buffer₀ : Storage := ⟨0, openBrace :: List.replicate 9 0, [], [0, 1]⟩
  have hstart : startString ⟨0, List.replicate 10 0, [], []⟩ 9 = some (true, buffer₀) := by decide
  obtain ⟨buffer₁, hfirst⟩ : ∃ buffer₁, step .size32 buffer₀ (.addData 9 key value)
      = some (true, buffer₁) := ⟨_, rfl⟩
  have hcond : Along (step .size32) (InPlace .size32) buffer₀
      [.addData 9 key value, .endString 9] := by
    apply along_cons_of_step hfirst
    · exact ⟨by decide, by decide⟩
    · cases hfirst
      exact ⟨by unfold InPlace; decide, fun _ _ _ => trivial⟩
  obtain ⟨replies, buffer', hrun, hstores, hnul⟩ := stores_below_size .size32 0
    (List.replicate 10 0) 9 (by decide) buffer₀ hstart [.addData 9 key value, .endString 9]
    (by simp [Call.bufferSize]) hcond
  exact ⟨buffer₀, replies, buffer', hstart, hrun, hstores, hnul⟩

/-- A member that fills the buffer, and one more: its comma takes the place of the NUL, and the
NUL goes behind the buffer. -/
theorem stores_past_nine :
    ∃ buffer₀ replies buffer', startString ⟨0, List.replicate 10 0, [], []⟩ 9
        = some (true, buffer₀) ∧
      run (step .size32) buffer₀
        [.addData 9 (.single 0x61 (by decide)) (.single 0x62 (by decide)),
          .addData 9 (.single 0x63 (by decide)) (.single 0x64 (by decide))]
        = some (replies, buffer') ∧
      ¬ (∀ i ∈ buffer'.stores, i < 9) ∧ (0 : Byte) ∉ buffer'.bytes.take 9 := by
  refine ⟨_, _, _, rfl, rfl, ?_, ?_⟩
  · decide
  · decide

end Bounds

end Json
end IMUtility
