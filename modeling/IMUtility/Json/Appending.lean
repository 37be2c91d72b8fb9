import IMUtility.Json.BuilderRuns

/-! # What `Json_addData` depends on

`Json_addData` looks at the character in front of the NUL to see whether a comma is due, at the
index `index - 1U`. Behind a text that is not empty this is the last character of the text. Behind
an empty one it is the byte in front of the buffer: the function reads it always, and with a quote
there it writes a comma that no member calls for. So what it does depends on the text alone
precisely when there is some text (`addData_dependsOnText_iff`). -/

namespace IMUtility
namespace Json

variable {p : Platform} {buffer buffer' : Storage} {t : List Byte} {buffer_size : Nat}
  {key value : CString}

/-! ## What is read

Each string function has a lemma about the log it leaves. Only `strlen` and the comparison read;
the copies and the check behind them add nothing, so that the reads of a call are those two.
-/

theorem Storage.loads_load {i : Int} {c : Byte} (h : buffer.load i = some (c, buffer')) :
    buffer'.loads = i :: buffer.loads := by
  unfold Storage.load at h
  dsimp only at h
  split at h
  · cases h
    rfl
  · split at h
    · obtain ⟨_, -, heq⟩ := Option.bind_eq_some_iff.mp h
      cases heq
      rfl
    · cases h

theorem Storage.loads_strcpy {i : Nat} {xs : List Byte} (h : buffer.strcpy i xs = some buffer') :
    buffer'.loads = buffer.loads := by
  obtain ⟨_, -, heq⟩ := Option.bind_eq_some_iff.mp h
  cases heq
  rfl

theorem Storage.mem_loads_strlen {n : Nat} (h : buffer.strlen = some (n, buffer')) (i : Int) :
    i ∈ buffer'.loads ↔ (0 ≤ i ∧ i ≤ n) ∨ i ∈ buffer.loads := by
  obtain ⟨_, -, heq⟩ := Option.bind_eq_some_iff.mp h
  cases heq
  rw [List.mem_append]
  refine or_congr_left ?_
  rw [List.mem_map]
  constructor
  · rintro ⟨k, hk, rfl⟩
    have hk := List.mem_range.mp hk
    exact ⟨Int.natCast_nonneg k, Int.ofNat_le.mpr (Nat.le_of_lt_succ hk)⟩
  · rintro ⟨hnonneg, hle⟩
    exact ⟨i.toNat, List.mem_range.mpr (by omega), Int.toNat_of_nonneg hnonneg⟩

/-- The comparison reads the character, and the next one behind a quote. -/
theorem Storage.loads_isQuote {i : Int} {r : Bool} (h : buffer.isQuote i = some (r, buffer')) :
    buffer'.loads = i :: buffer.loads ∨ buffer'.loads = (i + 1) :: i :: buffer.loads := by
  obtain ⟨⟨c, b⟩, hload, h⟩ := Option.bind_eq_some_iff.mp h
  dsimp only at h
  split at h
  · obtain ⟨⟨c', b'⟩, hload', heq⟩ := Option.bind_eq_some_iff.mp h
    cases heq
    rw [loads_load hload', loads_load hload]
    exact Or.inr rfl
  · cases h
    exact Or.inl (loads_load hload)

theorem loads_copyMember {index : Nat} (h : copyMember buffer index key value = some buffer') :
    buffer'.loads = buffer.loads := by
  obtain ⟨b₁, h₁, h⟩ := Option.bind_eq_some_iff.mp h
  obtain ⟨b₂, h₂, h⟩ := Option.bind_eq_some_iff.mp h
  obtain ⟨b₃, h₃, h⟩ := Option.bind_eq_some_iff.mp h
  obtain ⟨b₄, h₄, h₅⟩ := Option.bind_eq_some_iff.mp h
  rw [Storage.loads_strcpy h₅, Storage.loads_strcpy h₄, Storage.loads_strcpy h₃,
    Storage.loads_strcpy h₂, Storage.loads_strcpy h₁]

theorem loads_addChecked {index : Nat} {status : Bool}
    (h : addChecked p buffer_size key value buffer index = some (status, buffer')) :
    buffer'.loads = buffer.loads := by
  unfold addChecked at h
  split at h
  · obtain ⟨b, hcopy, heq⟩ := Option.bind_eq_some_iff.mp h
    cases heq
    exact loads_copyMember hcopy
  · cases h
    rfl

/-- **The reads of `Json_addData`**: the text with its NUL, and the byte in front of the NUL. -/
theorem Holds.mem_loads_addData (h : Holds buffer t) {status : Bool}
    (hrun : addData p buffer buffer_size key value = some (status, buffer')) (i : Int) :
    i ∈ buffer'.loads ↔
      (0 ≤ i ∧ i ≤ t.length) ∨ i = (t.length : Int) - 1 ∨ i ∈ buffer.loads := by
  obtain ⟨⟨n, b₁⟩, hstrlen, hrun⟩ := Option.bind_eq_some_iff.mp hrun
  obtain ⟨⟨follows, b₂⟩, hquote, hrun⟩ := Option.bind_eq_some_iff.mp hrun
  obtain ⟨loads, hlength⟩ := h.strlen_eq
  obtain rfl : t.length = n := congrArg Prod.fst (Option.some.inj (hlength.symm.trans hstrlen))
  -- nothing is read behind the comparison
  have hrest : buffer'.loads = b₂.loads := by
    cases follows with
    | false =>
        change addChecked p buffer_size key value b₂ t.length = _ at hrun
        exact loads_addChecked hrun
    | true =>
        change (b₂.strcpy t.length [comma]).bind (fun b =>
          addChecked p buffer_size key value b (t.length + 1)) = _ at hrun
        obtain ⟨b₃, hcopy, hrun⟩ := Option.bind_eq_some_iff.mp hrun
        rw [loads_addChecked hrun, Storage.loads_strcpy hcopy]
  rw [hrest]
  have h₁ := Storage.mem_loads_strlen hstrlen i
  -- a quote makes the comparison look one character further
  rcases Storage.loads_isQuote hquote with h₂ | h₂
  · rw [h₂, List.mem_cons, h₁]
    exact or_left_comm
  · -- the second character is the NUL
    have hend : i = (t.length : Int) - 1 + 1 → 0 ≤ i ∧ i ≤ t.length := by omega
    rw [h₂, List.mem_cons, List.mem_cons, h₁]
    constructor
    · intro hi
      rcases hi with hi | hi
      · exact Or.inl (hend hi)
      · exact or_left_comm.mp hi
    · intro hi
      exact Or.inr (or_left_comm.mp hi)

/-! ## What is written

Two objects that hold the same text differ in the byte in front and in the bytes behind the NUL.
Behind some text the separator is a function of the text, and so is all that is appended. Behind
an empty text, objects with a quote and with a NUL in front are told apart by the first character
that is written.
-/

/-- The object with the text `t`, the byte `before` in front of it and `rest` behind the NUL. -/
def stored (t : List Byte) (before : Byte) (rest : List Byte) : Storage :=
  ⟨before, t ++ 0 :: rest, [], []⟩

/-- The text `t` with one member more. -/
def extended (t : List Byte) (key value : CString) : List Byte :=
  t ++ (if t.getLast? = some quote then [comma] else []) ++ member key value

/-- The run reads no byte in front of the buffer, and leaves the text with one member more. -/
def AppendsMember (p : Platform) (buffer : Storage) (t : List Byte) (buffer_size : Nat)
    (key value : CString) : Prop :=
  ∃ buffer', addData p buffer buffer_size key value = some (true, buffer') ∧
    (∀ i ∈ buffer'.loads, 0 ≤ i) ∧ buffer'.text = extended t key value

/-- The text that a run leaves. -/
def textAfter (p : Platform) (buffer : Storage) (buffer_size : Nat) (key value : CString) :
    Option (List Byte) :=
  (addData p buffer buffer_size key value).map fun r => r.2.text

variable {before : Byte} {rest : List Byte}

theorem holds_stored (ht : (0 : Byte) ∉ t) : Holds (stored t before rest) t :=
  ⟨ht, rest, rfl⟩

/-- An object that is long enough, with an empty text. -/
theorem length_stored_nil (before : Byte) (n : Nat) :
    (stored [] before (List.replicate n 0)).bytes.length = n + 1 := by
  show ((0 : Byte) :: List.replicate n 0).length = n + 1
  rw [List.length_cons, List.length_replicate]

theorem Holds.textAfter_eq (h : Holds buffer t)
    (hroom : (t ++ added p buffer t buffer_size key value).length < buffer.bytes.length) :
    textAfter p buffer buffer_size key value
      = some (t ++ added p buffer t buffer_size key value) := by
  obtain ⟨buffer', hrun, hextends⟩ := h.addData_eq hroom
  rw [textAfter, hrun, Option.map_some, hextends.holds.text_eq]

/-- Behind some text the comma is the one the text calls for. -/
theorem separator_eq (hne : t ≠ []) :
    separator buffer t = if t.getLast? = some quote then [comma] else [] := by
  unfold separator Storage.last
  rw [List.getLast?_eq_some_getLast hne, Option.getD_some]
  exact if_congr (Option.some_inj).symm rfl rfl

/-- Behind some text, in a buffer that is large enough, a run appends the member. -/
theorem added_eq (hne : t ≠ []) (hsize : (extended t key value).length < buffer_size)
    (hrange : buffer_size < p.sizeRange) :
    t ++ added p buffer t buffer_size key value = extended t key value := by
  rw [extended, List.length_append] at hsize
  rw [added, separator_eq hne, hasRoom_of_le hsize hrange, if_pos rfl, extended, List.append_assoc]

/-- Behind some text, a run depends on nothing else. -/
theorem appendsMember_of_ne_nil (ht : (0 : Byte) ∉ t) (hne : t ≠ [])
    (hsize : (extended t key value).length < buffer_size) (hrange : buffer_size < p.sizeRange)
    (hobject : buffer_size ≤ (stored t before rest).bytes.length) :
    AppendsMember p (stored t before rest) t buffer_size key value := by
  have h : Holds (stored t before rest) t := holds_stored ht
  have hadded : t ++ added p (stored t before rest) t buffer_size key value
      = extended t key value := added_eq hne hsize hrange
  have hindex : (t ++ separator (stored t before rest) t).length + (member key value).length
      < buffer_size := by
    rwa [separator_eq hne, ← List.length_append]
  have hroom : (t ++ added p (stored t before rest) t buffer_size key value).length
      < (stored t before rest).bytes.length := by
    rw [hadded]
    omega
  obtain ⟨buffer', hrun, hextends⟩ := h.addData_eq hroom
  rw [hasRoom_of_le hindex hrange] at hrun
  refine ⟨buffer', hrun, ?_, by rw [hextends.holds.text_eq, hadded]⟩
  intro i hi
  have hpos := List.length_pos_iff.mpr hne
  -- a load is of the text, of the byte in front of its end, or there is none
  rcases (h.mem_loads_addData hrun i).mp hi with hi | hi | hi
  · exact hi.1
  · omega
  · cases hi

/-- Behind an empty text, the byte in front of the buffer is read. -/
theorem not_appendsMember_nil :
    ¬ AppendsMember p (stored [] before rest) [] buffer_size key value := by
  intro happends
  obtain ⟨buffer', hrun, hloads, -⟩ := happends
  have hfront : (-1 : Int) ∈ buffer'.loads :=
    ((holds_stored List.not_mem_nil).mem_loads_addData hrun (-1)).mpr (Or.inr (Or.inl rfl))
  exact absurd (hloads (-1) hfront) (by decide)

/-- Behind an empty text, a quote in front of the buffer makes another text. -/
theorem textAfter_nil_ne (hsize : (member key value).length < buffer_size)
    (hrange : buffer_size < p.sizeRange) :
    textAfter p (stored [] quote (List.replicate buffer_size 0)) buffer_size key value
      ≠ textAfter p (stored [] 0 (List.replicate buffer_size 0)) buffer_size key value := by
  -- with a quote in front: the comma, and perhaps the member
  have hcomma : ∃ xs, added p (stored [] quote (List.replicate buffer_size 0)) [] buffer_size key
      value = comma :: xs ∧ xs.length ≤ (member key value).length := by
    refine ⟨if hasRoom p buffer_size 1 key value then member key value else [], rfl, ?_⟩
    split
    · exact le_rfl
    · exact Nat.zero_le _
  -- with a NUL in front: the member, at index 0
  have hmember : added p (stored [] 0 (List.replicate buffer_size 0)) [] buffer_size key value
      = member key value := by
    have hroom : hasRoom p buffer_size 0 key value = true :=
      hasRoom_of_le (by rwa [Nat.zero_add]) hrange
    show (if hasRoom p buffer_size 0 key value then member key value else []) = _
    rw [if_pos hroom]
  obtain ⟨xs, hadded, hxs⟩ := hcomma
  rw [(holds_stored List.not_mem_nil).textAfter_eq (by
      rw [hadded, length_stored_nil, List.nil_append, List.length_cons]
      omega),
    (holds_stored List.not_mem_nil).textAfter_eq (by
      rw [hmember, length_stored_nil, List.nil_append]
      omega),
    hadded, hmember]
  intro heq
  have hhead : some comma = some quote := congrArg List.head? (Option.some.inj heq)
  exact absurd hhead (by decide)

/-- **When `Json_addData` depends on the text alone.** On the text `t` in a buffer with room for
one member more, a run reads nothing in front of the buffer and leaves the text with that member,
and what surrounds the text does not matter, precisely when `t` is not empty. -/
theorem addData_dependsOnText_iff (p : Platform) (t : List Byte) (buffer_size : Nat)
    (key value : CString) (ht : (0 : Byte) ∉ t)
    (hsize : (extended t key value).length < buffer_size) (hrange : buffer_size < p.sizeRange) :
    (∀ before rest, buffer_size ≤ (stored t before rest).bytes.length →
      (AppendsMember p (stored t before rest) t buffer_size key value ↔ t ≠ [])) ∧
    ((∀ before rest before' rest', buffer_size ≤ (stored t before rest).bytes.length →
        buffer_size ≤ (stored t before' rest').bytes.length →
        textAfter p (stored t before rest) buffer_size key value
          = textAfter p (stored t before' rest') buffer_size key value)
      ↔ t ≠ []) := by
  constructor
  · intro before rest hobject
    constructor
    · rintro happends rfl
      exact not_appendsMember_nil happends
    · intro hne
      exact appendsMember_of_ne_nil ht hne hsize hrange hobject
  · constructor
    -- an empty text: compare the two objects that differ in the byte in front
    · rintro hsame rfl
      have hobject : ∀ before,
          buffer_size ≤ (stored [] before (List.replicate buffer_size 0)).bytes.length := by
        intro before
        rw [length_stored_nil]
        exact Nat.le_succ _
      exact textAfter_nil_ne hsize hrange (hsame _ _ _ _ (hobject quote) (hobject 0))
    · intro hne before rest before' rest' hobject hobject'
      obtain ⟨b, hrun, -, htext⟩ :=
        appendsMember_of_ne_nil ht hne hsize hrange hobject
      obtain ⟨b', hrun', -, htext'⟩ :=
        appendsMember_of_ne_nil ht hne hsize hrange hobject'
      rw [textAfter, textAfter, hrun, hrun', Option.map_some, Option.map_some, htext, htext']

/-- A member behind a member, in a buffer that it fills. -/
theorem addData_dependsOnText_second :
    AppendsMember .size64 (stored [quote] quote (List.replicate 9 0)) [quote] 10
      (.single 0x61 (by decide)) (.single 0x62 (by decide)) :=
  ((addData_dependsOnText_iff .size64 [quote] 10 (.single 0x61 (by decide))
    (.single 0x62 (by decide)) (by decide) (by decide) (by decide)).1 quote
      (List.replicate 9 0) (by decide)).mpr (by decide)

/-- An empty buffer with a quote in front of it, and one with a NUL. Both calls succeed and read the
byte in front; the first leaves a comma before the member. -/
theorem addData_reads_front :
    ∃ buffer buffer',
      addData .size64 (stored [] quote (List.replicate 15 0)) 16 (.single 0x61 (by decide))
        (.single 0x62 (by decide)) = some (true, buffer) ∧
      addData .size64 (stored [] 0 (List.replicate 15 0)) 16 (.single 0x61 (by decide))
        (.single 0x62 (by decide)) = some (true, buffer') ∧
      -1 ∈ buffer.loads ∧ -1 ∈ buffer'.loads ∧ buffer.text = comma :: buffer'.text ∧
      buffer'.text = extended [] (.single 0x61 (by decide)) (.single 0x62 (by decide)) := by
  refine ⟨_, _, rfl, rfl, ?_, ?_, ?_, ?_⟩ <;> decide

end Json
end IMUtility
