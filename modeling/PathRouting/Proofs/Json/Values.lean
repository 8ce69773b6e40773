import PathRouting.Proofs.Json.Tokens

/-!
# Passing over values

A value is passed over up to its end, however deep it is nested and whatever brackets, commas
and quotation marks the texts in it have. What is due behind it is the same with and without
the value.

The reader keeps the open brackets in a list and moves on one token at a time, so there is one
lemma for each of its moves. A value in brackets then follows by induction on its items, and
nesting by induction on the value.

## Main definitions

* `Json.PassedOver` — a value is passed over up to its end

## Main results

* `Json.skip_joined` — items are passed over if their values are
* `Json.IsValue.passedOver` — every value is passed over
* `Json.skipValue_append` — what is left behind a value
-/

namespace PathRouting.Json

variable {frame : Frame} {frames : List Frame} {text rest : List Char} {c : Char}

/-! ### Moves -/

theorem skipBlanks_cons (hc : isBlank c = false) (rest : List Char) :
    skipBlanks (c :: rest) = c :: rest :=
  List.dropWhile_cons_of_neg (by simp [hc])

/-- The first character behind the blanks is none itself. -/
theorem isBlank_of_skipBlanks (h : skipBlanks text = c :: rest) : isBlank c = false := by
  have hhead := List.head?_dropWhile_not isBlank text
  rw [← skipBlanks, h] at hhead
  simpa using hhead

/-- Where a value is due, its first character tells what to do. -/
theorem skip_value (h : skipBlanks text = c :: rest) :
    skip .value frames text =
      if c = '[' then skip (.item true) (.list :: frames) rest
      else if c = '\x7b' then skip (.item true) (.object :: frames) rest
      else skipScalar (c :: rest) >>= skip (.item false) frames := by
  rw [skip]
  -- The text behind the blanks is known, so one branch is left; each bracket has its own.
  split <;> rename_i hblank <;> rw [h] at hblank <;> cases hblank
  split
  · rfl
  split
  · rfl
  split <;> rename_i hskip <;> rw [hskip] <;> rfl

/-- Where an item is due, so does the first character. -/
theorem skip_item {isFirst : Bool} (h : skipBlanks text = c :: rest) :
    skip (.item isFirst) (frame :: frames) text =
      if c = frame.closing then skip (.item false) frames rest
      else if isFirst then frame.skipKey (c :: rest) >>= skip .value (frame :: frames)
      else if c = ',' then frame.skipKey rest >>= skip .value (frame :: frames)
      else faultAfter 1 frame.separatorCause (c :: rest) := by
  rw [skip]
  split <;> rename_i hblank <;> rw [h] at hblank <;> cases hblank
  split
  · rfl
  split
  · split <;> rename_i hkey <;> rw [hkey] <;> rfl
  split
  · split <;> rename_i hkey <;> rw [hkey] <;> rfl
  · rfl

theorem skip_opening (frame : Frame) (frames : List Frame) (rest : List Char) :
    skip .value frames (frame.opening :: rest) = skip (.item true) (frame :: frames) rest := by
  cases frame with
  | list => rw [Frame.opening, skip_value (skipBlanks_cons rfl rest), if_pos rfl]
  | object =>
    rw [Frame.opening, skip_value (skipBlanks_cons rfl rest), if_neg (by decide), if_pos rfl]

theorem isBlank_closing (frame : Frame) : isBlank frame.closing = false := by
  cases frame <;> rfl

theorem skip_closing {isFirst : Bool} {blanks : List Char} (h : IsBlanks blanks) :
    skip (.item isFirst) (frame :: frames) (blanks ++ frame.closing :: rest)
      = skip (.item false) frames rest := by
  rw [skip_item (h.skipBlanks_append_cons (isBlank_closing frame) rest), if_pos rfl]

theorem skip_comma {blanks : List Char} (h : IsBlanks blanks) :
    skip (.item false) (frame :: frames) (blanks ++ ',' :: rest)
      = frame.skipKey rest >>= skip .value (frame :: frames) := by
  have hc : ',' ≠ frame.closing := by cases frame <;> decide
  rw [skip_item (h.skipBlanks_append_cons rfl rest), if_neg hc, if_neg (by simp), if_pos rfl]

/-- A value may have blanks before it. -/
theorem skip_value_append {blanks : List Char} (h : IsBlanks blanks)
    (hblank : skipBlanks text = c :: rest) :
    skip .value frames (blanks ++ text) = skip .value frames text := by
  rw [skip_value hblank, skip_value ((h.skipBlanks_append text).trans hblank)]

/-- An item that is the first one needs no comma. -/
theorem skip_first (h : skipBlanks text = c :: rest) (hc : c ≠ frame.closing) :
    skip (.item true) (frame :: frames) text
      = frame.skipKey text >>= skip .value (frame :: frames) := by
  have hsame : skipBlanks (c :: rest) = c :: rest := skipBlanks_cons (isBlank_of_skipBlanks h) rest
  rw [skip_item h, if_neg hc, if_pos rfl]
  -- The blanks are off the text already, which makes no difference to what comes next.
  cases frame with
  | list =>
    simp only [Frame.skipKey, ok_bind]
    rw [skip_value h, skip_value hsame]
  | object => simp only [Frame.skipKey, h, hsame]

/-! ### Items -/

/-- The value is passed over up to its end, whatever is due behind it. -/
def PassedOver (value : List Char) : Prop :=
  ∀ frames rest, MayFollow rest →
    skip .value frames (value ++ rest) = skip (.item false) frames rest

/-- The text begins like a value: neither with a blank nor with a closing bracket. -/
def BeginsValue (text : List Char) : Prop :=
  ∃ c rest, text = c :: rest ∧ c ∉ [' ', '\t', '\r', '\n', ']', '\x7d']

theorem BeginsValue.append (h : BeginsValue text) (rest : List Char) :
    BeginsValue (text ++ rest) := by
  obtain ⟨c, front, rfl, hc⟩ := h
  exact ⟨c, front ++ rest, rfl, hc⟩

theorem BeginsValue.exists_cons (h : BeginsValue text) :
    ∃ c rest, text = c :: rest ∧ skipBlanks text = c :: rest ∧
      ∀ frame : Frame, c ≠ frame.closing := by
  obtain ⟨c, rest, rfl, hc⟩ := h
  simp only [List.mem_cons, List.not_mem_nil, or_false, not_or] at hc
  have hblank : isBlank c = false := isBlank_eq_false_iff.mpr (by simp [hc])
  refine ⟨c, rest, rfl, skipBlanks_cons hblank rest, fun frame => ?_⟩
  cases frame with
  | list => exact hc.2.2.2.2.1
  | object => exact hc.2.2.2.2.2

/-- What stands before a value is passed over, but for some blanks. -/
theorem skipKey_append {lead : List Char} (h : frame.IsLead IsBody lead) (rest : List Char) :
    ∃ blanks, IsBlanks blanks ∧ frame.skipKey (lead ++ rest) = .ok (blanks ++ rest) := by
  cases frame with
  | list => exact ⟨lead, h, rfl⟩
  | object =>
    obtain ⟨raw, back, blanks, hraw, hblanks, hskip, hcolon⟩ := IsKey.exists_read h
    refine ⟨blanks, hblanks, ?_⟩
    simp only [Frame.skipKey, hskip, ↓reduceIte, skipString_append hraw, ok_bind, hcolon]

/-- A first item does not begin with the bracket that closes the frame. -/
theorem exists_skipBlanks_of_isLead {lead : List Char} (h : frame.IsLead IsBody lead)
    (hrest : BeginsValue rest) :
    ∃ c left, skipBlanks (lead ++ rest) = c :: left ∧ c ≠ frame.closing := by
  cases frame with
  | list =>
    obtain ⟨c, left, -, hblank, hc⟩ := hrest.exists_cons
    exact ⟨c, left, (IsBlanks.skipBlanks_append h rest).trans hblank, hc .list⟩
  | object =>
    obtain ⟨raw, back, -, -, -, hskip, -⟩ := IsKey.exists_read h
    exact ⟨'"', _, hskip rest, by decide⟩

/-- An item up to its end, and what is due behind it. -/
theorem skip_text {item : Item} (hlead : frame.IsLead IsBody item.lead)
    (hbegins : BeginsValue item.value) (hvalue : PassedOver item.value)
    (hafter : IsBlanks item.after) (hrest : MayFollow rest) :
    frame.skipKey (item.text ++ rest) >>= skip .value (frame :: frames)
      = skip (.item false) (frame :: frames) (item.after ++ rest) := by
  obtain ⟨blanks, hblanks, hkey⟩ := skipKey_append hlead (item.value ++ (item.after ++ rest))
  obtain ⟨c, left, -, hblank, -⟩ := (hbegins.append (item.after ++ rest)).exists_cons
  rw [Item.text, List.append_assoc, List.append_assoc, hkey, ok_bind,
    skip_value_append hblanks hblank, hvalue _ _ (hafter.mayFollow_append hrest)]

@[simp] theorem Item.joined_singleton (item : Item) : Item.joined [item] = item.text := by
  simp [Item.joined]

@[simp] theorem Item.joined_cons_cons (item next : Item) (items : List Item) :
    Item.joined (item :: next :: items) = item.text ++ ',' :: Item.joined (next :: items) := by
  simp [Item.joined]

/-- Some items begin with the first one. -/
theorem Item.exists_joined_cons (item : Item) (items : List Item) :
    ∃ left, Item.joined (item :: items) = item.text ++ left := by
  cases items with
  | nil => exact ⟨[], by simp⟩
  | cons next items => exact ⟨_, Item.joined_cons_cons item next items⟩

theorem mayFollow_closing (frame : Frame) (rest : List Char) :
    MayFollow (frame.closing :: rest) := by
  cases frame <;> simp [MayFollow, Frame.closing]

theorem mayFollow_comma (rest : List Char) : MayFollow (',' :: rest) := by
  simp [MayFollow]

/-- Items are passed over up to the bracket behind them if their values are. -/
theorem skip_joined {items : List Item} (hne : items ≠ [])
    (hlead : ∀ item ∈ items, frame.IsLead IsBody item.lead)
    (hbegins : ∀ item ∈ items, BeginsValue item.value)
    (hvalue : ∀ item ∈ items, PassedOver item.value)
    (hafter : ∀ item ∈ items, IsBlanks item.after) :
    frame.skipKey (Item.joined items ++ frame.closing :: rest) >>= skip .value (frame :: frames)
      = skip (.item false) frames rest := by
  induction items with
  | nil => exact absurd rfl hne
  | cons item items ih =>
    simp only [List.forall_mem_cons] at hlead hbegins hvalue hafter
    cases items with
    | nil =>
      rw [Item.joined_singleton, skip_text hlead.1 hbegins.1 hvalue.1 hafter.1
        (mayFollow_closing frame rest), skip_closing hafter.1]
    | cons next items =>
      -- The comma makes the rest of the items due, which are passed over by induction.
      rw [Item.joined_cons_cons, List.append_assoc, List.cons_append,
        skip_text hlead.1 hbegins.1 hvalue.1 hafter.1 (mayFollow_comma _), skip_comma hafter.1]
      exact ih (by simp) hlead.2 hbegins.2 hvalue.2 hafter.2

/-- The first of some items does not begin with the bracket that closes the frame. -/
theorem exists_skipBlanks_joined {items : List Item} (hne : items ≠ [])
    (hlead : ∀ item ∈ items, frame.IsLead IsBody item.lead)
    (hbegins : ∀ item ∈ items, BeginsValue item.value) (rest : List Char) :
    ∃ c left, skipBlanks (Item.joined items ++ rest) = c :: left ∧ c ≠ frame.closing := by
  cases items with
  | nil => exact absurd rfl hne
  | cons item items =>
    simp only [List.forall_mem_cons] at hlead hbegins
    obtain ⟨left, hjoined⟩ := Item.exists_joined_cons item items
    rw [hjoined, Item.text, List.append_assoc, List.append_assoc]
    exact exists_skipBlanks_of_isLead hlead.1 ((hbegins.1.append _).append _)

/-! ### Values -/

theorem AreDigits.exists_head {digits : List Char} (h : AreDigits digits) :
    ∃ c rest, digits = c :: rest ∧ c.isDigit = true := by
  obtain ⟨hne, hdigits⟩ := h
  cases digits with
  | nil => exact absurd rfl hne
  | cons c rest => exact ⟨c, rest, rfl, hdigits c List.mem_cons_self⟩

theorem IsUnsigned.exists_head (h : IsUnsigned text) :
    ∃ c rest, text = c :: rest ∧ c.isDigit = true := by
  obtain @⟨whole, fraction, exponent, hwhole, -, -⟩ := h
  have hhead : ∃ c rest, whole = c :: rest ∧ c.isDigit = true := by
    rcases hwhole with rfl | ⟨hdigits, -⟩
    · exact ⟨'0', [], rfl, rfl⟩
    · exact hdigits.exists_head
  obtain ⟨c, digits, rfl, hc⟩ := hhead
  exact ⟨c, digits ++ (fraction ++ exponent), rfl, hc⟩

/-- A digit is no other character. -/
theorem notMem_of_isDigit (hc : c.isDigit = true) {others : List Char}
    (hothers : ∀ d ∈ others, d.isDigit = false) : c ∉ others := by
  intro hmem
  rw [hothers c hmem] at hc
  cases hc

/-- A text that begins no list and no object is passed over as a scalar. -/
theorem passedOver_of_skipScalar
    (hc : c ∉ [' ', '\t', '\r', '\n', '[', '\x7b'])
    (h : ∀ left, MayFollow left → skipScalar (c :: rest ++ left) = .ok left) :
    PassedOver (c :: rest) := by
  intro frames left hleft
  simp only [List.mem_cons, List.not_mem_nil, or_false, not_or] at hc
  have hblank : isBlank c = false := isBlank_eq_false_iff.mpr (by simp [hc])
  rw [List.cons_append, skip_value (skipBlanks_cons hblank _), if_neg hc.2.2.2.2.1,
    if_neg hc.2.2.2.2.2, ← List.cons_append, h left hleft, ok_bind]

theorem passedOver_word (h : text ∈ words) : PassedOver text := by
  simp only [words, List.mem_cons, List.not_mem_nil, or_false] at h
  rcases h with rfl | rfl | rfl
  · exact passedOver_of_skipScalar (by decide) fun left _ => readWord_append ['u', 'l', 'l'] left
  · exact passedOver_of_skipScalar (by decide) fun left _ => readWord_append ['r', 'u', 'e'] left
  · exact passedOver_of_skipScalar (by decide) fun left _ =>
      readWord_append ['a', 'l', 's', 'e'] left

theorem passedOver_string {raw : List Char} (h : IsBody raw) :
    PassedOver ('"' :: (raw ++ ['"'])) := by
  refine passedOver_of_skipScalar (by decide) fun left _ => ?_
  rw [List.cons_append, List.append_assoc]
  exact skipString_append h left

theorem passedOver_number (h : IsNumber text) : PassedOver text := by
  cases h with
  | positive hnumber =>
    obtain ⟨c, rest, rfl, hc⟩ := hnumber.exists_head
    refine passedOver_of_skipScalar (notMem_of_isDigit hc (by simp)) fun left hleft => ?_
    obtain ⟨n, hread⟩ := readNumeral_append .invalidNumber hnumber hleft
    -- A digit begins no word and no text, so the number is what is read.
    have hother : c ∉ ['n', 't', 'f', '"', '-'] := notMem_of_isDigit hc (by simp)
    simp only [List.mem_cons, List.not_mem_nil, or_false, not_or] at hother
    obtain ⟨hn, ht, hf, hquote, hminus⟩ := hother
    rw [List.cons_append] at hread ⊢
    simp only [skipScalar, hn, ht, hf, hquote, hminus, hc, ↓reduceIte, hread, ok_bind]
  | @negative text hnumber =>
    refine passedOver_of_skipScalar (by decide) fun left hleft => ?_
    obtain ⟨n, hread⟩ := readNumeral_append .invalidNumber hnumber hleft
    rw [List.cons_append]
    simp only [skipScalar, Char.reduceEq, ↓reduceIte, hread, ok_bind]

theorem IsValue.beginsValue (h : IsValue text) : BeginsValue text := by
  cases h with
  | word h =>
    simp only [words, List.mem_cons, List.not_mem_nil, or_false] at h
    rcases h with rfl | rfl | rfl <;> exact ⟨_, _, rfl, by decide⟩
  | number h =>
    cases h with
    | positive h =>
      obtain ⟨c, rest, rfl, hc⟩ := h.exists_head
      exact ⟨c, rest, rfl, notMem_of_isDigit hc (by simp)⟩
    | negative h => exact ⟨'-', _, rfl, by decide⟩
  | string h => exact ⟨'"', _, rfl, by decide⟩
  | @enclosed frame _ _ _ _ _ _ => exact ⟨frame.opening, _, rfl, by cases frame <;> decide⟩

/-- Every value is passed over up to its end. -/
theorem IsValue.passedOver (h : IsValue text) : PassedOver text := by
  induction h with
  | word h => exact passedOver_word h
  | number h => exact passedOver_number h
  | string h => exact passedOver_string h
  | @enclosed frame items inner hinside hlead hvalue hafter ih =>
    intro frames rest _
    rw [List.cons_append, List.append_assoc, List.singleton_append, skip_opening]
    cases hinside with
    | blanks hblanks => exact skip_closing hblanks
    | items hne =>
      -- The values of the items are passed over by induction.
      have hbegins : ∀ item ∈ items, BeginsValue item.value :=
        fun item hitem => (hvalue item hitem).beginsValue
      obtain ⟨c, left, hblank, hc⟩ :=
        exists_skipBlanks_joined hne hlead hbegins (frame.closing :: rest)
      rw [skip_first hblank hc, skip_joined hne hlead hbegins ih hafter]

/-- What is left behind a value that blanks stand before. -/
theorem skipValue_append {blanks : List Char} (hblanks : IsBlanks blanks) (h : IsValue text)
    (hrest : MayFollow rest) : skipValue (blanks ++ (text ++ rest)) = .ok rest := by
  obtain ⟨c, left, -, hblank, -⟩ := (h.beginsValue.append rest).exists_cons
  rw [skipValue, skip_value_append hblanks hblank, h.passedOver [] rest hrest, skip]

end PathRouting.Json
