import PathRouting.Proofs.Registry.Outcome
import PathRouting.Proofs.Text.Decoding
import PathRouting.Proofs.Text.Quoting

/-!
# Messages say what they are about

The wordings of errors and of notices are fixed words around a quoted text. The words before the
text have no quotation mark, so a wording tells them from the text, and the text from the words
behind it. Other words stand in each kind of error and of notice, and so a wording tells the kind
and the text. No pattern and no captured text can pass for another one, whatever words, marks or
escapes it holds, and none can begin a line of its own.

## Main definitions

* `RegistrationError.framed`, `Notice.framed?` — the words of a message and the text that it quotes

## Main results

* `RegistrationError.message_inj`, `Notice.message_inj` — a message tells what it was made of
* `RegistrationError.shows_message`, `Notice.shows_message` — every character of a message shows
* `messages_identify_inputs` — both, with the inputs that the messages quote
-/

namespace PathRouting

open Text
open Quoted (AreAscii Shows shows_toString shows_wording standsAlone)

universe u

/-! ### Faults -/

namespace Text.Utf8.Fault

theorem message_some (n validUpTo : Nat) :
    (Fault.mk validUpTo (some n)).message =
      "invalid utf-8 sequence of " ++
        (toString n ++ (" bytes from index " ++ toString validUpTo)) := by
  rw [← String.append_assoc, ← String.append_assoc]
  rfl

theorem message_none (validUpTo : Nat) :
    (Fault.mk validUpTo none).message =
      "incomplete utf-8 byte sequence from index " ++ toString validUpTo :=
  rfl

theorem message_some_ne_none (n validUpTo validUpTo' : Nat) :
    (Fault.mk validUpTo (some n)).message ≠ (Fault.mk validUpTo' none).message := by
  rw [message_some, message_none]
  exact Notice.append_ne_append (n := 3) (by decide) (by decide) (by decide) _ _

/-- A wording tells both numbers of a fault. -/
theorem message_inj {fault fault' : Fault} (h : fault.message = fault'.message) :
    fault = fault' := by
  obtain ⟨validUpTo, invalidLength?⟩ := fault
  obtain ⟨validUpTo', invalidLength?'⟩ := fault'
  cases invalidLength? with
  | none =>
    cases invalidLength?' with
    | none =>
      rw [message_none, message_none, String.append_right_inj] at h
      rw [toString_inj h]
    | some n' => exact absurd h.symm (message_some_ne_none n' validUpTo' validUpTo)
  | some n =>
    cases invalidLength?' with
    | none => exact absurd h (message_some_ne_none n validUpTo validUpTo')
    | some n' =>
      rw [message_some, message_some, String.append_right_inj] at h
      obtain ⟨rfl, hrest⟩ := toString_append_inj rfl (by decide) h
      rw [toString_inj hrest]

theorem shows_message (fault : Fault) : Shows fault.message.toList := by
  obtain ⟨validUpTo, invalidLength?⟩ := fault
  cases invalidLength? with
  | none =>
    rw [message_none, String.toList_append]
    exact (AreAscii.shows (by decide)).append (shows_toString validUpTo)
  | some n =>
    rw [message_some, String.toList_append, String.toList_append, String.toList_append]
    exact (AreAscii.shows (by decide)).append ((shows_toString n).append
      ((AreAscii.shows (by decide)).append (shows_toString validUpTo)))

end Text.Utf8.Fault

/-! ### Errors -/

namespace RegistrationError

/-- The words of a message and the pattern that it quotes. -/
def framed : RegistrationError → Framed
  | missingLeadingSlash pattern => ⟨"the pattern must start with '/': ", pattern, ""⟩
  | emptyParamName pattern => ⟨"empty parameter name in the pattern ", pattern, ""⟩
  | catchAllNotLast pattern =>
    ⟨"a catch-all parameter must be located at the end of the pattern ", pattern, ""⟩
  | duplicatePattern pattern => ⟨"the pattern ", pattern, " has already been registered"⟩

theorem wording_framed (e : RegistrationError) : e.framed.wording = e.message := by
  cases e with
  | missingLeadingSlash pattern => exact congrArg (_ ++ ·) String.append_empty
  | emptyParamName pattern => exact congrArg (_ ++ ·) String.append_empty
  | catchAllNotLast pattern => exact congrArg (_ ++ ·) String.append_empty
  | duplicatePattern pattern => exact String.append_assoc.symm

theorem quote_notMem_front (e : RegistrationError) : '"' ∉ e.framed.front.toList := by
  cases e <;> dsimp only [framed] <;> decide

theorem framed_inj {e e' : RegistrationError} (h : e.framed = e'.framed) : e = e' := by
  -- Two kinds begin with other words, and within a kind the pattern is all that varies.
  cases e <;> cases e' <;> simp_all only [framed, Framed.mk.injEq, true_and, and_true] <;> simp at h

/-- A message tells the kind of the error and the pattern. -/
theorem message_inj {e e' : RegistrationError} (h : e.message = e'.message) : e = e' := by
  rw [← wording_framed, ← wording_framed] at h
  exact framed_inj (Framed.wording_inj e.quote_notMem_front e'.quote_notMem_front h)

theorem shows_message (e : RegistrationError) : Shows e.message.toList := by
  rw [← wording_framed]
  apply shows_wording
  · cases e <;> dsimp only [framed] <;> exact AreAscii.shows (by decide)
  · cases e <;> dsimp only [framed] <;> exact AreAscii.shows (by decide)

end RegistrationError

/-! ### Notices -/

namespace Notice

/-- The words of a message and the text that it quotes, if it quotes one. -/
def framed? : Notice → Option Framed
  | inserted pattern => some ⟨"insert a pattern: ", pattern, ""⟩
  | overwritten pattern => some ⟨"the payload of ", pattern, " is overwritten"⟩
  | truncated pattern =>
    some ⟨"the segments after the catch-all parameter are ignored: ", pattern, ""⟩
  | compiled _ _ => none
  | keptRaw raw fault => some ⟨"keep the raw value ", raw, ": " ++ fault.message⟩

variable {notice notice' : Notice} {framed : Framed}

theorem wording_of_framed? (h : notice.framed? = some framed) :
    framed.wording = notice.message := by
  cases notice with
  | inserted pattern =>
    obtain rfl := Option.some.inj h
    exact congrArg (_ ++ ·) String.append_empty
  | overwritten pattern =>
    obtain rfl := Option.some.inj h
    exact String.append_assoc.symm
  | truncated pattern =>
    obtain rfl := Option.some.inj h
    exact congrArg (_ ++ ·) String.append_empty
  | compiled size depth => cases h
  | keptRaw raw fault =>
    obtain rfl := Option.some.inj h
    rw [Framed.wording, ← String.append_assoc, ← String.append_assoc]
    rfl

theorem quote_notMem_front (h : notice.framed? = some framed) : '"' ∉ framed.front.toList := by
  cases notice with
  | compiled size depth => cases h
  | _ =>
    obtain rfl := Option.some.inj h
    dsimp only
    decide

theorem framed?_inj (h : notice.framed? = some framed) (h' : notice'.framed? = some framed) :
    notice = notice' := by
  have hsame : notice.framed? = notice'.framed? := h.trans h'.symm
  -- Only a value that is kept raw has words behind its text that are not fixed.
  cases notice with
  | compiled size depth => cases h
  | keptRaw raw fault =>
    cases notice' with
    | keptRaw raw' fault' =>
      obtain ⟨-, rfl, hback⟩ := Framed.mk.inj (Option.some.inj hsame)
      rw [Utf8.Fault.message_inj ((String.append_right_inj _).mp hback)]
    | _ => simp [framed?] at hsame
  | _ =>
    clear h h'
    cases notice' <;> simp_all [framed?]

/-- Only the summary of a compilation quotes no text. -/
theorem eq_compiled_of_framed? (h : notice.framed? = none) :
    ∃ size depth, notice = compiled size depth := by
  cases notice with
  | compiled size depth => exact ⟨size, depth, rfl⟩
  | _ => cases h

theorem message_compiled (size depth : Nat) :
    (compiled size depth).message =
      "compiled " ++ (toString size ++
        (" pattern(s) into a matcher (depth = " ++ (toString depth ++ (")" ++ "")))) := by
  rw [String.append_empty, ← String.append_assoc, ← String.append_assoc, ← String.append_assoc]
  rfl

theorem message_compiled_ne (h : notice.framed? = some framed) (size depth : Nat) :
    (compiled size depth).message ≠ notice.message := by
  rw [message_compiled, ← wording_of_framed? h, Framed.wording]
  cases notice with
  | compiled size depth => cases h
  | _ =>
    obtain rfl := Option.some.inj h
    dsimp only
    exact append_ne_append (n := 1) (by decide) (by decide) (by decide) _ _

/-- A message tells the kind of the notice and what it reports. -/
theorem message_inj (h : notice.message = notice'.message) : notice = notice' := by
  -- A summary has numbers where the others have a quoted text, so it is told apart by its words.
  cases hframed : notice.framed? with
  | some framed =>
    cases hframed' : notice'.framed? with
    | some framed' =>
      rw [← wording_of_framed? hframed, ← wording_of_framed? hframed'] at h
      obtain rfl :=
        Framed.wording_inj (quote_notMem_front hframed) (quote_notMem_front hframed') h
      exact framed?_inj hframed hframed'
    | none =>
      obtain ⟨size, depth, rfl⟩ := eq_compiled_of_framed? hframed'
      exact absurd h.symm (message_compiled_ne hframed size depth)
  | none =>
    obtain ⟨size, depth, rfl⟩ := eq_compiled_of_framed? hframed
    cases hframed' : notice'.framed? with
    | some framed' => exact absurd h (message_compiled_ne hframed' size depth)
    | none =>
      obtain ⟨size', depth', rfl⟩ := eq_compiled_of_framed? hframed'
      rw [message_compiled, message_compiled, String.append_right_inj] at h
      obtain ⟨rfl, hrest⟩ := toString_append_inj rfl (by decide) h
      obtain ⟨rfl, -⟩ := toString_append_inj rfl (by decide) hrest
      rfl

theorem shows_message (notice : Notice) : Shows notice.message.toList := by
  cases hframed : notice.framed? with
  | none =>
    obtain ⟨size, depth, rfl⟩ := eq_compiled_of_framed? hframed
    simp only [message_compiled, String.append_empty, String.toList_append]
    exact (AreAscii.shows (by decide)).append ((shows_toString size).append
      ((AreAscii.shows (by decide)).append ((shows_toString depth).append
        (AreAscii.shows (by decide)))))
  | some framed =>
    rw [← wording_of_framed? hframed]
    cases notice with
    | compiled size depth => cases hframed
    | keptRaw raw fault =>
      obtain rfl := Option.some.inj hframed
      refine shows_wording (AreAscii.shows (by dsimp only; decide)) ?_
      rw [String.toList_append]
      exact (AreAscii.shows (by decide)).append fault.shows_message
    | _ =>
      obtain rfl := Option.some.inj hframed
      exact shows_wording (AreAscii.shows (by dsimp only; decide))
        (AreAscii.shows (by dsimp only; decide))

end Notice

/-! ### Inputs -/

section Inputs

variable {α : Type u}

/-- A request reports about its own pattern only. -/
theorem Registry.mem_notices_register {registry : Registry α} {pattern : String} {payload : α}
    {notice : Notice} (h : notice ∈ (registry.register pattern payload).notices) :
    notice ∈ [.truncated pattern, .overwritten pattern, .inserted pattern] := by
  have htruncation : ∀ notice ∈ truncation pattern, notice = .truncated pattern := by
    intro notice hmem
    rw [truncation] at hmem
    split at hmem
    · exact List.mem_singleton.mp hmem
    · cases hmem
  have hstep := registry.step_register pattern payload
  generalize registry.register pattern payload = result at h hstep
  cases hstep with
  | invalid => cases h
  | duplicate => simp [htruncation notice h]
  | replaced =>
    rcases List.mem_append.mp h with h | h
    · simp [htruncation notice h]
    · exact List.mem_cons_of_mem _ h
  | added =>
    rcases List.mem_append.mp h with h | h
    · simp [htruncation notice h]
    · simp [List.mem_singleton.mp h]

/-- What is decoded is reported about with the captured text itself. -/
theorem CapturedValue.exists_fault_of_mem_notices {raw : String} {notice : Notice}
    (h : notice ∈ (CapturedValue.decode raw).notices) : ∃ fault, notice = .keptRaw raw fault := by
  rw [notices_decode, keptRaw?] at h
  split at h
  · cases h
  · rename_i fault _
    exact ⟨fault, List.mem_singleton.mp h⟩

/-- A message of an error tells its kind and its pattern, and a message of a notice tells its kind
and all that it reports. The pattern is that of the request, the captured text that which is
decoded. And no message has a control in it, a line feed for one, or a separator of lines or of
paragraphs, nor any other character that does not show, whatever the pattern or the text is. -/
theorem messages_identify_inputs :
    (∀ e e' : RegistrationError, e.message = e'.message → e = e') ∧
      (∀ notice notice' : Notice, notice.message = notice'.message → notice = notice') ∧
      (∀ (registry : Registry α) (pattern : String) (payload : α),
        (∀ e, (registry.register pattern payload).outcome = .error e → e.pattern = pattern) ∧
        ∀ notice ∈ (registry.register pattern payload).notices,
          notice ∈ [.truncated pattern, .overwritten pattern, .inserted pattern]) ∧
      (∀ raw, ∀ notice ∈ (CapturedValue.decode raw).notices, ∃ fault,
        notice = .keptRaw raw fault) ∧
      (∀ e : RegistrationError, ∀ c ∈ e.message.toList, standsAlone c = true ∧ IsInline c) ∧
      ∀ notice : Notice, ∀ c ∈ notice.message.toList, standsAlone c = true ∧ IsInline c := by
  refine ⟨fun _ _ => RegistrationError.message_inj, fun _ _ => Notice.message_inj, ?_,
    fun _ _ => CapturedValue.exists_fault_of_mem_notices, ?_, ?_⟩
  · intro registry pattern payload
    exact ⟨fun e => Registry.pattern_of_outcome_register,
      fun notice => Registry.mem_notices_register⟩
  · intro e c hc
    exact ⟨e.shows_message c hc, e.shows_message.isInline c hc⟩
  · intro notice c hc
    exact ⟨notice.shows_message c hc, notice.shows_message.isInline c hc⟩

/-- A control and the text of its escape, a pattern that closes its quotation mark and goes on in
the words of another error, and a captured text that breaks its line. -/
theorem messages_identify_inputs_imitation :
    (RegistrationError.missingLeadingSlash "\x01").message ≠
        (RegistrationError.missingLeadingSlash "\\u\x7b1\x7d").message ∧
      (RegistrationError.duplicatePattern "/").message ≠
        (RegistrationError.duplicatePattern "/\" has already been registered").message ∧
      ∀ notice ∈ (CapturedValue.decode "%ff\n").notices,
        notice.message.toList.all (· != '\n') = true := by
  obtain ⟨herrors, -, -, -, -, hnotices⟩ := messages_identify_inputs (α := Nat)
  refine ⟨fun h => ?_, fun h => ?_, ?_⟩
  · simpa using herrors _ _ h
  · simpa using herrors _ _ h
  · intro notice _
    rw [List.all_eq_true]
    intro c hc
    rw [bne_iff_ne]
    rintro rfl
    exact (hnotices notice _ hc).2.notControl (by decide)

end Inputs

end PathRouting
