import PathRouting.Matcher.Lookup
import PathRouting.Proofs.Path.Ends

/-!
# The walk on bytes

A walk can keep the whole path and a byte offset in place of the characters that are left. It
then cuts slices out of the path, and a slice fails where it reaches beyond the end or begins
or ends inside a character. No walk from the beginning of a path fails: every offset that it
comes to stands between two characters. A literal is compared byte by byte, but bytes that are
equal are the bytes of equal characters; and where a part ends there is a slash, which is a
byte of its own.

## Main definitions

* `Matcher.walk` — the walk on bytes, with the places it came to
* `Matcher.lookupSliced` — the match of a path by that walk, with what was reported
* `Matcher.Visit.Stands` — the text of a literal stands at the place where it is compared
* `Matcher.Visit.Within` — a place, and the end of what is taken off there, between characters

## Main results

* `Matcher.walk_agrees` — where it starts at a cursor, the walk finds what `Matcher.find` finds
* `Matcher.lookupSliced_eq` — no lookup leaves the path or cuts a character
* `Matcher.lookupSliced_stop_outside` — but the end of a literal is computed before its text is
  compared
-/

namespace PathRouting

universe u

namespace Matcher

open Text

variable {α : Type u}

/-! ### The walk -/

/-- A place that a walk comes to, and the end of what a node there may take off the path. -/
structure Visit where
  /-- The offset. -/
  cursor : Nat
  /-- The offset of the end that is computed there, if one is. -/
  stop? : Option Nat
  /-- The text that is compared with the path up to this end, if the node is a literal. -/
  text? : Option String := none

/-- What a walk gives: the places it came to, the payload, and the trail afterwards. -/
structure Walked (α : Type u) where
  /-- The places, in the order in which the walk came to them. -/
  visits : List Visit
  /-- The payload. -/
  payload : Option α
  /-- The trail. -/
  trail : Trail

namespace Walked

/-- A walk that comes to one place and goes no further. -/
def single (visit : Visit) (payload : Option α) (trail : Trail) : Walked α :=
  ⟨[visit], payload, trail⟩

/-- A walk that came to other places before. -/
def afterAll (visits : List Visit) (walked : Walked α) : Walked α :=
  { walked with visits := visits ++ walked.visits }

/-- A walk that came to another place before. -/
def after (visit : Visit) (walked : Walked α) : Walked α :=
  walked.afterAll [visit]

end Walked

/-- Goes on with a slice if it can be taken. -/
def withSlice {β : Type} {γ : Type u} (slice : Except SliceFault β)
    (go : β → Except SliceFault γ) : Except SliceFault γ :=
  match slice with
  | .ok piece => go piece
  | .error fault => .error fault

mutual

/-- The walk along a path from an offset on. A literal computes the end of its text first, and
takes the text off where the bytes up to there are the same. If they are not, or are too few, it
takes nothing off, and gives up the end, which may lie inside a character or beyond the path. -/
def walk (path : String) : Matcher α → Nat → Trail → Except SliceFault (Walked α)
  | literal text _ child, i, trail =>
    let stop := i + text.utf8ByteSize
    let visit := Visit.mk i (some stop) (some text)
    if path.utf8ByteSize < stop then .ok (.single visit none trail)
    else
      withSlice (sliceBytes (Utf8.encode path.toList) i stop) fun front =>
        if front = Utf8.encode text.toList then (walk path child stop trail).map (.after visit)
        else .ok (.single visit none trail)
  | dispatch entries, i, trail =>
    withSlice (segmentEnd (Utf8.encode path.toList) i) fun stop =>
      withSlice (sliceText path i stop) fun part =>
        (walkEntry path entries part stop trail).map (.after { cursor := i, stop? := some stop })
  | wild name child, i, trail =>
    if path.utf8ByteSize ≤ i ∨ (Utf8.encode path.toList)[i]? = some slash then
      .ok (.single { cursor := i, stop? := none } none trail)
    else
      -- The loop runs over what is ahead, which can be cut out since the end is not reached.
      withSlice (sliceBytes (Utf8.encode path.toList) i path.utf8ByteSize) fun _ =>
        let (stop, hasPercent) := scanLoop (Utf8.encode path.toList) i
        let visit := Visit.mk i (some stop) none
        match walk path child stop trail with
        | .error fault => .error fault
        | .ok ⟨visits, none, trail⟩ => .ok (.after visit ⟨visits, none, trail⟩)
        | .ok ⟨visits, some payload, trail⟩ =>
          withSlice (sliceText path i stop) fun part =>
            .ok (.after visit
              ⟨visits, some payload, trail.keep name (.decodeFlagged part hasPercent)⟩)
  | catchAll name payload, i, trail =>
    if path.utf8ByteSize < i then .ok (.single { cursor := i, stop? := none } none trail)
    else
      withSlice (sliceText path i path.utf8ByteSize) fun rest =>
        .ok (.single { cursor := i, stop? := some path.utf8ByteSize } (some payload)
          (trail.keep name (.decode rest)))
  | leaf payload, i, trail =>
    .ok (.single { cursor := i, stop? := none }
      (if i = path.utf8ByteSize then payload else none) trail)
  | choice members, i, trail =>
    (walkMember path members i trail).map (.after { cursor := i, stop? := none })

/-- The walk through the entry of a table with the given key. -/
def walkEntry (path : String) :
    List (String × Matcher α) → String → Nat → Trail → Except SliceFault (Walked α)
  | [], _, _, trail => .ok ⟨[], none, trail⟩
  | (key, child) :: rest, part, i, trail =>
    if part = key then walk path child i trail else walkEntry path rest part i trail

/-- The walk through matchers that are tried in turn. -/
def walkMember (path : String) :
    List (Matcher α) → Nat → Trail → Except SliceFault (Walked α)
  | [], _, trail => .ok ⟨[], none, trail⟩
  | member :: rest, i, trail =>
    match walk path member i trail with
    | .error fault => .error fault
    | .ok ⟨visits, some payload, trail⟩ => .ok ⟨visits, some payload, trail⟩
    | .ok ⟨visits, none, trail⟩ => (walkMember path rest i trail).map (.afterAll visits)

end

/-- The match of a path by the walk on bytes, with what was reported and the places that the
walk came to. -/
def lookupSliced (m : Matcher α) (path : String) :
    Except SliceFault (List Visit × Option (Match α) × List Notice) := do
  let walked ← m.walk path 0 .empty
  return (walked.visits, walked.payload.map (⟨·, walked.trail.captures⟩), walked.trail.notices)

/-! ### The walk stays between characters -/

namespace Visit

/-- If the node is a literal, then the bytes of its text stand at the place. -/
def Stands (path : String) (visit : Visit) : Prop :=
  ∀ text, visit.text? = some text →
    sliceBytes (Utf8.encode path.toList) visit.cursor (visit.cursor + text.utf8ByteSize) =
      .ok (Utf8.encode text.toList)

/-- A place between two characters of the path. The end that is computed there is such a place as
well, unless it is the end of a literal text that does not stand there. -/
structure Within (path : String) (visit : Visit) : Prop where
  cursor_le : visit.cursor ≤ path.utf8ByteSize
  isValid_cursor : (⟨visit.cursor⟩ : String.Pos.Raw).IsValid path
  stop_within : ∀ stop, visit.stop? = some stop → visit.Stands path →
    visit.cursor ≤ stop ∧ stop ≤ path.utf8ByteSize ∧ (⟨stop⟩ : String.Pos.Raw).IsValid path
  stop_of_literal : ∀ text, visit.text? = some text →
    visit.stop? = some (visit.cursor + text.utf8ByteSize)

variable {path : String} {i : Nat} {front ahead : List Char}

theorem within_of_cursor (h : Cursor path i ahead) :
    Within path { cursor := i, stop? := none } :=
  ⟨h.le_size, h.isValid, fun _ hstop => (nomatch hstop), fun _ htext => (nomatch htext)⟩

theorem within_of_advance (h : Cursor path i (front ++ ahead)) :
    Within path { cursor := i, stop? := some (i + Utf8.size front) } := by
  refine ⟨h.le_size, h.isValid, ?_, fun _ htext => (nomatch htext)⟩
  intro stop hstop _
  obtain rfl := Option.some.inj hstop
  exact ⟨Nat.le_add_right _ _, h.advance.le_size, h.advance.isValid⟩

/-- The end of a literal counts only where its characters are ahead. -/
theorem within_of_literal (h : Cursor path i ahead) (text : String) :
    Within path ⟨i, some (i + text.utf8ByteSize), some text⟩ := by
  refine ⟨h.le_size, h.isValid, ?_, ?_⟩
  · intro stop hstop hstands
    obtain rfl := Option.some.inj hstop
    have hslice := hstands text rfl
    rw [← Utf8.size_toList, h.sliceBytes_eq_encode_iff] at hslice
    obtain ⟨rest, rfl⟩ := hslice
    have hadvance := h.advance
    rw [Utf8.size_toList] at hadvance
    exact ⟨Nat.le_add_right _ _, hadvance.le_size, hadvance.isValid⟩
  · intro text' htext'
    obtain rfl := Option.some.inj htext'
    rfl

end Visit

/-- A walk did not fail, found what is given, and came only to places between characters. -/
def Agrees (path : String) (outcome : Except SliceFault (Walked α)) (found : Option α × Trail) :
    Prop :=
  ∃ visits, outcome = .ok ⟨visits, found.1, found.2⟩ ∧ ∀ visit ∈ visits, visit.Within path

namespace Agrees

variable {path : String} {outcome : Except SliceFault (Walked α)} {found : Option α × Trail}

theorem single {visit : Visit} {payload : Option α} {trail : Trail} (h : visit.Within path) :
    Agrees path (.ok (.single visit payload trail)) (payload, trail) :=
  ⟨[visit], rfl, by simpa using h⟩

theorem afterAll (h : Agrees path outcome found) {visits : List Visit}
    (hvisits : ∀ visit ∈ visits, visit.Within path) :
    Agrees path (outcome.map (.afterAll visits)) found := by
  obtain ⟨others, rfl, hothers⟩ := h
  exact ⟨visits ++ others, rfl, List.forall_mem_append.mpr ⟨hvisits, hothers⟩⟩

theorem after (h : Agrees path outcome found) {visit : Visit} (hvisit : visit.Within path) :
    Agrees path (outcome.map (.after visit)) found :=
  h.afterAll (by simpa using hvisit)

end Agrees

/-- A parameter takes nothing just if the next part is empty. -/
theorem blocked_iff {path : String} {i : Nat} {part : List Char} {more : List (List Char)}
    (hpart : '/' ∉ part) (h : Cursor path i (part ++ Path.join more)) :
    (path.utf8ByteSize ≤ i ∨ (Utf8.encode path.toList)[i]? = some slash) ↔ part = [] := by
  rw [h.getElem?_eq]
  cases part with
  | nil =>
    refine iff_of_true ?_ rfl
    rw [List.nil_append] at h ⊢
    rcases Path.join_eq_nil_or_slash more with hjoin | ⟨rest, hjoin⟩
    · left
      have hsize := h.size_eq
      rw [hjoin, Utf8.size_nil] at hsize
      exact Nat.le_of_eq hsize
    · right
      rw [hjoin]
      rfl
  | cons c part =>
    refine iff_of_false ?_ (List.cons_ne_nil c part)
    rintro (hend | hslash)
    · -- There is a character ahead.
      have hpos := c.utf8Size_pos
      rw [h.size_eq, List.cons_append, Utf8.size_cons] at hend
      omega
    · -- Its first byte would be a slash.
      apply slash_notMem_encode hpart
      obtain ⟨first, tail, hbytes, -⟩ := Utf8.front_encodeChar c []
      rw [List.cons_append, Utf8.encode_cons, hbytes] at hslash
      obtain rfl := Option.some.inj hslash
      rw [Utf8.encode_cons, hbytes]
      exact List.mem_cons_self

mutual

/-- From a cursor on, the walk on bytes does not fail, and finds what the walk on characters
finds. -/
theorem walk_agrees (m : Matcher α) {path : String} {i : Nat} {ahead : List Char}
    (h : Cursor path i ahead) (trail : Trail) :
    Agrees path (m.walk path i trail) (m.find ahead trail) := by
  cases m with
  | literal text depth child =>
    have hvisit := Visit.within_of_literal h text
    rw [walk, find]
    rw [← Utf8.size_toList text] at hvisit ⊢
    cases hprefix : text.toList.isPrefixOf? ahead with
    | some rest =>
      obtain rfl := List.isPrefixOf?_eq_some_iff_append_eq.mp hprefix
      have hfits := h.advance.le_size
      have hsame := Utf8.take_encode_eq_iff.mpr (List.prefix_append text.toList rest)
      rw [if_neg (Nat.not_lt.mpr hfits), h.sliceBytes_eq hfits, withSlice, if_pos hsame]
      exact (walk_agrees child h.advance trail).after hvisit
    | none =>
      have hdiffer : ¬ text.toList <+: ahead := by
        rintro ⟨rest, hrest⟩
        rw [List.isPrefixOf?_eq_some_iff_append_eq.mpr hrest] at hprefix
        cases hprefix
      by_cases hfits : i + Utf8.size text.toList ≤ path.utf8ByteSize
      · rw [if_neg (Nat.not_lt.mpr hfits), h.sliceBytes_eq hfits, withSlice,
          if_neg (Utf8.take_encode_eq_iff.not.mpr hdiffer)]
        exact .single hvisit
      · rw [if_pos (Nat.lt_of_not_le hfits)]
        exact .single hvisit
  | dispatch entries =>
    obtain ⟨part, more, rfl, hpart, hfront⟩ := Path.exists_frontPart_eq ahead
    rw [walk, find, hfront, segmentEnd_eq hpart h, withSlice, h.sliceText_eq, withSlice]
    exact (walkEntry_agrees entries _ h.advance trail).after (Visit.within_of_advance h)
  | wild name child =>
    obtain ⟨part, more, rfl, hpart, hfront⟩ := Path.exists_frontPart_eq ahead
    rw [walk, find, Path.scanPart_eq, hfront]
    cases part with
    | nil =>
      rw [if_pos ((blocked_iff hpart h).mpr rfl)]
      exact .single (Visit.within_of_cursor h)
    | cons c part =>
      have hopen := (blocked_iff hpart h).not.mpr (List.cons_ne_nil c part)
      rw [if_neg hopen, sliceBytes_ahead h, withSlice, scanLoop_part hpart h]
      obtain ⟨visits, hwalk, hvisits⟩ := walk_agrees child h.advance trail
      have hall : ∀ visit ∈ Visit.mk i (some (i + Utf8.size (c :: part))) none :: visits,
          visit.Within path :=
        List.forall_mem_cons.mpr ⟨Visit.within_of_advance h, hvisits⟩
      dsimp only
      rw [hwalk]
      -- The text is cut out only after everything behind it has matched.
      cases child.find (Path.join more) trail with
      | mk payload trail' =>
        cases payload with
        | none => exact ⟨_, rfl, hall⟩
        | some payload =>
          dsimp only
          rw [h.sliceText_eq]
          exact ⟨_, rfl, hall⟩
  | catchAll name payload =>
    have h' : Cursor path i (ahead ++ []) := by rwa [List.append_nil]
    rw [walk, find, if_neg (Nat.not_lt.mpr h.le_size), h.size_eq, h'.sliceText_eq]
    exact .single (Visit.within_of_advance h')
  | leaf payload =>
    have hend : i = path.utf8ByteSize ↔ ahead = [] := by
      rw [h.size_eq, ← Utf8.size_eq_zero_iff]
      omega
    rw [walk, find, if_congr hend rfl rfl, if_congr List.isEmpty_iff rfl rfl]
    exact .single (Visit.within_of_cursor h)
  | choice members =>
    rw [walk, find]
    exact (walkMember_agrees members h trail).after (Visit.within_of_cursor h)

theorem walkEntry_agrees (entries : List (String × Matcher α)) (part : String) {path : String}
    {i : Nat} {ahead : List Char} (h : Cursor path i ahead) (trail : Trail) :
    Agrees path (walkEntry path entries part i trail) (findEntry entries part ahead trail) := by
  cases entries with
  | nil => exact ⟨[], rfl, by simp⟩
  | cons entry rest =>
    obtain ⟨key, child⟩ := entry
    rw [walkEntry, findEntry]
    by_cases hkey : part = key
    · rw [if_pos hkey, if_pos hkey]
      exact walk_agrees child h trail
    · rw [if_neg hkey, if_neg hkey]
      exact walkEntry_agrees rest part h trail

theorem walkMember_agrees (members : List (Matcher α)) {path : String} {i : Nat}
    {ahead : List Char} (h : Cursor path i ahead) (trail : Trail) :
    Agrees path (walkMember path members i trail) (findMember members ahead trail) := by
  cases members with
  | nil => exact ⟨[], rfl, by simp⟩
  | cons member rest =>
    obtain ⟨visits, hwalk, hvisits⟩ := walk_agrees member h trail
    rw [walkMember, findMember, hwalk]
    cases member.find ahead trail with
    | mk payload trail' =>
      cases payload with
      | none => exact (walkMember_agrees rest h trail').afterAll hvisits
      | some payload => exact ⟨visits, rfl, hvisits⟩

end

/-- For every matcher and every path, the look-up on bytes does not fail: no slice leaves the
path, and none of its text begins or ends inside a character. It gives the match and the
notices of the look-up. Every place that it comes to lies in the path between two characters,
so a catch-all never begins beyond the end. And so does every end that is computed there, unless
it is the end of a literal text that does not stand there. -/
theorem lookupSliced_eq (m : Matcher α) (path : String) :
    ∃ visits, m.lookupSliced path = .ok (visits, m.lookupLogged path) ∧
      ∀ visit ∈ visits, visit.Within path := by
  obtain ⟨visits, hwalk, hvisits⟩ := walk_agrees m (Cursor.zero path) .empty
  refine ⟨visits, ?_, hvisits⟩
  rw [lookupSliced, hwalk]
  rfl

/-- The end of a literal text that does not stand at its place may lie inside a character, or
beyond the path. It is computed before anything is compared, and given up afterwards. -/
theorem lookupSliced_stop_outside :
    (∃ visits, (literal "x" 2 (leaf (some 0))).lookupSliced "é" = .ok (visits, none, []) ∧
      ∃ visit ∈ visits, visit.stop? = some 1 ∧ ¬ (⟨1⟩ : String.Pos.Raw).IsValid "é") ∧
      ∃ visits, (literal "abc" 2 (leaf (some 0))).lookupSliced "" = .ok (visits, none, []) ∧
        ∃ visit ∈ visits, visit.stop? = some 3 ∧ "".utf8ByteSize < 3 := by
  refine ⟨⟨[⟨0, some 1, some "x"⟩], rfl, _, List.mem_singleton_self _, rfl, ?_⟩,
    [⟨0, some 3, some "abc"⟩], rfl, _, List.mem_singleton_self _, rfl, by decide⟩
  decide

/-- The literal has its first byte in common with the path, and takes nothing off; the
parameter takes the whole character. -/
example : ((choice [literal "é" 2 (leaf (some 1)), wild "x" (leaf (some 2))]).lookupSliced "è") =
    .ok ([⟨0, none, none⟩, ⟨0, some 2, some "é"⟩, ⟨0, some 2, none⟩, ⟨2, none, none⟩],
      some ⟨2, ⟨[("x", "è")]⟩⟩, []) := by
  rfl

end Matcher

end PathRouting
