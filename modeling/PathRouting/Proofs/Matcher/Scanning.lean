import PathRouting.Proofs.Matcher.Cursor
import PathRouting.Proofs.Matcher.Within
import PathRouting.Proofs.Matcher.Ways
import PathRouting.Proofs.Text.SoftDecoding

/-!
# One pass over the bytes of a part

The loop in which a parameter finds the part that it takes gives the end that a search for the
slash finds, and the flag that a search of the part finds. So the part is decoded as it is without
the flag.

A parameter takes at least one character, and the value of such a text is not empty either. So
only a catch-all captures an empty value.

## Main definitions

* `Matcher.captureBehind` — a capture joins what was found behind it

## Main results

* `Matcher.scanLoop_open` — a parameter finds its text and the value of that text with one loop
* `Matcher.exists_catchAll_of_empty` — an empty value is that of a catch-all
-/

namespace PathRouting

universe u

namespace Matcher

open Text CapturedValue

variable {α : Type u}

/-! ### The part of a parameter -/

/-- A capture joins the trail once something is found behind it. -/
def captureBehind (name : String) (value : CapturedValue) : Option α × Trail → Option α × Trail
  | (some payload, trail) => (some payload, trail.keep name value)
  | (none, trail) => (none, trail)

theorem find_wild {part : List Char} {more : List (List Char)} (hpart : '/' ∉ part)
    (hne : part ≠ []) (name : String) (child : Matcher α) (trail : Trail) :
    (wild name child).find (part ++ Path.join more) trail =
      captureBehind name (.decode (String.ofList part)) (child.find (Path.join more) trail) := by
  rw [find, Path.scanPart_eq, Path.frontPart_append_join hpart]
  cases part with
  | nil => exact absurd rfl hne
  | cons c part =>
    dsimp only
    rw [decodeFlagged_eq_decode]
    cases child.find (Path.join more) trail with
    | mk payload trail' => cases payload <;> rfl

/-- Between two characters of a path, not at its end and not before a slash, the loop finds the
end that a search for the next slash finds. The text up to there can be cut out. The flag says
whether it has a percent sign, wherever else the path has some, so with the flag the text is
decoded as it is without: to the same value, which is the text itself in the same cases, with the
same notices. Neither the text nor its value is empty, and a parameter captures this value if
anything is found behind the text. -/
theorem scanLoop_open {path : String} {i : Nat} (hi : (⟨i⟩ : String.Pos.Raw).IsValid path)
    (hlt : i < path.utf8ByteSize) (hopen : (Utf8.encode path.toList)[i]? ≠ some slash) :
    ∃ stop hasPercent part rest,
      scanLoop (Utf8.encode path.toList) i = (stop, hasPercent) ∧
      segmentEnd (Utf8.encode path.toList) i = .ok stop ∧
      sliceText path i stop = .ok part ∧ Cursor path stop rest ∧
      (hasPercent = true ↔ '%' ∈ part.toList) ∧
      decodeFlagged part hasPercent = decode part ∧
      part ≠ "" ∧ (decode part).text ≠ "" ∧
      ∀ (name : String) (child : Matcher α) (trail : Trail),
        Agrees path ((wild name child).walk path i trail)
          (captureBehind name (decode part) (child.find rest trail)) := by
  obtain ⟨ahead, hcursor⟩ := Cursor.exists_of_isValid hi
  obtain ⟨part, more, rfl, hpart, -⟩ := Path.exists_frontPart_eq ahead
  have hne : part ≠ [] := by
    rw [ne_eq, ← blocked_iff hpart hcursor, not_or]
    exact ⟨Nat.not_le.mpr hlt, hopen⟩
  have htext : String.ofList part ≠ "" := String.ofList_eq_empty_iff.not.mpr hne
  refine ⟨_, _, String.ofList part, Path.join more, scanLoop_part hpart hcursor,
    segmentEnd_eq hpart hcursor, hcursor.sliceText_eq, hcursor.advance, ?_, ?_, htext, ?_, ?_⟩
  · rw [String.toList_ofList, List.contains_iff_mem]
  · exact decodeFlagged_eq_decode part
  · exact (text_decode_eq_empty_iff _).not.mpr htext
  · intro name child trail
    rw [← find_wild hpart hne]
    exact walk_agrees _ hcursor trail

/-- In the middle of a path: the percent sign behind the part does not count, and the one in front
of the cursor neither. -/
theorem scanLoop_open_between :
    (⟨3⟩ : String.Pos.Raw).IsValid "/%/é/%" ∧ 3 < "/%/é/%".utf8ByteSize ∧
      (Utf8.encode "/%/é/%".toList)[3]? ≠ some slash ∧
      scanLoop (Utf8.encode "/%/é/%".toList) 3 = (5, false) ∧
      segmentEnd (Utf8.encode "/%/é/%".toList) 3 = .ok 5 ∧
      Agrees "/%/é/%" ((wild "x" (.catchAll "rest" 7)).walk "/%/é/%" 3 .empty)
        (some 7, ⟨⟨[("rest", "/%"), ("x", "é")]⟩, []⟩) := by
  have hcursor : Cursor "/%/é/%" 3 "é/%".toList := ⟨"/%/".toList, rfl, rfl⟩
  have hlt : 3 < "/%/é/%".utf8ByteSize := by decide
  have hopen : (Utf8.encode "/%/é/%".toList)[3]? ≠ some slash := by decide
  obtain ⟨stop, hasPercent, part, rest, hloop, hend, hslice, hrest, -, -, -, -, hwild⟩ :=
    scanLoop_open hcursor.isValid hlt hopen
  have hresult : scanLoop (Utf8.encode "/%/é/%".toList) 3 = (5, false) := by decide
  obtain ⟨rfl, rfl⟩ := Prod.mk.inj (hloop.symm.trans hresult)
  obtain rfl := hrest.unique (⟨"/%/é".toList, rfl, rfl⟩ : Cursor "/%/é/%" 5 "/%".toList)
  obtain rfl : "é" = part := Except.ok.inj (Eq.trans (by rfl) hslice)
  exact ⟨hcursor.isValid, hlt, hopen, hresult, hend, hwild "x" (.catchAll "rest" 7) .empty⟩

/-! ### Empty values -/

mutual

/-- On every way, what a parameter captures is not empty. -/
theorem exists_catchAll_of_mem_ways (m : Matcher α) {path : List Char} {way : Way α}
    (hway : way ∈ m.ways path) {name : String} (hname : (name, "") ∈ way.captures) :
    ∃ payload, (catchAll name payload).Within m := by
  cases m with
  | literal text depth child =>
    rw [ways] at hway
    split at hway
    · obtain ⟨payload, hwithin⟩ := exists_catchAll_of_mem_ways child hway hname
      exact ⟨payload, .literal hwithin⟩
    · cases hway
  | dispatch entries =>
    rw [ways] at hway
    obtain ⟨entry, hentry, payload, hwithin⟩ :=
      exists_catchAll_of_mem_entryWays entries hway hname
    exact ⟨payload, .dispatch hentry hwithin⟩
  | wild own child =>
    rw [ways] at hway
    split at hway
    · cases hway
    · rename_i hne
      obtain ⟨inner, hinner, rfl⟩ := List.mem_map.mp hway
      rcases List.mem_cons.mp hname with hown | hname
      · -- The part that the parameter takes is not empty.
        exact absurd (String.ofList_eq_empty_iff.mp (Prod.mk.inj hown).2.symm) hne
      · obtain ⟨payload, hwithin⟩ := exists_catchAll_of_mem_ways child hinner hname
        exact ⟨payload, .wild hwithin⟩
  | catchAll own payload =>
    rw [ways] at hway
    obtain rfl := List.mem_singleton.mp hway
    obtain ⟨rfl, -⟩ := Prod.mk.inj (List.mem_singleton.mp hname)
    exact ⟨payload, .self⟩
  | leaf payload =>
    rw [ways] at hway
    split at hway
    · obtain ⟨payload, -, rfl⟩ := List.mem_map.mp hway
      cases hname
    · cases hway
  | choice members =>
    rw [ways] at hway
    obtain ⟨member, hmember, payload, hwithin⟩ :=
      exists_catchAll_of_mem_memberWays members hway hname
    exact ⟨payload, .choice hmember hwithin⟩

theorem exists_catchAll_of_mem_entryWays (entries : List (String × Matcher α)) {part : String}
    {path : List Char} {way : Way α} (hway : way ∈ entryWays entries part path) {name : String}
    (hname : (name, "") ∈ way.captures) :
    ∃ entry ∈ entries, ∃ payload, (catchAll name payload).Within entry.2 := by
  cases entries with
  | nil =>
    rw [entryWays] at hway
    cases hway
  | cons entry rest =>
    obtain ⟨key, child⟩ := entry
    rw [entryWays] at hway
    split at hway
    · exact ⟨_, List.mem_cons_self, exists_catchAll_of_mem_ways child hway hname⟩
    · obtain ⟨entry, hentry, hwithin⟩ := exists_catchAll_of_mem_entryWays rest hway hname
      exact ⟨entry, List.mem_cons_of_mem _ hentry, hwithin⟩

theorem exists_catchAll_of_mem_memberWays (members : List (Matcher α)) {path : List Char}
    {way : Way α} (hway : way ∈ memberWays members path) {name : String}
    (hname : (name, "") ∈ way.captures) :
    ∃ member ∈ members, ∃ payload, (catchAll name payload).Within member := by
  cases members with
  | nil =>
    rw [memberWays] at hway
    cases hway
  | cons member rest =>
    rw [memberWays] at hway
    rcases List.mem_append.mp hway with hway | hway
    · exact ⟨member, List.mem_cons_self, exists_catchAll_of_mem_ways member hway hname⟩
    · obtain ⟨other, hother, hwithin⟩ := exists_catchAll_of_mem_memberWays rest hway hname
      exact ⟨other, List.mem_cons_of_mem _ hother, hwithin⟩

end

/-- In every match, an empty value is that of a catch-all. -/
theorem exists_catchAll_of_empty {m : Matcher α} {path : String} {found : Match α}
    (h : m.lookup path = some found) {name : String} (hname : (name, "") ∈ found.captures.entries) :
    ∃ payload, (catchAll name payload).Within m := by
  rw [lookup_eq, Option.map_eq_some_iff] at h
  obtain ⟨way, hway, rfl⟩ := h
  have hlookup := (Dict.lookup_eq_some_iff_mem (Dict.nodup_firstOfEach _)).mpr hname
  rw [Dict.lookup_firstOfEach] at hlookup
  have hmem := List.mem_reverse.mp (Dict.mem_of_lookup_eq_some hlookup)
  obtain ⟨⟨own, raw⟩, hcapture, hdecoded⟩ := List.mem_map.mp hmem
  obtain ⟨rfl, hvalue⟩ := Prod.mk.inj hdecoded
  obtain rfl := (text_decode_eq_empty_iff raw).mp hvalue
  exact exists_catchAll_of_mem_ways m (List.mem_of_mem_head? hway) hcapture

end Matcher

end PathRouting
