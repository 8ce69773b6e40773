import PathRouting.Failure
import PathRouting.Json.Skip
import PathRouting.Json.Unexpected
import PathRouting.Policy

/-!
# Policies as JSON documents

A policy is given as an object with the members `on_duplicate` and `strict_catch_all`, or as
a list of their values in that order. What is left out takes its default; other members of
the object mean nothing and may hold anything.

A choice is given by its name, or by an object whose only member has that name and the value
`null`.

## Main definitions

* `Policy.Draft` — the members read so far
* `Policy.readDocument` — the policy of a document, or its first fault
* `Policy.parse` — the policy of a document, or an error with its position
* `Policy.ofJson` — the same, with the error as a failure of custom kind
-/

namespace PathRouting.Policy

open Json

/-! ### Values -/

/-- The truth value at the front of a text. -/
def readBool (text : List Char) : Except Fault (Bool × List Char) :=
  match skipBlanks text with
  | [] => faultAt .endInValue []
  | c :: rest =>
    if c = 't' then do
      let rest ← readWord ['r', 'u', 'e'] rest
      .ok (true, rest)
    else if c = 'f' then do
      let rest ← readWord ['a', 'l', 's', 'e'] rest
      .ok (false, rest)
    else unexpected "a boolean" (c :: rest)

/-- The text after the `null` at its front. -/
def readNull (text : List Char) : Except Fault (List Char) :=
  match skipBlanks text with
  | [] => faultAt .endInValue []
  | c :: rest =>
    if c = 'n' then readWord ['u', 'l', 'l'] rest else unexpected "unit" (c :: rest)

/-- The choice whose name is at the front of a text, after its opening quotation mark. -/
def readName (text : List Char) : Except Fault (OnDuplicate × List Char) := do
  let (name, rest) ← readString text
  match OnDuplicate.ofName? (String.ofList name) with
  | some choice => .ok (choice, rest)
  | none =>
    let choices := [OnDuplicate.overwrite.name, OnDuplicate.reject.name]
    faultAt (.unknownVariant (String.ofList name) choices) rest

/-- The choice of an object, after its opening bracket. -/
def readNamed (text : List Char) : Except Fault (OnDuplicate × List Char) :=
  match skipBlanks text with
  | [] => faultAt .endInObject []
  | c :: rest =>
    if c = '"' then do
      let (choice, rest) ← readName rest
      let rest ← readColon rest
      let rest ← readNull rest
      match skipBlanks rest with
      | [] => faultAt .endInObject []
      | c :: rest =>
        if c = '\x7d' then .ok (choice, rest) else faultAt .expectedValue (c :: rest)
    else if c = '\x7d' then faultAfter 1 .expectedValue (c :: rest)
    else faultAfter 1 .keyNotString (c :: rest)

/-- The choice at the front of a text. -/
def readChoice (text : List Char) : Except Fault (OnDuplicate × List Char) :=
  match skipBlanks text with
  | [] => faultAt .endInValue []
  | c :: rest =>
    if c = '"' then readName rest
    else if c = '\x7b' then readNamed rest
    else faultAfter 1 .expectedValue (c :: rest)

/-! ### Objects -/

/-- The members of a policy that were read so far. -/
structure Draft where
  /-- The choice, if it was given. -/
  onDuplicate : Option OnDuplicate := none
  /-- The truth value, if it was given. -/
  strictCatchAll : Option Bool := none
deriving DecidableEq

/-- The policy with the members of a draft. -/
def Draft.policy (draft : Draft) : Policy :=
  let default : Policy := {}
  ⟨draft.onDuplicate.getD default.onDuplicate,
    draft.strictCatchAll.getD default.strictCatchAll⟩

/-- The fault of a member that was given before, after its key. Its place is behind the
blanks there, and behind a bracket that closes the object. -/
def duplicate {β : Type} (name : String) (text : List Char) : Except Fault β :=
  match skipBlanks text with
  | [] => faultAt (.duplicateField name) []
  | c :: rest =>
    if c = '\x7d' then faultAt (.duplicateField name) rest
    else faultAt (.duplicateField name) (c :: rest)

/-- The draft with one more member, after its key. -/
def Draft.readMember (draft : Draft) (key : String) (text : List Char) :
    Except Fault (Draft × List Char) :=
  if key = "on_duplicate" then
    if draft.onDuplicate.isSome then duplicate key text
    else do
      let rest ← readColon text
      let (choice, rest) ← readChoice rest
      .ok ({ draft with onDuplicate := some choice }, rest)
  else if key = "strict_catch_all" then
    if draft.strictCatchAll.isSome then duplicate key text
    else do
      let rest ← readColon text
      let (value, rest) ← readBool rest
      .ok ({ draft with strictCatchAll := some value }, rest)
  else do
    let rest ← readColon text
    let rest ← skipValue rest
    .ok (draft, rest)

/-- The draft with one more member, after the quotation mark that opens its key. -/
def Draft.readKeyed (draft : Draft) (text : List Char) :
    Except Fault (Draft × List Char) := do
  let (key, rest) ← readString text
  draft.readMember (String.ofList key) rest

/-! ### What is left -/

theorem readBool_le {text rest : List Char} {b : Bool} (h : readBool text = .ok (b, rest)) :
    rest.length ≤ text.length := by
  unfold readBool at h
  split at h
  · simp at h
  · rename_i hblank
    have := length_lt_of_skipBlanks hblank
    split at h
    · obtain ⟨left, hword, h⟩ := bind_eq_ok_iff.mp h
      obtain ⟨-, rfl⟩ : _ ∧ left = rest := by simpa using h
      have := readWord_le hword
      omega
    split at h
    · obtain ⟨left, hword, h⟩ := bind_eq_ok_iff.mp h
      obtain ⟨-, rfl⟩ : _ ∧ left = rest := by simpa using h
      have := readWord_le hword
      omega
    · exact absurd h unexpected_ne_ok

theorem readNull_le {text rest : List Char} (h : readNull text = .ok rest) :
    rest.length ≤ text.length := by
  unfold readNull at h
  split at h
  · simp at h
  · rename_i hblank
    have := length_lt_of_skipBlanks hblank
    split at h
    · have := readWord_le h
      omega
    · exact absurd h unexpected_ne_ok

theorem readName_le {text rest : List Char} {choice : OnDuplicate}
    (h : readName text = .ok (choice, rest)) : rest.length ≤ text.length := by
  obtain ⟨⟨name, left⟩, hname, h⟩ := bind_eq_ok_iff.mp h
  dsimp only at h
  split at h
  · obtain ⟨-, rfl⟩ : _ ∧ left = rest := by simpa using h
    exact (readString_suffix hname).length_le
  · simp at h

theorem readNamed_le {text rest : List Char} {choice : OnDuplicate}
    (h : readNamed text = .ok (choice, rest)) : rest.length ≤ text.length := by
  unfold readNamed at h
  split at h
  · simp at h
  · rename_i hblank
    have := length_lt_of_skipBlanks hblank
    split at h
    · obtain ⟨⟨found, left₁⟩, hname, h⟩ := bind_eq_ok_iff.mp h
      obtain ⟨left₂, hcolon, h⟩ := bind_eq_ok_iff.mp h
      obtain ⟨left₃, hnull, h⟩ := bind_eq_ok_iff.mp h
      have := readName_le hname
      have := (readColon_suffix hcolon).length_le
      have := readNull_le hnull
      split at h
      · simp at h
      · rename_i hclose
        have := length_lt_of_skipBlanks hclose
        split at h
        · obtain ⟨-, rfl⟩ : _ ∧ _ = rest := by simpa using h
          omega
        · simp at h
    split at h <;> simp at h

/-- Whether a choice is a name or an object, what is left is no longer than the text. -/
theorem readChoice_le {text rest : List Char} {choice : OnDuplicate}
    (h : readChoice text = .ok (choice, rest)) : rest.length ≤ text.length := by
  unfold readChoice at h
  split at h
  · simp at h
  · rename_i hblank
    have := length_lt_of_skipBlanks hblank
    split at h
    · have := readName_le h
      omega
    split at h
    · have := readNamed_le h
      omega
    · simp at h

/-- A member that is there twice is an error, whatever its value. -/
theorem duplicate_ne_ok {β : Type} {name : String} {text : List Char} {b : β} :
    duplicate name text ≠ .ok b := by
  intro h
  unfold duplicate at h
  split at h
  · simp at h
  split at h <;> simp at h

/-- Whether the value of a member is read or skipped, what is left is no longer than the text. -/
theorem Draft.readMember_le {draft draft' : Draft} {key : String} {text rest : List Char}
    (h : draft.readMember key text = .ok (draft', rest)) : rest.length ≤ text.length := by
  unfold Draft.readMember at h
  split at h
  · split at h
    · exact absurd h duplicate_ne_ok
    · obtain ⟨left₁, hcolon, h⟩ := bind_eq_ok_iff.mp h
      obtain ⟨⟨choice, left₂⟩, hchoice, h⟩ := bind_eq_ok_iff.mp h
      obtain ⟨-, rfl⟩ : _ ∧ left₂ = rest := by simpa using h
      have := (readColon_suffix hcolon).length_le
      have := readChoice_le hchoice
      omega
  split at h
  · split at h
    · exact absurd h duplicate_ne_ok
    · obtain ⟨left₁, hcolon, h⟩ := bind_eq_ok_iff.mp h
      obtain ⟨⟨value, left₂⟩, hvalue, h⟩ := bind_eq_ok_iff.mp h
      obtain ⟨-, rfl⟩ : _ ∧ left₂ = rest := by simpa using h
      have := (readColon_suffix hcolon).length_le
      have := readBool_le hvalue
      omega
  · obtain ⟨left₁, hcolon, h⟩ := bind_eq_ok_iff.mp h
    obtain ⟨left₂, hvalue, h⟩ := bind_eq_ok_iff.mp h
    obtain ⟨-, rfl⟩ : _ ∧ left₂ = rest := by simpa using h
    have := (readColon_suffix hcolon).length_le
    have := skipValue_le hvalue
    omega

theorem Draft.readKeyed_le {draft draft' : Draft} {text rest : List Char}
    (h : draft.readKeyed text = .ok (draft', rest)) : rest.length ≤ text.length := by
  obtain ⟨⟨key, left⟩, hkey, h⟩ := bind_eq_ok_iff.mp h
  exact Nat.le_trans (Draft.readMember_le h) (readString_suffix hkey).length_le

/-! ### Documents -/

/-- The draft with all members up to the bracket that closes the object, after the quotation
mark that opens the next key. -/
def Draft.readMembers (draft : Draft) (text : List Char) : Except Fault (Draft × List Char) :=
  match _hkeyed : draft.readKeyed text with
  | .error fault => .error fault
  | .ok (draft, rest) =>
    match _hblank : skipBlanks rest with
    | [] => faultAt .endInObject []
    | c :: rest =>
      if c = '\x7d' then .ok (draft, rest)
      else if c = ',' then
        match _hnext : skipBlanks rest with
        | [] => faultAt .endInValue []
        | c :: rest =>
          if c = '"' then draft.readMembers rest
          else if c = '\x7d' then faultAfter 1 .trailingComma (c :: rest)
          else faultAfter 1 .keyNotString (c :: rest)
      else faultAfter 1 .expectedObjectEnd (c :: rest)
termination_by text.length
decreasing_by
  have := Draft.readKeyed_le _hkeyed
  have := length_lt_of_skipBlanks _hblank
  have := length_lt_of_skipBlanks _hnext
  omega

/-- The policy of an object, after its opening bracket. -/
def readObject (text : List Char) : Except Fault (Policy × List Char) :=
  match skipBlanks text with
  | [] => faultAt .endInObject []
  | c :: rest =>
    if c = '\x7d' then .ok ({}, rest)
    else if c = '"' then do
      let (draft, rest) ← Draft.readMembers {} rest
      .ok (draft.policy, rest)
    else faultAfter 1 .keyNotString (c :: rest)

/-- The text after the bracket that closes a list of two values. -/
def readListEnd (text : List Char) : Except Fault (List Char) :=
  match skipBlanks text with
  | [] => faultAt .endInList []
  | c :: rest =>
    if c = ']' then .ok rest
    else if c = ',' then
      match skipBlanks rest with
      | [] => faultAt .trailingCharacters []
      | c :: rest =>
        if c = ']' then faultAfter 1 .trailingComma (c :: rest)
        else faultAfter 1 .trailingCharacters (c :: rest)
    else faultAfter 1 .trailingCharacters (c :: rest)

/-- The policy of a list whose first value is read, from what follows that value on. -/
def readSecond (choice : OnDuplicate) (text : List Char) :
    Except Fault (Policy × List Char) :=
  match skipBlanks text with
  | [] => faultAt .endInList []
  | c :: rest =>
    if c = ']' then .ok ({ onDuplicate := choice }, rest)
    else if c = ',' then
      match skipBlanks rest with
      | [] => faultAt .endInValue []
      | c :: rest =>
        if c = ']' then faultAfter 1 .trailingComma (c :: rest)
        else do
          let (value, rest) ← readBool (c :: rest)
          let rest ← readListEnd rest
          .ok (⟨choice, value⟩, rest)
    else faultAfter 1 .expectedListEnd (c :: rest)

/-- The policy of a list, after its opening bracket. -/
def readList (text : List Char) : Except Fault (Policy × List Char) :=
  match skipBlanks text with
  | [] => faultAt .endInList []
  | c :: rest =>
    if c = ']' then .ok ({}, rest)
    else do
      let (choice, rest) ← readChoice (c :: rest)
      readSecond choice rest

/-- The policy at the front of a text. -/
def readPolicy (text : List Char) : Except Fault (Policy × List Char) :=
  match skipBlanks text with
  | [] => faultAt .endInValue []
  | c :: rest =>
    if c = '\x7b' then readObject rest
    else if c = '[' then readList rest
    else unexpected "struct Config" (c :: rest)

/-- The policy of a document, which holds nothing else. -/
def readDocument (document : List Char) : Except Fault Policy := do
  let (policy, rest) ← readPolicy document
  match skipBlanks rest with
  | [] => .ok policy
  | c :: rest => faultAfter 1 .trailingCharacters (c :: rest)

/-- The policy of a document, or what is wrong with the document and where. -/
def parse (document : String) : Except Json.Error Policy :=
  match readDocument document.toList with
  | .ok policy => .ok policy
  | .error fault => .error (fault.toError document.toList)

/-- The policy of a document. What is wrong with a document makes a failure of custom kind. -/
def ofJson (document : String) : Except Failure Policy :=
  (parse document).mapError .custom

end PathRouting.Policy
