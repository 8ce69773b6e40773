import PathRouting.Json.Numeral
import PathRouting.Json.StringToken
import PathRouting.Json.Token

/-!
# Values of the wrong kind

Where a value of one kind belongs and one of another kind stands, that value is read to be
named in the fault, and the fault lies behind it; a fault inside of the value comes first.
Lists and objects are not read.

## Main definitions

* `Json.unexpected` — the fault of a text with a value of the wrong kind at its front

## Main results

* `Json.unexpected_ne_ok` — it is always a fault
-/

namespace PathRouting.Json

/-- The fault of a number of the wrong kind, after its sign. -/
def unexpectedNumber {β : Type} (expected : String) (isNegative : Bool) (text : List Char) :
    Except Fault β := do
  let (n, rest) ← readNumeral .endInValue text
  match n.value isNegative with
  | .ok found => faultAt (.invalidType found expected) rest
  | .error unread => .error ⟨.numberOutOfRange, byteLength rest + unread⟩

/-- The fault of a text whose front is a value of the wrong kind, or no value. -/
def unexpected {β : Type} (expected : String) (text : List Char) : Except Fault β :=
  match text with
  | [] => faultAt .endInValue []
  | c :: rest =>
    if c = 'n' then do
      let rest ← readWord ['u', 'l', 'l'] rest
      faultAt (.invalidType .null expected) rest
    else if c = 't' then do
      let rest ← readWord ['r', 'u', 'e'] rest
      faultAt (.invalidType (.boolean true) expected) rest
    else if c = 'f' then do
      let rest ← readWord ['a', 'l', 's', 'e'] rest
      faultAt (.invalidType (.boolean false) expected) rest
    else if c = '-' then unexpectedNumber expected true rest
    else if c.isDigit then unexpectedNumber expected false text
    else if c = '"' then do
      let (found, rest) ← readString rest
      faultAt (.invalidType (.string (String.ofList found)) expected) rest
    else if c = '[' then faultAt (.invalidType .sequence expected) text
    else if c = '\x7b' then faultAt (.invalidType .map expected) text
    else faultAfter 1 .expectedValue text

theorem unexpectedNumber_ne_ok {β : Type} {expected : String} {isNegative : Bool}
    {text : List Char} {b : β} : unexpectedNumber expected isNegative text ≠ .ok b := by
  intro h
  obtain ⟨⟨n, rest⟩, -, h⟩ := bind_eq_ok_iff.mp h
  dsimp only at h
  split at h <;> simp at h

/-- A value of an unexpected kind is an error, whatever its text. -/
theorem unexpected_ne_ok {β : Type} {expected : String} {text : List Char} {b : β} :
    unexpected expected text ≠ .ok b := by
  intro h
  unfold unexpected at h
  split at h
  · simp at h
  split at h
  · obtain ⟨_, -, h⟩ := bind_eq_ok_iff.mp h
    simp at h
  split at h
  · obtain ⟨_, -, h⟩ := bind_eq_ok_iff.mp h
    simp at h
  split at h
  · obtain ⟨_, -, h⟩ := bind_eq_ok_iff.mp h
    simp at h
  split at h
  · exact unexpectedNumber_ne_ok h
  split at h
  · exact unexpectedNumber_ne_ok h
  split at h
  · obtain ⟨_, -, h⟩ := bind_eq_ok_iff.mp h
    simp at h
  split at h
  · simp at h
  split at h <;> simp at h

end PathRouting.Json
