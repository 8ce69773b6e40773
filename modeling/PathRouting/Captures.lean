import PathRouting.Dict

/-!
# Captures

The values that a match gives to the parameters of a pattern, from the innermost capture to
the outermost. A name has one value: where it is captured twice, the inner one counts.

## Main definitions

* `Captures` — names with their values
* `Captures.keep` — add an outer capture
* `Captures.get?`, `Captures.contains`, `Captures.size`, `Captures.isEmpty` — reading
* `Captures.value` — the value of a name that has to be there
* `Captures.same` — the same names with the same values, in whatever order
-/

namespace PathRouting

/-- Names with their values, the innermost capture first. -/
structure Captures where
  /-- The names with their values. -/
  entries : List (String × String)
deriving DecidableEq

namespace Captures

/-- No captures. -/
def empty : Captures := ⟨[]⟩

/-- Adds a capture that lies outside of the present ones, unless its name has a value. -/
def keep (name value : String) (captures : Captures) : Captures :=
  ⟨Dict.insertIfNew name value captures.entries⟩

/-- The value of a name. -/
def get? (captures : Captures) (name : String) : Option String :=
  captures.entries.lookup name

/-- Whether a name has a value. -/
def contains (captures : Captures) (name : String) : Bool :=
  (captures.get? name).isSome

/-- The number of names. -/
def size (captures : Captures) : Nat :=
  captures.entries.length

/-- Whether nothing was captured. -/
def isEmpty (captures : Captures) : Bool :=
  captures.entries.isEmpty

/-- A name that should have a value has none. -/
structure Absent where
  /-- The name. -/
  name : String
deriving DecidableEq

/-- The wording of the error. -/
def Absent.message (_ : Absent) : String :=
  "no such parameter"

/-- The value of a name that has to be there. -/
def value (captures : Captures) (name : String) : Except Absent String :=
  match captures.get? name with
  | some text => .ok text
  | none => .error ⟨name⟩

/-- The same names with the same values, in whatever order. -/
def same (a b : Captures) : Bool :=
  Dict.same a.entries b.entries

end Captures

end PathRouting
