/-!
# Registration policies

A policy says what happens when a pattern is registered a second time, and whether a
pattern may go on after a catch-all.

## Main definitions

* `OnDuplicate` — replace the payload, or refuse the registration
* `OnDuplicate.resolve` — the payload of a pattern after a registration
* `Policy` — both choices; the default is the lenient one
-/

namespace PathRouting

/-- What the second registration of a pattern does. -/
inductive OnDuplicate where
  /-- It replaces the payload. -/
  | overwrite
  /-- It is refused, and the first payload stays. -/
  | reject
deriving DecidableEq

namespace OnDuplicate

/-- The name of a choice in a policy document. -/
def name : OnDuplicate → String
  | overwrite => "overwrite"
  | reject => "reject"

/-- The choice of that name, if there is one. -/
def ofName? (name : String) : Option OnDuplicate :=
  [overwrite, reject].find? (·.name == name)

/-- The payload of a pattern after it is registered with `new`, where `present` is the
payload before, if it had one. -/
def resolve {α : Type _} (choice : OnDuplicate) (new : α) (present : Option α) : α :=
  match choice with
  | overwrite => new
  | reject => present.getD new

end OnDuplicate

/-- The rules that a registry keeps. The default is lenient: the last registration of a
pattern wins, and the segments after a catch-all are left out. -/
structure Policy where
  /-- What the second registration of a pattern does. -/
  onDuplicate : OnDuplicate := .overwrite
  /-- Whether segments after a catch-all make a pattern invalid. -/
  strictCatchAll : Bool := false
deriving DecidableEq

end PathRouting
