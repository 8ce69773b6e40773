import PathRouting.Json.Fault
import PathRouting.Text.Quoted

/-!
# Failures

What is asked of the library fails in two ways: a pattern cannot be registered, or a policy
cannot be read from a document. A failure has a kind, a wording, and the pattern that it is
about, if it is about one. Looking up a path never fails.

## Main definitions

* `RegistrationError` — why a pattern cannot be registered
* `Failure` — the failures of all operations
* `Failure.kind`, `Failure.message`, `Failure.pattern?` — what can be told from a failure

## Main results

* `Failure.pattern?_eq_none_iff` — just the failures of custom kind are about no pattern
-/

namespace PathRouting

open Text

/-- Why a pattern cannot be registered. -/
inductive RegistrationError where
  /-- The pattern does not begin with a slash. -/
  | missingLeadingSlash (pattern : String)
  /-- A parameter of the pattern has no name. -/
  | emptyParamName (pattern : String)
  /-- The pattern goes on after a catch-all. -/
  | catchAllNotLast (pattern : String)
  /-- The pattern is registered already. -/
  | duplicatePattern (pattern : String)
deriving DecidableEq

namespace RegistrationError

/-- The pattern that could not be registered. -/
def pattern : RegistrationError → String
  | missingLeadingSlash pattern => pattern
  | emptyParamName pattern => pattern
  | catchAllNotLast pattern => pattern
  | duplicatePattern pattern => pattern

/-- The wording of an error. -/
def message : RegistrationError → String
  | missingLeadingSlash pattern => "the pattern must start with '/': " ++ quote pattern
  | emptyParamName pattern => "empty parameter name in the pattern " ++ quote pattern
  | catchAllNotLast pattern =>
    "a catch-all parameter must be located at the end of the pattern " ++ quote pattern
  | duplicatePattern pattern =>
    "the pattern " ++ quote pattern ++ " has already been registered"

end RegistrationError

/-- Why an operation does not do what was asked. -/
inductive Failure where
  /-- A pattern cannot be registered. -/
  | registration (e : RegistrationError)
  /-- Something else than a pattern is wrong: a document that is no policy. -/
  | custom (cause : Json.Error)
deriving DecidableEq

namespace Failure

/-- The kinds of failures. -/
inductive Kind where
  /-- A pattern does not begin with a slash. -/
  | missingLeadingSlash
  /-- A parameter has no name. -/
  | emptyParamName
  /-- A pattern goes on after a catch-all. -/
  | catchAllNotLast
  /-- A pattern is registered already. -/
  | duplicatePattern
  /-- Any other cause. -/
  | custom
deriving DecidableEq

/-- The kind of a failure. -/
def kind : Failure → Kind
  | registration (.missingLeadingSlash _) => .missingLeadingSlash
  | registration (.emptyParamName _) => .emptyParamName
  | registration (.catchAllNotLast _) => .catchAllNotLast
  | registration (.duplicatePattern _) => .duplicatePattern
  | custom _ => .custom

/-- The wording of a failure. That of another cause is the wording of the cause. -/
def message : Failure → String
  | registration e => e.message
  | custom cause => cause.message

/-- The pattern that a failure is about. -/
def pattern? : Failure → Option String
  | registration e => some e.pattern
  | custom _ => none

/-- Just the failures of custom kind are about no pattern. -/
theorem pattern?_eq_none_iff {failure : Failure} :
    failure.pattern? = none ↔ failure.kind = .custom := by
  cases failure with
  | registration e => cases e <;> simp [pattern?, kind]
  | custom cause => simp [pattern?, kind]

end Failure

end PathRouting
