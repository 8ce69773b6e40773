import PathRouting.Failure
import PathRouting.Notice
import PathRouting.Policy
import PathRouting.Route
import PathRouting.Trie

/-!
# Registries

A registry holds patterns with payloads under a policy. A pattern is known by its route up
to the first catch-all, so patterns that differ after a catch-all are the same one.

## Main definitions

* `Registry` — the registered routes, the policy, and how many routes there are
* `Registry.scan`, `Registry.read` — one pass over the segments of a pattern, which gives its
  route, or why it is invalid
* `Registry.register` — add a pattern with a payload
* `Registration` — the registry afterwards, the outcome, and what was reported
-/

namespace PathRouting

universe u

/-- Registered routes with their payloads. -/
structure Registry (α : Type u) where
  /-- The rules for registrations. -/
  policy : Policy
  /-- The payloads by route. -/
  routes : Trie Segment α
  /-- The number of routes. -/
  size : Nat

/-- What a registration leads to. -/
structure Registration (α : Type u) where
  /-- The registry afterwards. -/
  registry : Registry α
  /-- Whether the pattern was registered. -/
  outcome : Except RegistrationError Unit
  /-- What was reported. -/
  notices : List Notice

namespace Registry

variable {α : Type u}

/-- The registry without patterns. -/
def ofPolicy (policy : Policy) : Registry α :=
  ⟨policy, .empty, 0⟩

/-- Whether no pattern is registered. -/
def isEmpty (registry : Registry α) : Bool :=
  registry.size == 0

/-- Reads the segments of a pattern behind those that are kept already, and reports if some
are left out. Each segment up to the first catch-all that captures has to have a name. Behind
the catch-all there is one look at whether the pattern goes on, which a strict policy
refuses. -/
def scan (policy : Policy) (pattern : String) (kept : Route) :
    Route → Except RegistrationError Route × List Notice
  | [] => (.ok kept, [])
  | segment :: rest =>
    if segment.isNameless then (.error (.emptyParamName pattern), [])
    else if segment.isCatchAll then
      -- What stands further behind is never read.
      if rest.isEmpty then (.ok (kept ++ [segment]), [])
      else if policy.strictCatchAll then (.error (.catchAllNotLast pattern), [])
      else (.ok (kept ++ [segment]), [.truncated pattern])
    else scan policy pattern (kept ++ [segment]) rest

/-- Reads a pattern: its route, or why it is invalid, with what is reported. -/
def read (policy : Policy) (pattern : String) : Except RegistrationError Route × List Notice :=
  match Route.ofPattern? pattern with
  | none => (.error (.missingLeadingSlash pattern), [])
  | some segments => scan policy pattern [] segments

/-- Registers a pattern with a payload. The nodes on the way are created where they are
missing, and the policy settles which payload the last one holds. -/
def register (registry : Registry α) (pattern : String) (payload : α) : Registration α :=
  match read registry.policy pattern with
  | (.error e, notices) => ⟨registry, .error e, notices⟩
  | (.ok route, notices) =>
    let choice := registry.policy.onDuplicate
    let routes := registry.routes.update (choice.resolve payload) route
    match registry.routes.get? route with
    | none =>
      ⟨⟨registry.policy, routes, registry.size + 1⟩, .ok (), notices ++ [.inserted pattern]⟩
    | some _ =>
      let registry := ⟨registry.policy, routes, registry.size⟩
      match choice with
      | .overwrite =>
        ⟨registry, .ok (), notices ++ [.overwritten pattern, .inserted pattern]⟩
      | .reject => ⟨registry, .error (.duplicatePattern pattern), notices⟩

end Registry

end PathRouting
