import PathRouting.Proofs.Registry.Contents
import PathRouting.Proofs.Trie.Nodes
import PathRouting.Registry.Compiled

/-!
# Refused registrations

A request that is refused leaves no trace. An invalid pattern is refused before any node is
touched. A duplicate is noticed only after the descent to its node, which would create what
is missing on the way; but a route that has a payload is one on whose way nothing is
missing.

## Main results

* `Registry.register_refused_eq_self` — after every run, a request that is refused changes
  nothing, and every node serves a registered route
-/

namespace PathRouting.Registry

universe u

variable {α : Type u}

/-- After every run, a request that is refused for whatever reason leaves the registry as it
was, and so its matcher. No node is left behind that has no payload at it or below it. -/
theorem register_refused_eq_self (policy : Policy) (requests : List (String × α))
    (pattern : String) (payload : α) (e : RegistrationError)
    (h : (((ofPolicy policy).registerAll requests).register pattern payload).outcome =
      .error e) :
    let before := (ofPolicy policy).registerAll requests
    let after := (before.register pattern payload).registry
    after = before ∧ after.compile = before.compile ∧
      ∀ keys node, keys ≠ [] → after.routes.node? keys = some node →
        ∃ rest, (node.get? rest).isSome := by
  intro before after
  have hsame : after = before := registry_register_of_error h
  refine ⟨hsame, congrArg compile hsame, ?_⟩
  intro keys node hkeys hnode
  have hgrown : before.routes.GrownFrom _ := (lawful_registerAll policy requests).grown
  exact (hsame ▸ hgrown).exists_isSome_get? hkeys hnode

/-- The duplicate is noticed at the end of a descent through three nodes; its text differs
from the one that is registered only behind the catch-all. -/
theorem register_refused_eq_self_duplicate :
    let before := (ofPolicy ⟨.reject, false⟩).registerAll [("/a/:x/*rest", 1), ("/a/b", 2)]
    let after := (before.register "/a/:x/*rest/more" 3).registry
    (before.register "/a/:x/*rest/more" 3).outcome =
        .error (.duplicatePattern "/a/:x/*rest/more") ∧
      after = before ∧ after.compile = before.compile ∧
      ∀ keys node, keys ≠ [] → after.routes.node? keys = some node →
        ∃ rest, (node.get? rest).isSome := by
  intro before after
  have hrefused : (before.register "/a/:x/*rest/more" 3).outcome =
      .error (.duplicatePattern "/a/:x/*rest/more") := by decide
  exact ⟨hrefused, register_refused_eq_self _ _ _ _ _ hrefused⟩

end PathRouting.Registry
