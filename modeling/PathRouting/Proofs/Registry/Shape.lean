import PathRouting.Proofs.Compiled.Depth
import PathRouting.Proofs.Matcher.Within
import PathRouting.Proofs.Registry.Runs
import PathRouting.Proofs.Route.Addition
import PathRouting.Proofs.Route.Splitting

/-!
# The shape of a registry

Not every trie of segments is that of a registry. A pattern has a part at least, so nothing
ends at the root; a node is made only for a route that ends at it or behind it; and a
catch-all ends its route, whatever the pattern says after it. The keys are what a pattern can
be cut into. The compiler relies on all of this: it gives a matcher to every node, looks at
no node behind a catch-all, and leaves no end of a path without a payload.

## Main definitions

* `Segment.IsKey` — a segment that a node can have as its key
* `Trie.Sound` — what holds at every node below the root

## Main results

* `Trie.alive_of_matcher?` — the matcher of any node has a payload at each of its ends
* `Registry.Lawful.sound_of_below` — the nodes of a registry are sound
* `Registry.sound_registerAll` — so they are after every run, and they have matchers
-/

namespace PathRouting

universe u

namespace Segment

/-- A segment that can be the key of a node. -/
structure IsKey (segment : Segment) : Prop where
  slash_notMem : '/' ∉ segment.label.toList
  /-- Literal text does not begin with a mark. -/
  unmarked : segment.isLiteral = true →
    segment.label.toList.head? ≠ some ':' ∧ segment.label.toList.head? ≠ some '*'
  /-- What captures has a name. -/
  named : segment.isLiteral = false → segment.label ≠ ""

theorem WellFormed.isKey {segment : Segment} (h : segment.WellFormed) : segment.IsKey := by
  have hpart : segment.IsPart := isPart_iff.mpr ⟨h.slash_notMem, h.parse_write⟩
  refine ⟨hpart.slash_notMem, hpart.unmarked, ?_⟩
  have hname := h.isNameless_eq
  cases segment with
  | literal text => exact fun hliteral => absurd hliteral.symm Bool.false_ne_true
  | param name => exact fun _ => by simpa [isNameless, name?, label] using hname
  | catchAll name => exact fun _ => by simpa [isNameless, name?, label] using hname

end Segment

namespace Trie

variable {α : Type u}

/-- What holds at a node below the root, under the key that its parent has for it. -/
structure Sound (key : Segment) (node : Trie Segment α) : Prop where
  isKey : key.IsKey
  /-- A route ends at the node or behind it. -/
  leads : ∃ rest, (node.get? rest).isSome
  /-- A catch-all ends its route. -/
  ends : key.isCatchAll = true → node.payload.isSome ∧ node.children = []

/-! ### Matchers without a dead end -/

/-- What the smart constructors keep holds of the matcher of every node. -/
theorem matcher?_induction {motive : Matcher α → Prop}
    (prefixed : ∀ text m, motive m → motive (.prefixed text m))
    (table : ∀ entries : List (String × Matcher α),
      (∀ entry ∈ entries, motive entry.2) → motive (.table entries))
    (wild : ∀ name m, motive m → motive (.wild name m))
    (catchAll : ∀ name payload, motive (.catchAll name payload))
    (data : ∀ payload, motive (.data payload))
    (alternatives : ∀ members, members ≠ [] → (∀ m ∈ members, motive m) →
      motive (.alternatives members))
    (t : Trie Segment α) {m : Matcher α} (h : t.matcher? = some m) : motive m := by
  induction t using induction_children generalizing m with
  | node t ih =>
    have hcandidates : ∀ c ∈ t.candidates, motive c := by
      intro c hc
      rcases mem_candidates.mp hc with hc | hc | hc
      · have hliterals : ∀ entry ∈ (branch t.children).literals, motive entry.2 := by
          rintro ⟨text, inner⟩ hentry
          obtain ⟨child, hchild, hinner⟩ := mem_literals.mp hentry
          exact ih _ child hchild hinner
        rcases mem_dispatchers_cases hc with ⟨text, inner, hone, rfl⟩ | ⟨-, rfl⟩
        · rw [hone] at hliterals
          exact prefixed text inner (hliterals _ List.mem_cons_self)
        · exact table _ hliterals
      · obtain ⟨name, child, inner, hchild, hinner, rfl⟩ := mem_wilds.mp hc
        exact wild name inner (ih _ child hchild hinner)
      · obtain ⟨name, child, payload, -, -, rfl⟩ := mem_catchAlls.mp hc
        exact catchAll name payload
    rcases matcher?_cases h with ⟨payload, rfl⟩ | ⟨hne, hm⟩
    · exact data payload
    · have hslash : motive (.prefixed "/" (.alternatives t.candidates)) :=
        prefixed "/" _ (alternatives _ hne hcandidates)
      rcases hm with rfl | ⟨payload, rfl⟩
      · exact hslash
      · refine alternatives _ (List.cons_ne_nil _ _) ?_
        intro c hc
        rcases List.mem_pair.mp hc with rfl | rfl
        · exact hslash
        · exact data payload

/-- What compiling drops leaves no trace, so every end that is left has a payload. -/
theorem alive_of_matcher? (t : Trie Segment α) {m : Matcher α} (h : t.matcher? = some m) :
    m.Alive := by
  refine t.matcher?_induction ?_ ?_ ?_ ?_ ?_ ?_ h
  · exact fun text _ hm => hm.prefixed text
  · exact fun _ => .table
  · exact fun name _ hm => hm.wild name
  · exact .catchAll
  · exact .data
  · exact fun _ => .alternatives

end Trie

namespace Registry

variable {α : Type u} {registry : Registry α} {history : History Segment}

theorem Lawful.payload_eq_none (h : registry.Lawful history) :
    registry.routes.payload = none := by
  rw [← Option.not_isSome_iff_eq_none, h.grown.isSome_payload_iff]
  intro hnil
  exact (h.wellFormed [] hnil).ne_nil rfl

section Below

variable {key : Segment} {node : Trie Segment α} (hbelow : registry.routes.Below key node)

include hbelow

theorem Lawful.sound_of_below (h : registry.Lawful history) : node.Sound key := by
  obtain ⟨keys, hkey, hnode⟩ := h.grown.exists_behind_of_below hbelow
  have htidy := History.tidy_behindAll h.tidy keys
  obtain ⟨rest, hrest⟩ := History.mem_heads.mp hkey
  have hbehind := History.mem_behind.mpr hrest
  refine ⟨((htidy _ hrest).segments key List.mem_cons_self).isKey,
    ⟨rest, hnode.isSome_get?_iff.mpr hbehind⟩, ?_⟩
  intro hcatchAll
  cases key with
  | literal text => cases hcatchAll
  | param name => cases hcatchAll
  | catchAll name =>
    -- All that lies behind a catch-all is the end of the route.
    have hend : ∀ more, more ∈ (history.behindAll keys).behind (.catchAll name) → more = [] :=
      fun more hmore => (htidy _ (History.mem_behind.mp hmore)).eq_nil_of_catchAll
    obtain rfl := hend rest hbehind
    refine ⟨hnode.isSome_payload_iff.mpr hbehind, ?_⟩
    rw [List.eq_nil_iff_forall_not_mem]
    rintro ⟨other, child⟩ hchild
    obtain ⟨more, hmore⟩ := History.mem_heads.mp (hnode.mem_heads_of_mem hchild)
    cases hend _ hmore

theorem Lawful.isSome_matcher?_of_below (h : registry.Lawful history) :
    node.matcher?.isSome := by
  obtain ⟨keys, hkey, hnode⟩ := h.grown.exists_behind_of_below hbelow
  obtain ⟨rest, hrest⟩ := History.mem_heads.mp hkey
  obtain ⟨m, hm, -⟩ := hnode.exists_matcher?
    (History.tidy_behind (History.tidy_behindAll h.tidy keys) key)
    (List.ne_nil_of_mem (History.mem_behind.mpr hrest))
  exact Option.isSome_of_eq_some hm

end Below

/-- In a registry with a route, what is compiled is the matcher of the root. -/
theorem Lawful.matcher?_eq_compile (h : registry.Lawful history)
    (hne : registry.isEmpty = false) : registry.routes.matcher? = some registry.compile := by
  have hhistory : history ≠ [] := by
    rw [ne_eq, ← h.isEmpty_iff_eq_nil, hne]
    exact Bool.false_ne_true
  obtain ⟨m, hm, -⟩ := h.grown.exists_matcher? h.tidy hhistory
  rw [compile, hm, Option.getD_some]

/-- A registry with a route compiles to a matcher that has a payload at each of its ends. -/
theorem Lawful.alive_compile (h : registry.Lawful history) (hne : registry.isEmpty = false) :
    registry.compile.Alive :=
  registry.routes.alive_of_matcher? (h.matcher?_eq_compile hne)

/-- After every run the root has no payload, and every node below it is sound and has a
matcher: its key is one that a pattern can be cut into, a route ends at it or behind it, and
if it is that of a catch-all it has a payload and no children. If a route is registered, the
compiled matcher has no leaf without a payload. -/
theorem sound_registerAll (policy : Policy) (requests : List (String × α)) :
    let registry := (ofPolicy policy).registerAll requests
    registry.routes.payload = none ∧
      (∀ key node, registry.routes.Below key node →
        Trie.Sound key node ∧ node.matcher?.isSome) ∧
      (registry.isEmpty = false → registry.compile.Alive) := by
  intro registry
  have hlawful : registry.Lawful _ := lawful_registerAll policy requests
  refine ⟨hlawful.payload_eq_none, ?_, hlawful.alive_compile⟩
  intro key node hbelow
  exact ⟨hlawful.sound_of_below hbelow, hlawful.isSome_matcher?_of_below hbelow⟩

/-- The pattern goes on after its catch-all, but the node of the catch-all, three steps below
the root, ends the route. -/
theorem sound_registerAll_excess :
    let registry := (ofPolicy {}).registerAll [("/a/:x/*rest/more", 1), ("/a", 2)]
    let node : Trie Segment Nat := ⟨some 1, []⟩
    registry.routes.Below (.catchAll "rest") node ∧ registry.isEmpty = false ∧
      registry.routes.payload = none ∧
      (Trie.Sound (.catchAll "rest") node ∧ node.matcher?.isSome) ∧ registry.compile.Alive := by
  intro registry node
  have hroutes : registry.routes =
      ⟨none, [(.literal "a", ⟨some 2, [(.param "x", ⟨none, [(.catchAll "rest", node)]⟩)]⟩)]⟩ := by
    rfl
  have hbelow : registry.routes.Below (.catchAll "rest") node := by
    rw [hroutes]
    exact .deeper (.deeper (.child List.mem_cons_self) List.mem_cons_self) List.mem_cons_self
  obtain ⟨hroot, hsound, halive⟩ :=
    sound_registerAll {} [("/a/:x/*rest/more", 1), ("/a", 2)]
  exact ⟨hbelow, rfl, hroot, hsound _ _ hbelow, halive rfl⟩

end Registry

end PathRouting
