import PathRouting.Proofs.Matcher.Alternatives
import PathRouting.Proofs.Matcher.Congruence
import PathRouting.Proofs.Registry.Shape

/-!
# The normal form of compiled matchers

A compiled matcher has no node that could be left out. Its literals are folded, a table or a
choice has two members at least, and no choice is a member of another one. Where a part of a
path has been taken off, what follows is the end of the path, a slash, or the choice of both,
in this order: so a literal that ends inside of a part leads nowhere.

Each smart constructor establishes this for the node it builds, and the rest is an induction
on the trie.

## Main definitions

* `Matcher.Continuation` — what may stand behind a whole part
* `Matcher.NormalNode` — the conditions on a single node
* `Matcher.Normal` — these conditions at every node of a matcher

## Main results

* `Matcher.Normal.prefixed`, `Matcher.Normal.table`, `Matcher.Normal.alternatives` — the smart
  constructors of normal matchers
* `Trie.continuation_of_matcher?`, `Trie.GrownFrom.normal_of_matcher?` — the matcher of a node
* `Registry.keyed_compile` — the tables of a compiled matcher are maps
* `Registry.normal_registerAll` — after every run of registrations the compiled matcher is
  normal
-/

namespace PathRouting

universe u

namespace Matcher

variable {α : Type u}

/-- What may stand behind a whole part of a path: its end, a slash, or the choice of a slash
and then the end. -/
inductive Continuation : Matcher α → Prop
  | ends (payload : α) : Continuation (.leaf (some payload))
  | slash {text : String} {depth : Nat} {child : Matcher α}
    (hslash : text.toList.head? = some '/') : Continuation (.literal text depth child)
  | both {text : String} {depth : Nat} {child : Matcher α} (payload : α)
    (hslash : text.toList.head? = some '/') :
    Continuation (.choice [.literal text depth child, .leaf (some payload)])

/-- The conditions of the normal form on a single node. -/
def NormalNode : Matcher α → Prop
  | literal _ _ child => ∀ text depth inner, child ≠ .literal text depth inner
  | dispatch entries => 2 ≤ entries.length ∧ (entries.map Prod.fst).Nodup ∧
      ∀ entry ∈ entries, '/' ∉ entry.1.toList ∧ entry.2.Continuation
  | wild _ child => child.Continuation
  | catchAll _ _ => True
  | leaf payload => payload.isSome = true
  | choice members => 2 ≤ members.length ∧ (∀ m ∈ members, ∀ inner, m ≠ .choice inner) ∧
      members.Pairwise MayPrecede

/-- Every node satisfies the conditions of the normal form. -/
def Normal (m : Matcher α) : Prop :=
  ∀ n : Matcher α, n.Within m → n.NormalNode

theorem prefixed_ne_choice (text : String) (m : Matcher α) (inner : List (Matcher α)) :
    prefixed text m ≠ .choice inner := by
  obtain ⟨text', depth, child, hliteral⟩ := exists_prefixed_eq text m
  rw [hliteral]
  exact fun h => by cases h

/-! ### Smart constructors -/

namespace Normal

variable {m : Matcher α}

theorem prefixed (h : m.Normal) (text : String) : (Matcher.prefixed text m).Normal := by
  intro n hn
  rcases hn.of_prefixed with rfl | hwithin
  · cases m with
    | literal more depth child =>
      -- The child of a literal that is folded away is no literal already.
      exact h (.literal more depth child) .self
    | dispatch entries => exact fun _ _ _ heq => by cases heq
    | wild name child => exact fun _ _ _ heq => by cases heq
    | catchAll name payload => exact fun _ _ _ heq => by cases heq
    | leaf payload => exact fun _ _ _ heq => by cases heq
    | choice members => exact fun _ _ _ heq => by cases heq
  · exact h n hwithin

theorem wild (h : m.Normal) (name : String) (hchild : m.Continuation) :
    (Matcher.wild name m).Normal := by
  intro n hn
  cases hn with
  | self => exact hchild
  | wild hwithin => exact h n hwithin

theorem catchAll (name : String) (payload : α) : (Matcher.catchAll name payload).Normal := by
  intro n hn
  cases hn
  trivial

theorem data (payload : α) : (Matcher.data payload).Normal := by
  intro n hn
  cases hn
  rfl

theorem table {entries : List (String × Matcher α)} (htwo : 2 ≤ entries.length)
    (hnodup : (entries.map Prod.fst).Nodup)
    (hentries : ∀ entry ∈ entries, '/' ∉ entry.1.toList ∧ entry.2.Continuation)
    (h : ∀ entry ∈ entries, entry.2.Normal) : (Matcher.table entries).Normal := by
  intro n hn
  rcases hn.of_table with rfl | ⟨entry, hentry, hwithin⟩
  · rw [Matcher.table, Dict.ofList_eq_self hnodup]
    exact ⟨htwo, hnodup, hentries⟩
  · exact h entry hentry n hwithin

theorem alternatives {members : List (Matcher α)} (hne : members ≠ [])
    (hflat : ∀ m ∈ members, ∀ inner, m ≠ .choice inner) (h : ∀ m ∈ members, m.Normal) :
    (Matcher.alternatives members).Normal := by
  match members with
  | [] => exact absurd rfl hne
  | [m] => exact h m (List.mem_singleton_self m)
  | m :: m' :: rest =>
    intro n hn
    rcases hn.of_alternatives hne with rfl | ⟨member, hmember, hwithin⟩
    · have hperm := Rank.sortBy_perm rank (m :: m' :: rest)
      refine ⟨?_, ?_, ?_⟩
      · rw [hperm.length_eq, List.length_cons, List.length_cons]
        exact Nat.le_add_left 2 _
      · intro member hmember
        exact hflat member (hperm.mem_iff.mp hmember)
      · exact (Rank.sortBy_pairwise rank _).imp mayPrecede_iff.mpr
    · exact h member hmember n hwithin

end Normal

/-! ### Behind a whole part -/

/-- A literal text stays in front of what is folded into it. -/
theorem exists_prefixed_slash (m : Matcher α) :
    ∃ text depth child, prefixed "/" m = .literal text depth child ∧
      text.toList.head? = some '/' := by
  have hslash : "/".toList.head? = some '/' := rfl
  cases m with
  | literal more depth child =>
    refine ⟨_, _, _, rfl, ?_⟩
    rw [String.toList_append, List.head?_append, hslash]
    rfl
  | _ => exact ⟨_, _, _, rfl, hslash⟩

theorem continuation_prefixed_slash (m : Matcher α) : (prefixed "/" m).Continuation := by
  obtain ⟨text, depth, child, hliteral, hslash⟩ := exists_prefixed_slash m
  rw [hliteral]
  exact .slash hslash

/-- A slash goes before the end of the path: it is as deep at least, and has text. -/
theorem continuation_slash_or_data (m : Matcher α) (payload : α) :
    (alternatives [prefixed "/" m, data payload]).Continuation := by
  have hdepth := depth_prefixed "/" m
  obtain ⟨text, depth, child, hliteral, hslash⟩ := exists_prefixed_slash m
  have hle : (prefixed "/" m).rank.le (data payload).rank = true := by
    rw [hliteral] at hdepth ⊢
    have hdata : (data payload).rank = ⟨false, 1, 0⟩ := rfl
    have hrank : (literal text depth child).rank = ⟨false, m.depth + 1, text.utf8ByteSize⟩ :=
      congrArg (Rank.mk false · _) hdepth
    rw [Rank.le_iff, hdata, hrank]
    refine .inr ⟨rfl, ?_⟩
    rcases Nat.eq_zero_or_pos m.depth with hzero | hpos
    · exact .inr ⟨by rw [hzero], Nat.zero_le _⟩
    · exact .inl (Nat.succ_lt_succ hpos)
  have hsorted : alternatives [prefixed "/" m, data payload] =
      .choice [prefixed "/" m, data payload] := by
    change Matcher.choice (Rank.insertBy rank _ [data payload]) = _
    rw [Rank.insertBy, if_pos hle]
  rw [hsorted, hliteral]
  exact .both payload hslash

end Matcher

namespace Trie

variable {α : Type u} {t : Trie Segment α}

theorem continuation_of_matcher? {m : Matcher α} (h : t.matcher? = some m) :
    m.Continuation := by
  rcases matcher?_cases h with ⟨payload, rfl⟩ | ⟨-, rfl | ⟨payload, rfl⟩⟩
  · exact .ends payload
  · exact Matcher.continuation_prefixed_slash _
  · exact Matcher.continuation_slash_or_data _ payload

/-- No matcher that competes at a node is a choice. -/
theorem ne_choice_of_mem_candidates {c : Matcher α} (hc : c ∈ t.candidates)
    (inner : List (Matcher α)) : c ≠ .choice inner := by
  rcases mem_candidates.mp hc with hc | hc | hc
  · rcases mem_dispatchers_cases hc with ⟨text, child, -, rfl⟩ | ⟨-, rfl⟩
    · exact Matcher.prefixed_ne_choice _ _ inner
    · exact fun h => by cases h
  · obtain ⟨name, child, m, -, -, rfl⟩ := mem_wilds.mp hc
    exact fun h => by cases h
  · obtain ⟨name, child, payload, -, -, rfl⟩ := mem_catchAlls.mp hc
    exact fun h => by cases h

theorem normal_of_candidates (h : ∀ c ∈ t.candidates, c.Normal) {m : Matcher α}
    (hm : t.matcher? = some m) : m.Normal := by
  have hslash : t.candidates ≠ [] →
      (Matcher.prefixed "/" (.alternatives t.candidates)).Normal := by
    intro hne
    exact (Matcher.Normal.alternatives hne (fun _ => ne_choice_of_mem_candidates) h).prefixed "/"
  rcases matcher?_cases hm with ⟨payload, rfl⟩ | ⟨hne, rfl | ⟨payload, rfl⟩⟩
  · exact .data payload
  · exact hslash hne
  · refine .alternatives (List.cons_ne_nil _ _) ?_ ?_
    · intro c hc inner
      rcases List.mem_pair.mp hc with rfl | rfl
      · exact Matcher.prefixed_ne_choice _ _ inner
      · exact fun heq => by cases heq
    · intro c hc
      rcases List.mem_pair.mp hc with rfl | rfl
      · exact hslash hne
      · exact .data payload

theorem normal_of_mem_dispatchers {branch : Branch α}
    (hnodup : (branch.literals.map Prod.fst).Nodup)
    (hliterals : ∀ entry ∈ branch.literals, '/' ∉ entry.1.toList ∧ entry.2.Continuation)
    (h : ∀ entry ∈ branch.literals, entry.2.Normal) {m : Matcher α}
    (hm : m ∈ branch.dispatchers) : m.Normal := by
  rcases mem_dispatchers_cases hm with ⟨text, child, hone, rfl⟩ | ⟨htwo, rfl⟩
  · rw [hone] at h
    exact (h _ List.mem_cons_self).prefixed text
  · exact .table htwo hnodup hliterals h

/-- The matcher of a node is normal. -/
theorem GrownFrom.normal_of_matcher? {history : History Segment} (hgrown : GrownFrom history t)
    (htidy : ∀ route ∈ history, Route.Tidy route) {m : Matcher α} (h : t.matcher? = some m) :
    m.Normal := by
  induction t using induction_children generalizing history m with
  | node t ih =>
    have hbelow : ∀ {segment child inner}, (segment, child) ∈ t.children →
        child.matcher? = some inner → inner.Normal := by
      intro segment child inner hchild hinner
      exact ih segment child hchild (hgrown.of_mem hchild) (History.tidy_behind htidy segment)
        hinner
    refine normal_of_candidates ?_ h
    intro c hc
    rcases mem_candidates.mp hc with hc | hc | hc
    · refine normal_of_mem_dispatchers (nodup_literals hgrown.nodup_keys) ?_ ?_ hc
      · rintro ⟨text, inner⟩ hentry
        obtain ⟨child, hchild, hinner⟩ := mem_literals.mp hentry
        obtain ⟨rest, hrest⟩ := History.mem_heads.mp (hgrown.mem_heads_of_mem hchild)
        exact ⟨(htidy _ hrest).slash_notMem, continuation_of_matcher? hinner⟩
      · rintro ⟨text, inner⟩ hentry
        obtain ⟨child, hchild, hinner⟩ := mem_literals.mp hentry
        exact hbelow hchild hinner
    · obtain ⟨name, child, inner, hchild, hinner, rfl⟩ := mem_wilds.mp hc
      exact (hbelow hchild hinner).wild name (continuation_of_matcher? hinner)
    · obtain ⟨name, child, payload, -, -, rfl⟩ := mem_catchAlls.mp hc
      exact .catchAll name payload

/-- No table that is compiled repeats a key, whatever the trie. -/
theorem keyed_of_matcher? (t : Trie Segment α) {m : Matcher α} (h : t.matcher? = some m) :
    m.Keyed := by
  refine t.matcher?_induction ?_ ?_ ?_ ?_ ?_ ?_ h
  · exact fun text _ hm => hm.prefixed text
  · exact fun _ => .table
  · exact fun _ _ hm => .wild hm
  · exact fun _ _ => .catchAll
  · exact fun _ => .leaf
  · exact fun _ _ => .alternatives

end Trie

namespace Registry

variable {α : Type u} {registry : Registry α} {history : History Segment}

/-- The tables of a compiled matcher are maps, so matchers that are equal to it may take its
place. -/
theorem keyed_compile (registry : Registry α) : registry.compile.Keyed := by
  rw [compile]
  cases h : registry.routes.matcher? with
  | none => exact .leaf
  | some m => exact registry.routes.keyed_of_matcher? h

/-- A registry without routes compiles to the leaf without a payload. -/
theorem Lawful.compile_eq_leaf (h : registry.Lawful []) : registry.compile = .leaf none := by
  rw [compile, h.grown.eq_empty]
  rfl

/-- A registry with a route compiles to a normal matcher. -/
theorem Lawful.normal_compile (h : registry.Lawful history) (hne : registry.isEmpty = false) :
    registry.compile.Normal :=
  h.grown.normal_of_matcher? h.tidy (h.matcher?_eq_compile hne)

/-- After every run of registrations, the compiled matcher is the leaf without a payload if no
route is registered, and only then. Otherwise every node of it satisfies the conditions of
the normal form. -/
theorem normal_registerAll (policy : Policy) (requests : List (String × α)) :
    let registry := (ofPolicy policy).registerAll requests
    (registry.compile = .leaf none ↔ registry.isEmpty = true) ∧
      (registry.isEmpty = false →
        ∀ n : Matcher α, n.Within registry.compile → n.NormalNode) := by
  intro registry
  have hlawful : registry.Lawful ((ofPolicy policy).routeHistory requests) :=
    lawful_registerAll policy requests
  refine ⟨⟨?_, ?_⟩, hlawful.normal_compile⟩
  · intro hleaf
    -- A normal matcher is no leaf without a payload.
    by_contra hne
    have hnode := hlawful.normal_compile (Bool.eq_false_iff.mpr hne) _ .self
    rw [hleaf] at hnode
    cases hnode
  · intro hempty
    rw [hlawful.isEmpty_iff_eq_nil.mp hempty] at hlawful
    exact hlawful.compile_eq_leaf

/-- A table below a folded slash, and behind the parameter the choice of a folded literal and
the end of the path. -/
theorem normal_registerAll_both :
    let registry := (ofPolicy {}).registerAll [("/a/:x/b", 1), ("/a/:x", 2), ("/c", 3)]
    let behind : Matcher Nat := .choice [.literal "/b" 3 (.leaf (some 1)), .leaf (some 2)]
    registry.isEmpty = false ∧
      registry.compile =
        .literal "/" 7 (.dispatch
          [("a", .literal "/" 5 (.wild "x" behind)), ("c", .leaf (some 3))]) ∧
      registry.compile ≠ .leaf none ∧
      (Matcher.wild "x" behind).Within registry.compile ∧
      (Matcher.wild "x" behind).NormalNode := by
  intro registry behind
  have hne : registry.isEmpty = false := rfl
  have hroutes : registry.routes = ⟨none, [
      (.literal "a", ⟨none, [(.param "x", ⟨some 2, [(.literal "b", ⟨some 1, []⟩)]⟩)]⟩),
      (.literal "c", ⟨some 3, []⟩)]⟩ := rfl
  have hcompile : registry.compile = .literal "/" 7 (.dispatch
      [("a", .literal "/" 5 (.wild "x" behind)), ("c", .leaf (some 3))]) := by
    rw [compile, hroutes]
    rfl
  have hwithin : (Matcher.wild "x" behind).Within registry.compile := by
    rw [hcompile]
    exact .literal (.dispatch List.mem_cons_self (.literal .self))
  obtain ⟨hleaf, hnormal⟩ :=
    normal_registerAll {} [("/a/:x/b", 1), ("/a/:x", 2), ("/c", 3)]
  have hnode : (Matcher.wild "x" behind).NormalNode := hnormal hne _ hwithin
  refine ⟨hne, hcompile, ?_, hwithin, hnode⟩
  intro hcompile
  have hempty : registry.isEmpty = true := hleaf.mp hcompile
  rw [hne] at hempty
  cases hempty

end Registry

end PathRouting
