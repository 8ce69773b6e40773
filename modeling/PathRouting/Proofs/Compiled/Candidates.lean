import PathRouting.Proofs.Compiled.Node
import PathRouting.Proofs.Dict.Keys

/-!
# Children and their matchers

The matchers that compete at a node serve its children: all literal children share one
matcher, which looks the next part up, and every other child has a matcher of its own. What
a matcher finds for a part is what the child finds that the part leads to.

## Main definitions

* `Matcher.Serves` — the segments whose children a matcher stands for
* `Trie.waysThrough` — the ways on which a child takes the next part of a path

## Main results

* `Trie.branch_eq` — the matchers by kind, each from the children of that kind in order
* `Trie.ways_of_mem_dispatchers` — prefix tests and tables both look up the next part
* `Trie.exists_child`, `Trie.exists_candidate` — matchers and children have the same ways
-/

namespace PathRouting

universe u

variable {α : Type u}

open Matcher (Way)

/-- Whether a matcher stands for the children with a segment. -/
def Matcher.Serves : Matcher α → Segment → Prop
  | literal .., .literal _ => True
  | dispatch _, .literal _ => True
  | wild name _, .param name' => name = name'
  | catchAll name _, .catchAll name' => name = name'
  | _, _ => False

theorem Matcher.serves_wild_iff {name : String} {m : Matcher α} {segment : Segment} :
    (wild name m).Serves segment ↔ segment = .param name := by
  cases segment <;> simp [Serves, eq_comm]

theorem Matcher.serves_catchAll_iff {name : String} {payload : α} {segment : Segment} :
    (catchAll name payload).Serves segment ↔ segment = .catchAll name := by
  cases segment <;> simp [Serves, eq_comm]

namespace Trie

/-! ### The matchers of the children -/

/-- The entry of a literal child in the dispatch. -/
def literalMatcher? : Segment × Trie Segment α → Option (String × Matcher α)
  | (.literal text, child) => child.matcher?.map (text, ·)
  | _ => none

/-- The matcher of a parameter. -/
def paramMatcher? : Segment × Trie Segment α → Option (Matcher α)
  | (.param name, child) => child.matcher?.map (.wild name ·)
  | _ => none

/-- The matcher of a catch-all. -/
def catchAllMatcher? : Segment × Trie Segment α → Option (Matcher α)
  | (.catchAll name, child) => child.payload.map (.catchAll name ·)
  | _ => none

theorem literalMatcher?_eq_some_iff {entry : Segment × Trie Segment α} {text : String}
    {m : Matcher α} :
    literalMatcher? entry = some (text, m) ↔
      entry.1 = .literal text ∧ entry.2.matcher? = some m := by
  obtain ⟨segment, child⟩ := entry
  cases segment with
  | literal text' =>
    rw [literalMatcher?, Option.map_eq_some_iff]
    constructor
    · rintro ⟨m', hm', heq⟩
      obtain ⟨rfl, rfl⟩ := Prod.mk.inj heq
      exact ⟨rfl, hm'⟩
    · rintro ⟨htext, hm⟩
      obtain rfl := Segment.literal.inj htext
      exact ⟨m, hm, rfl⟩
  | param name => simp [literalMatcher?]
  | catchAll name => simp [literalMatcher?]

theorem paramMatcher?_eq_some_iff {entry : Segment × Trie Segment α} {m : Matcher α} :
    paramMatcher? entry = some m ↔
      ∃ name inner, entry.1 = .param name ∧ entry.2.matcher? = some inner ∧
        m = .wild name inner := by
  obtain ⟨segment, child⟩ := entry
  cases segment with
  | literal text => simp [paramMatcher?]
  | param name =>
    rw [paramMatcher?, Option.map_eq_some_iff]
    constructor
    · rintro ⟨inner, hinner, rfl⟩
      exact ⟨name, inner, rfl, hinner, rfl⟩
    · rintro ⟨name', inner, hname, hinner, rfl⟩
      obtain rfl := Segment.param.inj hname
      exact ⟨inner, hinner, rfl⟩
  | catchAll name => simp [paramMatcher?]

theorem catchAllMatcher?_eq_some_iff {entry : Segment × Trie Segment α} {m : Matcher α} :
    catchAllMatcher? entry = some m ↔
      ∃ name payload, entry.1 = .catchAll name ∧ entry.2.payload = some payload ∧
        m = .catchAll name payload := by
  obtain ⟨segment, child⟩ := entry
  cases segment with
  | literal text => simp [catchAllMatcher?]
  | param name => simp [catchAllMatcher?]
  | catchAll name =>
    rw [catchAllMatcher?, Option.map_eq_some_iff]
    constructor
    · rintro ⟨payload, hpayload, rfl⟩
      exact ⟨name, payload, rfl, hpayload, rfl⟩
    · rintro ⟨name', payload, hname, hpayload, rfl⟩
      obtain rfl := Segment.catchAll.inj hname
      exact ⟨payload, hpayload, rfl⟩

/-- The matchers of each kind come from the children of that kind, in their order. -/
theorem branch_eq (children : List (Segment × Trie Segment α)) :
    branch children = ⟨children.filterMap literalMatcher?, children.filterMap paramMatcher?,
      children.filterMap catchAllMatcher?⟩ := by
  induction children with
  | nil => rfl
  | cons entry rest ih =>
    obtain ⟨segment, child⟩ := entry
    rw [branch, ih]
    -- A child is added in front of the matchers of its kind, and the others do not change.
    cases segment with
    | literal text =>
      cases hchild : child.matcher? <;>
        simp [Branch.add, List.filterMap_cons, literalMatcher?, paramMatcher?, catchAllMatcher?,
          hchild]
    | param name =>
      cases hchild : child.matcher? <;>
        simp [Branch.add, List.filterMap_cons, literalMatcher?, paramMatcher?, catchAllMatcher?,
          hchild]
    | catchAll name =>
      cases hchild : child.payload <;>
        simp [Branch.add, List.filterMap_cons, literalMatcher?, paramMatcher?, catchAllMatcher?,
          hchild]

variable {t : Trie Segment α}

theorem mem_literals {text : String} {m : Matcher α} :
    (text, m) ∈ (branch t.children).literals ↔
      ∃ child, (.literal text, child) ∈ t.children ∧ child.matcher? = some m := by
  rw [branch_eq, List.mem_filterMap]
  constructor
  · rintro ⟨⟨segment, child⟩, hmem, hentry⟩
    obtain ⟨rfl, hm⟩ := literalMatcher?_eq_some_iff.mp hentry
    exact ⟨child, hmem, hm⟩
  · rintro ⟨child, hmem, hm⟩
    exact ⟨_, hmem, literalMatcher?_eq_some_iff.mpr ⟨rfl, hm⟩⟩

theorem mem_wilds {m : Matcher α} :
    m ∈ (branch t.children).wilds ↔ ∃ name child inner,
      (.param name, child) ∈ t.children ∧ child.matcher? = some inner ∧ m = .wild name inner := by
  rw [branch_eq, List.mem_filterMap]
  constructor
  · rintro ⟨⟨segment, child⟩, hmem, hentry⟩
    obtain ⟨name, inner, rfl, hinner, rfl⟩ := paramMatcher?_eq_some_iff.mp hentry
    exact ⟨name, child, inner, hmem, hinner, rfl⟩
  · rintro ⟨name, child, inner, hmem, hinner, rfl⟩
    exact ⟨_, hmem, paramMatcher?_eq_some_iff.mpr ⟨name, inner, rfl, hinner, rfl⟩⟩

theorem mem_catchAlls {m : Matcher α} :
    m ∈ (branch t.children).catchAlls ↔ ∃ name child payload,
      (.catchAll name, child) ∈ t.children ∧ child.payload = some payload ∧
        m = .catchAll name payload := by
  rw [branch_eq, List.mem_filterMap]
  constructor
  · rintro ⟨⟨segment, child⟩, hmem, hentry⟩
    obtain ⟨name, payload, rfl, hpayload, rfl⟩ := catchAllMatcher?_eq_some_iff.mp hentry
    exact ⟨name, child, payload, hmem, hpayload, rfl⟩
  · rintro ⟨name, child, payload, hmem, hpayload, rfl⟩
    exact ⟨_, hmem, catchAllMatcher?_eq_some_iff.mpr ⟨name, payload, rfl, hpayload, rfl⟩⟩

theorem nodup_literals (h : (t.children.map Prod.fst).Nodup) :
    ((branch t.children).literals.map Prod.fst).Nodup := by
  have hkeys : t.children.Pairwise fun a b => a.1 ≠ b.1 := List.pairwise_map.mp h
  rw [branch_eq]
  refine List.pairwise_map.mpr (List.pairwise_filterMap.mpr (hkeys.imp ?_))
  rintro entry entry' hne ⟨text, m⟩ hentry ⟨text', m'⟩ hentry' rfl
  apply hne
  rw [(literalMatcher?_eq_some_iff.mp hentry).1, (literalMatcher?_eq_some_iff.mp hentry').1]

/-- The dispatch has the matchers of the literal children. -/
theorem lookup_literals (h : (t.children.map Prod.fst).Nodup) (text : String) :
    (branch t.children).literals.lookup text =
      (t.children.lookup (.literal text)).bind matcher? := by
  ext m
  rw [Dict.lookup_eq_some_iff_mem (nodup_literals h), mem_literals, Option.bind_eq_some_iff]
  exact exists_congr fun child => and_congr_left' (Dict.lookup_eq_some_iff_mem h).symm

theorem mem_candidates {m : Matcher α} :
    m ∈ t.candidates ↔ m ∈ (branch t.children).dispatchers ∨ m ∈ (branch t.children).wilds ∨
      m ∈ (branch t.children).catchAlls := by
  rw [candidates, Branch.candidates, List.mem_append, List.mem_append, or_assoc]

/-- One literal child is tested as a prefix, and more of them are looked up in a table. -/
theorem mem_dispatchers_cases {branch : Branch α} {m : Matcher α} (hm : m ∈ branch.dispatchers) :
    (∃ text child, branch.literals = [(text, child)] ∧ m = .prefixed text child) ∨
      (2 ≤ branch.literals.length ∧ m = .table branch.literals) := by
  rw [Branch.dispatchers] at hm
  split at hm
  · cases hm
  · rename_i text child hone
    exact .inl ⟨text, child, hone, List.mem_singleton.mp hm⟩
  · rename_i hnil hone
    refine .inr ⟨?_, List.mem_singleton.mp hm⟩
    rcases hentries : branch.literals with _ | ⟨⟨text, child⟩, _ | ⟨next, rest⟩⟩
    · exact absurd hentries hnil
    · exact absurd hentries (hone text child)
    · exact Nat.le_add_left 2 _

/-! ### What the matchers find -/

/-- The ways on which a child takes the next part of a path. -/
def waysThrough (child : Trie Segment α) (segment : Segment) (part : List Char)
    (more : List (List Char)) : List (Way α) :=
  match segment with
  | .literal text => if part = text.toList then child.ways (Path.join more) else []
  | .param name =>
    if part = [] then [] else (child.ways (Path.join more)).map (.capture name part)
  | .catchAll name =>
    child.payload.toList.map (⟨·, [(name, String.ofList (part ++ Path.join more))]⟩)

/-- A prefix test for a whole part fails in effect unless the part is the next one: it may
succeed inside of a longer part, but then there is no way on. -/
theorem ways_behind_prefix (child : Trie Segment α) {text part : List Char}
    (htext : '/' ∉ text) (hpart : '/' ∉ part) (more : List (List Char)) :
    (match text.isPrefixOf? (part ++ Path.join more) with
      | some rest => child.ways rest
      | none => []) = if part = text then child.ways (Path.join more) else [] := by
  -- The text and the part are compared character by character, up to the first difference.
  induction text generalizing part with
  | nil =>
    cases part with
    | nil => cases hmore : Path.join more <;> rfl
    | cons c part =>
      -- The test succeeds too early, and the child stands in the middle of a part.
      rw [if_neg (List.cons_ne_nil c part)]
      exact child.ways_of_ne_slash (fun hc => hpart (hc ▸ List.mem_cons_self)) _
  | cons d text ih =>
    rw [List.mem_cons, not_or] at htext
    cases part with
    | nil =>
      -- The part ends too early, and what follows it is no character of the text.
      rw [if_neg (List.cons_ne_nil d text).symm, List.nil_append]
      rcases Path.join_eq_nil_or_slash more with hmore | ⟨rest, hmore⟩
      · rw [hmore]
        rfl
      · rw [hmore, List.isPrefixOf?, if_neg (mt beq_iff_eq.mp (Ne.symm htext.1))]
    | cons c part =>
      rw [List.mem_cons, not_or] at hpart
      rw [List.cons_append, List.isPrefixOf?]
      by_cases hc : d = c
      · rw [if_pos (beq_iff_eq.mpr hc), ih htext.2 hpart.2, hc]
        exact if_congr (by simp) rfl rfl
      · rw [if_neg (mt beq_iff_eq.mp hc), if_neg (fun h => hc (List.cons.inj h).1.symm)]

theorem ways_eq_of_matcher? {child : Trie Segment α} {inner : Matcher α}
    (h : child.matcher? = some inner) (path : List Char) : inner.ways path = child.ways path := by
  rw [ways, h]

theorem exists_matcher?_of_ways {child : Trie Segment α} {path : List Char}
    (h : child.ways path ≠ []) : ∃ inner, child.matcher? = some inner := by
  rw [ways] at h
  split at h
  · rename_i inner hinner
    exact ⟨inner, hinner⟩
  · contradiction

theorem ways_prefixed_text {child : Trie Segment α} {inner : Matcher α}
    (h : child.matcher? = some inner) {text : String} (htext : '/' ∉ text.toList)
    {part : List Char} (hpart : '/' ∉ part) (more : List (List Char)) :
    (Matcher.prefixed text inner).ways (part ++ Path.join more) =
      if part = text.toList then child.ways (Path.join more) else [] := by
  rw [Matcher.ways_prefixed]
  simp only [ways_eq_of_matcher? h]
  exact child.ways_behind_prefix htext hpart more

theorem serves_of_mem_dispatchers {branch : Branch α} {m : Matcher α} {segment : Segment}
    (hm : m ∈ branch.dispatchers) : m.Serves segment ↔ ∃ text, segment = .literal text := by
  have hkind : (∃ text depth child, m = .literal text depth child) ∨
      ∃ entries, m = .dispatch entries := by
    rcases mem_dispatchers_cases hm with ⟨text, child, -, rfl⟩ | ⟨-, rfl⟩
    · cases child <;> exact .inl ⟨_, _, _, rfl⟩
    · exact .inr ⟨_, rfl⟩
  rcases hkind with ⟨text, depth, child, rfl⟩ | ⟨entries, rfl⟩ <;>
    cases segment <;> simp [Matcher.Serves]

theorem literals_ne_nil_of_mem_dispatchers {branch : Branch α} {m : Matcher α}
    (hm : m ∈ branch.dispatchers) : branch.literals ≠ [] := by
  intro hnil
  rw [Branch.dispatchers, hnil] at hm
  cases hm

theorem exists_mem_dispatchers {branch : Branch α} (h : branch.literals ≠ []) :
    ∃ m, m ∈ branch.dispatchers := by
  rw [Branch.dispatchers]
  split
  · contradiction
  · exact ⟨_, List.mem_singleton.mpr rfl⟩
  · exact ⟨_, List.mem_singleton.mpr rfl⟩

theorem elim_lookup_literals (hkeys : (t.children.map Prod.fst).Nodup) (text : String)
    (path : List Char) :
    ((branch t.children).literals.lookup text).elim [] (·.ways path) =
      (t.children.lookup (.literal text)).elim [] (·.ways path) := by
  rw [lookup_literals hkeys]
  cases t.children.lookup (.literal text) with
  | none => rfl
  | some child =>
    rw [Option.bind_some, Option.elim_some, ways]
    cases child.matcher? <;> rfl

/-- One literal is tested as a prefix and several are looked up in a table. Either way the
next part decides which child goes on. -/
theorem ways_of_mem_dispatchers (hkeys : (t.children.map Prod.fst).Nodup)
    (hliterals : ∀ text child, (.literal text, child) ∈ t.children → '/' ∉ text.toList)
    {part : List Char} (hpart : '/' ∉ part) (more : List (List Char)) {m : Matcher α}
    (hm : m ∈ (branch t.children).dispatchers) :
    m.ways (part ++ Path.join more) =
      (t.children.lookup (.literal (String.ofList part))).elim [] (·.ways (Path.join more)) := by
  rw [← elim_lookup_literals hkeys]
  rcases mem_dispatchers_cases hm with ⟨text, inner, hone, rfl⟩ | ⟨-, rfl⟩
  · have hmem : (text, inner) ∈ (branch t.children).literals :=
      hone ▸ List.mem_singleton.mpr rfl
    obtain ⟨child, hchild, hinner⟩ := mem_literals.mp hmem
    rw [ways_prefixed_text hinner (hliterals text child hchild) hpart, hone, List.lookup_cons]
    by_cases htext : part = text.toList
    · rw [if_pos htext, htext, String.ofList_toList, beq_self_eq_true]
      exact (ways_eq_of_matcher? hinner _).symm
    · have hne : String.ofList part ≠ text := by
        rintro rfl
        exact htext (String.toList_ofList).symm
      rw [if_neg htext, beq_eq_false_iff_ne.mpr hne]
      rfl
  · rw [Matcher.table, Dict.ofList_eq_self (nodup_literals hkeys), Matcher.ways,
      Path.frontPart_append_join hpart, Matcher.entryWays_eq]
    cases (branch t.children).literals.lookup (String.ofList part) <;> rfl

/-! ### Matchers and children -/

section

variable (hkeys : (t.children.map Prod.fst).Nodup)
  (hliterals : ∀ text child, (.literal text, child) ∈ t.children → '/' ∉ text.toList)
  {part : List Char} (hpart : '/' ∉ part) (more : List (List Char))

include hkeys hliterals hpart

/-- What a matcher finds for the next part, a child finds that it serves. -/
theorem exists_child {m : Matcher α} (hm : m ∈ t.candidates)
    (hways : m.ways (part ++ Path.join more) ≠ []) :
    ∃ segment child, (segment, child) ∈ t.children ∧ m.Serves segment ∧
      m.ways (part ++ Path.join more) = child.waysThrough segment part more := by
  rcases mem_candidates.mp hm with hm | hm | hm
  · -- Of all literals, the one that the part spells has the child.
    have heq := ways_of_mem_dispatchers hkeys hliterals hpart more hm
    cases hchild : t.children.lookup (.literal (String.ofList part)) with
    | none =>
      rw [hchild] at heq
      exact absurd heq hways
    | some child =>
      refine ⟨_, child, (Dict.lookup_eq_some_iff_mem hkeys).mp hchild,
        (serves_of_mem_dispatchers hm).mpr ⟨_, rfl⟩, ?_⟩
      rw [heq, hchild, Option.elim_some, waysThrough, if_pos (String.toList_ofList).symm]
  · obtain ⟨name, child, inner, hchild, hinner, rfl⟩ := mem_wilds.mp hm
    refine ⟨_, child, hchild, Matcher.serves_wild_iff.mpr rfl, ?_⟩
    rw [Matcher.ways, Path.frontPart_append_join hpart, waysThrough, ways, hinner]
  · obtain ⟨name, child, payload, hchild, hpayload, rfl⟩ := mem_catchAlls.mp hm
    refine ⟨_, child, hchild, Matcher.serves_catchAll_iff.mpr rfl, ?_⟩
    rw [Matcher.ways, waysThrough, hpayload]
    rfl

/-- What a child finds for the next part, a matcher finds that serves it. -/
theorem exists_candidate {segment : Segment} {child : Trie Segment α}
    (hchild : (segment, child) ∈ t.children) (hways : child.waysThrough segment part more ≠ []) :
    ∃ m ∈ t.candidates, m.Serves segment ∧
      m.ways (part ++ Path.join more) = child.waysThrough segment part more := by
  cases segment with
  | literal text =>
    obtain rfl : part = text.toList := by
      by_contra hne
      exact hways (if_neg hne)
    rw [waysThrough, if_pos rfl] at hways
    rw [waysThrough, if_pos rfl]
    -- A child with ways has a matcher, so there is something to dispatch on.
    obtain ⟨inner, hinner⟩ := exists_matcher?_of_ways hways
    obtain ⟨m, hm⟩ := exists_mem_dispatchers
      (List.ne_nil_of_mem (mem_literals.mpr ⟨child, hchild, hinner⟩))
    refine ⟨m, mem_candidates.mpr (.inl hm), (serves_of_mem_dispatchers hm).mpr ⟨_, rfl⟩, ?_⟩
    rw [ways_of_mem_dispatchers hkeys hliterals hpart more hm, String.ofList_toList,
      (Dict.lookup_eq_some_iff_mem hkeys).mpr hchild, Option.elim_some]
  | param name =>
    have hinner : ∃ inner, child.matcher? = some inner := by
      apply exists_matcher?_of_ways
      intro hnone
      apply hways
      rw [waysThrough, hnone, List.map_nil, ite_self]
    obtain ⟨inner, hinner⟩ := hinner
    refine ⟨.wild name inner, ?_, Matcher.serves_wild_iff.mpr rfl, ?_⟩
    · have hwild := mem_wilds.mpr ⟨name, child, inner, hchild, hinner, rfl⟩
      exact mem_candidates.mpr (.inr (.inl hwild))
    · rw [Matcher.ways, Path.frontPart_append_join hpart, waysThrough, ways, hinner]
  | catchAll name =>
    cases hpayload : child.payload with
    | none =>
      rw [waysThrough, hpayload] at hways
      exact absurd rfl hways
    | some payload =>
      refine ⟨.catchAll name payload, ?_, Matcher.serves_catchAll_iff.mpr rfl, ?_⟩
      · exact mem_candidates.mpr
          (.inr (.inr (mem_catchAlls.mpr ⟨name, child, payload, hchild, hpayload, rfl⟩)))
      · rw [Matcher.ways, waysThrough, hpayload]
        rfl

end

end Trie

end PathRouting
