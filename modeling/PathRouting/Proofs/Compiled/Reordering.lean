import Mathlib.Data.List.Perm.Basic
import PathRouting.Proofs.Compiled.Candidates
import PathRouting.Proofs.Matcher.Same
import PathRouting.Proofs.Registry.Writes

/-!
# The order of registration

The order in which routes are registered is seen in the order of the children of a node, and
in nothing else. Among the matchers that compete at a node the literals share one matcher,
so the order is felt only between two parameters or between two catch-alls. Routes that
never offer such a choice compile to the same matcher in whatever order they come.

## Main definitions

* `History.Unambiguous` — no place goes on with two parameters or with two catch-alls
* `Trie.Alike` — nodes that compile to the same matcher

## Main results

* `Trie.GrownFrom.alike` — tries with the same payloads compile to the same matcher
* `Registry.compile_beq_of_perm` — so do requests in whatever order
-/

namespace PathRouting

universe u

variable {α : Type u}

/-! ### Routes without a choice of names -/

namespace History

/-- Behind no list of segments do the routes go on with two parameters, or with two
catch-alls. -/
structure Unambiguous (history : History Segment) : Prop where
  param_eq : ∀ front a b rest rest', front ++ .param a :: rest ∈ history →
    front ++ .param b :: rest' ∈ history → a = b
  catchAll_eq : ∀ front a b rest rest', front ++ .catchAll a :: rest ∈ history →
    front ++ .catchAll b :: rest' ∈ history → a = b

variable {history : History Segment}

theorem Unambiguous.behind (h : history.Unambiguous) (segment : Segment) :
    Unambiguous (history.behind segment) where
  param_eq front a b rest rest' ha hb :=
    h.param_eq (segment :: front) a b rest rest' (mem_behind.mp ha) (mem_behind.mp hb)
  catchAll_eq front a b rest rest' ha hb :=
    h.catchAll_eq (segment :: front) a b rest rest' (mem_behind.mp ha) (mem_behind.mp hb)

theorem Unambiguous.param_eq_of_mem_heads (h : history.Unambiguous) {a b : String}
    (ha : .param a ∈ history.heads) (hb : .param b ∈ history.heads) : a = b := by
  obtain ⟨rest, hrest⟩ := mem_heads.mp ha
  obtain ⟨rest', hrest'⟩ := mem_heads.mp hb
  exact h.param_eq [] a b rest rest' hrest hrest'

theorem Unambiguous.catchAll_eq_of_mem_heads (h : history.Unambiguous) {a b : String}
    (ha : .catchAll a ∈ history.heads) (hb : .catchAll b ∈ history.heads) : a = b := by
  obtain ⟨rest, hrest⟩ := mem_heads.mp ha
  obtain ⟨rest', hrest'⟩ := mem_heads.mp hb
  exact h.catchAll_eq [] a b rest rest' hrest hrest'

end History

/-! ### The children of a node in another order -/

namespace Matcher

theorem Same.rel_map {β : Type u} {R : β → β → Prop} {f : Matcher α → β}
    (hf : ∀ m m', Same m m' → R (f m) (f m')) {m? m?' : Option (Matcher α)}
    (h : Option.Rel Same m? m?') : Option.Rel R (m?.map f) (m?'.map f) := by
  cases h with
  | none => exact .none
  | some hsame => exact .some (hf _ _ hsame)

theorem Same.forall₂_toList {m? m?' : Option (Matcher α)} (h : Option.Rel Same m? m?') :
    List.Forall₂ Same m?.toList m?'.toList := by
  cases h with
  | none => exact .nil
  | some hsame => exact .cons hsame .nil

theorem Same.rel_ofCandidates? {members members' : List (Matcher α)}
    (h : List.Forall₂ Same members members') :
    Option.Rel Same (ofCandidates? members) (ofCandidates? members') := by
  cases h with
  | nil => exact .none
  | cons hhead htail => exact .some (alternatives (.cons hhead htail))

end Matcher

namespace Branch

/-- Dispatches with the same entries, in whatever order, are the same. -/
theorem forall₂_dispatchers {branch branch' : Branch α}
    (hnodup : (branch.literals.map Prod.fst).Nodup)
    (hkeys : (branch.literals.map Prod.fst).Perm (branch'.literals.map Prod.fst))
    (hchild : ∀ text m m', (text, m) ∈ branch.literals → (text, m') ∈ branch'.literals →
      Matcher.Same m m') :
    List.Forall₂ Matcher.Same branch.dispatchers branch'.dispatchers := by
  rw [dispatchers, dispatchers]
  generalize branch.literals = literals at hnodup hkeys hchild
  generalize branch'.literals = literals' at hkeys hchild
  have hlength : literals.length = literals'.length := by simpa using hkeys.length_eq
  cases literals with
  | nil =>
    obtain rfl := List.length_eq_zero_iff.mp hlength.symm
    exact .nil
  | cons entry rest =>
    cases rest with
    | nil =>
      obtain ⟨entry', rfl⟩ := List.length_eq_one_iff.mp hlength.symm
      obtain ⟨text, m⟩ := entry
      obtain ⟨text', m'⟩ := entry'
      obtain rfl : text = text' := by simpa using hkeys
      have hm := hchild text m m' List.mem_cons_self List.mem_cons_self
      exact .cons (hm.prefixed text) .nil
    | cons next rest =>
      obtain ⟨entry', more, rfl⟩ := List.exists_of_length_succ literals' hlength.symm
      obtain ⟨next', rest', rfl⟩ := List.exists_of_length_succ more (Nat.succ.inj hlength).symm
      exact .cons (.table hnodup hkeys hchild) .nil

end Branch

namespace Trie

/-- Nodes at which the same ends, and whose matchers are the same. -/
structure Alike (t t' : Trie Segment α) : Prop where
  payload_eq : t.payload = t'.payload
  matcher : Option.Rel Matcher.Same t.matcher? t'.matcher?

/-- Children of one kind have at most one matcher, if that kind has one name. -/
theorem length_filterMap_le_one {children : List (Segment × Trie Segment α)}
    (hnodup : (children.map Prod.fst).Nodup)
    {f : Segment × Trie Segment α → Option (Matcher α)} {kind : String → Segment}
    (hkind : ∀ entry m, f entry = some m → ∃ name, entry.1 = kind name)
    (hone : ∀ a b, kind a ∈ children.map Prod.fst → kind b ∈ children.map Prod.fst → a = b) :
    (children.filterMap f).length ≤ 1 := by
  have hne : children.Pairwise fun a b => a.1 ≠ b.1 := List.pairwise_map.mp hnodup
  have hnone : (children.filterMap f).Pairwise fun _ _ => False := by
    refine List.pairwise_filterMap.mpr (hne.imp_of_mem ?_)
    intro entry entry' hmem hmem' hne m hm m' hm'
    obtain ⟨a, ha⟩ := hkind entry m hm
    obtain ⟨b, hb⟩ := hkind entry' m' hm'
    have hab : a = b := hone a b (ha ▸ List.mem_map_of_mem hmem) (hb ▸ List.mem_map_of_mem hmem')
    rw [ha, hb, hab] at hne
    exact hne rfl
  match hmatchers : children.filterMap f with
  | [] => exact Nat.zero_le 1
  | [_] => exact Nat.le_refl 1
  | m :: m' :: rest =>
    rw [hmatchers, List.pairwise_cons] at hnone
    exact (hnone.1 m' List.mem_cons_self).elim

section

variable {child child' : Trie Segment α} (h : child.Alike child') (segment : Segment)

include h

theorem Alike.rel_literalMatcher? : Option.Rel (fun entry entry' => entry.1 = entry'.1)
    (literalMatcher? (segment, child)) (literalMatcher? (segment, child')) := by
  cases segment with
  | literal text => exact Matcher.Same.rel_map (fun _ _ _ => rfl) h.matcher
  | param name => exact .none
  | catchAll name => exact .none

theorem Alike.rel_paramMatcher? : Option.Rel Matcher.Same
    (paramMatcher? (segment, child)) (paramMatcher? (segment, child')) := by
  cases segment with
  | literal text => exact .none
  | param name => exact Matcher.Same.rel_map (fun _ _ => .wild) h.matcher
  | catchAll name => exact .none

theorem Alike.rel_catchAllMatcher? : Option.Rel Matcher.Same
    (catchAllMatcher? (segment, child)) (catchAllMatcher? (segment, child')) := by
  cases segment with
  | literal text => exact .none
  | param name => exact .none
  | catchAll name =>
    rw [catchAllMatcher?, catchAllMatcher?, h.payload_eq]
    cases child'.payload with
    | none => exact .none
    | some payload => exact .some .catchAll

end

/-- Nodes with the same competing matchers are alike if the same ends at them. -/
theorem alike_of_candidates {t t' : Trie Segment α} (hpayload : t.payload = t'.payload)
    (h : List.Forall₂ Matcher.Same t.candidates t'.candidates) : t.Alike t' := by
  obtain ⟨payload, children⟩ := t
  obtain ⟨payload', children'⟩ := t'
  obtain rfl : payload = payload' := hpayload
  refine ⟨rfl, ?_⟩
  rw [matcher?, matcher?]
  -- What goes on behind a slash is the same, and so is what ends here.
  apply Matcher.Same.rel_ofCandidates?
  apply List.rel_append
  · have hslash := Matcher.Same.rel_map (fun _ _ => Matcher.Same.prefixed "/")
      (Matcher.Same.rel_ofCandidates? h)
    have hmembers := Matcher.Same.forall₂_toList hslash
    rw [Option.toList_map, Option.toList_map] at hmembers
    exact hmembers
  · cases payload with
    | none => exact .nil
    | some payload => exact .cons .leaf .nil

section

variable {t t' : Trie Segment α}
  (hnodup : (t.children.map Prod.fst).Nodup)
  (hkeys : (t.children.map Prod.fst).Perm (t'.children.map Prod.fst))
  (hbelow : ∀ segment child child', (segment, child) ∈ t.children →
    (segment, child') ∈ t'.children → child.Alike child')

include hkeys hbelow

/-- The children of one node can be put into the order of the other's. -/
theorem exists_perm_children : ∃ reordered, reordered.Perm t'.children ∧
    List.Forall₂ (fun entry entry' => entry.1 = entry'.1 ∧ entry.2.Alike entry'.2)
      t.children reordered := by
  have hself : List.Forall₂ (fun key entry => key = entry.1) (t'.children.map Prod.fst)
      t'.children := by
    rw [List.forall₂_map_left_iff, List.forall₂_same]
    exact fun _ _ => rfl
  obtain ⟨reordered, hentries, hperm⟩ := List.perm_comp_forall₂ hkeys hself
  refine ⟨reordered, hperm, ?_⟩
  rw [List.forall₂_map_left_iff, List.forall₂_iff_zip] at hentries
  refine List.forall₂_iff_zip.mpr ⟨hentries.1, ?_⟩
  rintro ⟨segment, child⟩ ⟨segment', child'⟩ hmem
  obtain rfl : segment = segment' := hentries.2 hmem
  obtain ⟨hleft, hright⟩ := List.of_mem_zip hmem
  exact ⟨rfl, hbelow segment child child' hleft (hperm.mem_iff.mp hright)⟩

include hnodup in
/-- Where the children of one kind have one name, their order does not matter. -/
theorem forall₂_filterMap_children (kind : String → Segment)
    {f : Segment × Trie Segment α → Option (Matcher α)}
    (hkind : ∀ entry m, f entry = some m → ∃ name, entry.1 = kind name)
    (hone : ∀ a b, kind a ∈ t.children.map Prod.fst → kind b ∈ t.children.map Prod.fst → a = b)
    (hf : ∀ segment child child', child.Alike child' →
      Option.Rel Matcher.Same (f (segment, child)) (f (segment, child'))) :
    List.Forall₂ Matcher.Same (t.children.filterMap f) (t'.children.filterMap f) := by
  obtain ⟨reordered, hperm, hentries⟩ := exists_perm_children hkeys hbelow
  have hrel : List.Forall₂ Matcher.Same (t.children.filterMap f) (reordered.filterMap f) := by
    refine List.rel_filterMap ?_ hentries
    rintro ⟨segment, child⟩ ⟨segment', child'⟩ ⟨rfl, halike⟩
    exact hf segment child child' halike
  -- There is at most one matcher of this kind, and a single one has only one order.
  have hlength := length_filterMap_le_one hnodup hkind hone
  have hsame := hperm.filterMap f
  rw [hrel.length_eq] at hlength
  generalize reordered.filterMap f = matchers at hlength hrel hsame
  match matchers with
  | [] =>
    rw [hsame.nil_eq] at hrel
    exact hrel
  | [m] =>
    rw [hsame.singleton_eq] at hrel
    exact hrel

/-- The literal children have matchers for the same texts. -/
theorem keys_literals_perm : ((branch t.children).literals.map Prod.fst).Perm
    ((branch t'.children).literals.map Prod.fst) := by
  obtain ⟨reordered, hperm, hentries⟩ := exists_perm_children hkeys hbelow
  have hrel : List.Forall₂ (fun entry entry' => entry.1 = entry'.1)
      (t.children.filterMap literalMatcher?) (reordered.filterMap literalMatcher?) := by
    refine List.rel_filterMap ?_ hentries
    rintro ⟨segment, child⟩ ⟨segment', child'⟩ ⟨rfl, halike⟩
    exact halike.rel_literalMatcher? segment
  have hkeys_eq : (t.children.filterMap literalMatcher?).map Prod.fst =
      (reordered.filterMap literalMatcher?).map Prod.fst := by
    rw [← List.forall₂_eq_eq_eq, List.forall₂_map_left_iff, List.forall₂_map_right_iff]
    exact hrel
  rw [branch_eq, branch_eq, hkeys_eq]
  exact (hperm.filterMap _).map _

include hnodup in
/-- The same matchers compete, in the same order. -/
theorem forall₂_candidates
    (hparam : ∀ a b, .param a ∈ t.children.map Prod.fst →
      .param b ∈ t.children.map Prod.fst → a = b)
    (hcatchAll : ∀ a b, .catchAll a ∈ t.children.map Prod.fst →
      .catchAll b ∈ t.children.map Prod.fst → a = b) :
    List.Forall₂ Matcher.Same t.candidates t'.candidates := by
  have hdispatchers : List.Forall₂ Matcher.Same (branch t.children).dispatchers
      (branch t'.children).dispatchers := by
    apply Branch.forall₂_dispatchers (nodup_literals hnodup) (keys_literals_perm hkeys hbelow)
    intro text m m' hm hm'
    obtain ⟨child, hchild, hmatcher⟩ := mem_literals.mp hm
    obtain ⟨child', hchild', hmatcher'⟩ := mem_literals.mp hm'
    have hrel := (hbelow _ child child' hchild hchild').matcher
    rw [hmatcher, hmatcher'] at hrel
    cases hrel with
    | some hsame => exact hsame
  have hwilds : List.Forall₂ Matcher.Same (t.children.filterMap paramMatcher?)
      (t'.children.filterMap paramMatcher?) := by
    refine forall₂_filterMap_children hnodup hkeys hbelow .param ?_ hparam ?_
    · intro entry m hm
      obtain ⟨name, -, hname, -⟩ := paramMatcher?_eq_some_iff.mp hm
      exact ⟨name, hname⟩
    · intro segment child child' halike
      exact halike.rel_paramMatcher? segment
  have hcatchAlls : List.Forall₂ Matcher.Same (t.children.filterMap catchAllMatcher?)
      (t'.children.filterMap catchAllMatcher?) := by
    refine forall₂_filterMap_children hnodup hkeys hbelow .catchAll ?_ hcatchAll ?_
    · intro entry m hm
      obtain ⟨name, -, hname, -⟩ := catchAllMatcher?_eq_some_iff.mp hm
      exact ⟨name, hname⟩
    · intro segment child child' halike
      exact halike.rel_catchAllMatcher? segment
  rw [branch_eq, branch_eq] at hdispatchers
  rw [candidates, candidates, Branch.candidates, Branch.candidates, branch_eq, branch_eq]
  exact List.rel_append (List.rel_append hdispatchers hwilds) hcatchAlls

end

/-- Tries with the same payloads have the same matcher, if the routes offer no choice. -/
theorem GrownFrom.alike {history history' : History Segment} {t t' : Trie Segment α}
    (h : GrownFrom history t) (h' : GrownFrom history' t') (hclear : history.Unambiguous)
    (hget : ∀ keys, t.get? keys = t'.get? keys) : t.Alike t' := by
  induction h generalizing history' t' with
  | @node history payload children payload_iff keys_eq child ih =>
    have h : GrownFrom history ⟨payload, children⟩ := .node payload_iff keys_eq child
    have hkeys := h.keys_perm h' hget
    have hbelow : ∀ segment child child', (segment, child) ∈ children →
        (segment, child') ∈ t'.children → child.Alike child' := by
      -- Behind one segment, too, both tries have the same payloads.
      intro segment child child' hmem hmem'
      have hlookup := (Dict.lookup_eq_some_iff_mem h.nodup_keys).mpr hmem
      refine ih segment child hlookup (h'.of_mem hmem') (hclear.behind segment) ?_
      intro keys
      rw [← h.get?_cons_of_mem hmem, ← h'.get?_cons_of_mem hmem', hget]
    have hcandidates := forall₂_candidates (t := ⟨payload, children⟩) h.nodup_keys hkeys hbelow
      (fun a b ha hb => hclear.param_eq_of_mem_heads (h.keys ▸ ha) (h.keys ▸ hb))
      (fun a b ha hb => hclear.catchAll_eq_of_mem_heads (h.keys ▸ ha) (h.keys ▸ hb))
    exact alike_of_candidates (hget []) hcandidates

end Trie

/-! ### Registries -/

namespace Registry

theorem same_compile {registry registry' : Registry α}
    (h : registry.routes.Alike registry'.routes) :
    Matcher.Same registry.compile registry'.compile := by
  have hmatcher := h.matcher
  rw [compile, compile]
  generalize registry.routes.matcher? = m? at hmatcher
  generalize registry'.routes.matcher? = m?' at hmatcher
  cases hmatcher with
  | none => exact .leaf
  | some hsame => exact hsame

/-- Valid requests for different routes, which nowhere offer a choice between two parameters
or two catch-alls, may come in any order: the compiled matchers are equal and as deep, and
find the same along every path, with the same captures in the same order. Equality of the
matchers is that of payloads carried over, so it takes a reflexive `==` on payloads
(`[ReflBEq α]`): nothing else is asked of it. -/
theorem compile_beq_of_perm [BEq α] [ReflBEq α] (policy : Policy)
    {requests requests' : List (String × α)} (hperm : requests.Perm requests')
    (hvalid : ∀ request ∈ requests, ∃ r, route policy request.1 = .ok r)
    (hdistinct : (requests.map fun request => Route.normal? request.1).Nodup)
    (hclear : History.Unambiguous (requests.filterMap fun request => Route.normal? request.1)) :
    let m := ((ofPolicy policy).registerAll requests).compile
    let m' := ((ofPolicy policy).registerAll requests').compile
    (m == m') = true ∧ m.depth = m'.depth ∧
      ∀ path, m.lookupLogged path = m'.lookupLogged path := by
  intro m m'
  have hvalid' : ∀ request ∈ requests', ∃ r, route policy request.1 = .ok r :=
    fun request hrequest => hvalid request (hperm.mem_iff.mpr hrequest)
  have hdistinct' : (requests'.map fun request => Route.normal? request.1).Nodup :=
    (hperm.map _).nodup_iff.mp hdistinct
  -- Both runs write the same payloads, so only the order of the children can differ.
  have hget : ∀ keys, ((ofPolicy policy).registerAll requests).routes.get? keys =
      ((ofPolicy policy).registerAll requests').routes.get? keys := by
    intro keys
    ext a
    rw [get?_registerAll_iff hvalid hdistinct, get?_registerAll_iff hvalid' hdistinct']
    exact exists_congr fun request => and_congr_left' hperm.mem_iff
  have hhistory : (ofPolicy policy : Registry α).routeHistory requests =
      requests.filterMap fun request => Route.normal? request.1 := by
    rw [routeHistory, accepted_ofPolicy_eq_self hvalid hdistinct]
  have hgrown := (lawful_registerAll policy requests).grown
  have hgrown' := (lawful_registerAll policy requests').grown
  have hsame : Matcher.Same m m' :=
    same_compile (hgrown.alike hgrown' (hhistory ▸ hclear) hget)
  exact ⟨hsame.beq_eq_true, hsame.depth_eq, hsame.lookupLogged_eq⟩

/-- The two literals share a table, whose entries stand in the order of registration, and next
to it compete a parameter and a catch-all. A path goes through the second literal in both
orders, and one that no literal serves is captured by the catch-all. -/
theorem compile_beq_of_perm_reversed :
    let m := ((ofPolicy {}).registerAll
      [("/a", 1), ("/b/:y", 2), ("/:x", 3), ("/*rest", 4)]).compile
    let m' := ((ofPolicy {}).registerAll
      [("/*rest", 4), ("/:x", 3), ("/b/:y", 2), ("/a", 1)]).compile
    (m == m') = true ∧ (∀ path, m.lookupLogged path = m'.lookupLogged path) ∧
      m.lookup "/b/c" = some ⟨2, ⟨[("y", "c")]⟩⟩ ∧ m'.lookup "/b/c" = some ⟨2, ⟨[("y", "c")]⟩⟩ ∧
      m'.lookup "/c/d" = some ⟨4, ⟨[("rest", "c/d")]⟩⟩ := by
  intro m m'
  have hroutes : [("/a", 1), ("/b/:y", 2), ("/:x", 3), ("/*rest", 4)].filterMap
      (fun request => Route.normal? request.1) =
        [[.literal "a"], [.literal "b", .param "y"], [.param "x"], [.catchAll "rest"]] := by
    decide
  have hclear : History.Unambiguous
      [[.literal "a"], [.literal "b", .param "y"], [.param "x"], [.catchAll "rest"]] := by
    constructor
    · intro front a b rest rest' ha hb
      match front with
      | [] => simp_all
      | [_] => simp_all
      | _ :: _ :: _ => simp at ha
    · intro front a b rest rest' ha hb
      match front with
      | [] => simp_all
      | [_] => simp at ha
      | _ :: _ :: _ => simp at ha
  have hvalid : ∀ request ∈ [("/a", 1), ("/b/:y", 2), ("/:x", 3), ("/*rest", 4)],
      ∃ r, route {} request.1 = .ok r := by
    simp only [List.forall_mem_cons]
    exact ⟨⟨_, rfl⟩, ⟨_, rfl⟩, ⟨_, rfl⟩, ⟨_, rfl⟩, by simp⟩
  obtain ⟨hbeq, -, hlookup⟩ := compile_beq_of_perm {}
    (List.reverse_perm [("/*rest", 4), ("/:x", 3), ("/b/:y", 2), ("/a", 1)])
    hvalid (by decide) (hroutes ▸ hclear)
  refine ⟨hbeq, hlookup, ?_, ?_, ?_⟩
  · decide +kernel
  · decide +kernel
  · decide +kernel

/-- Between two parameters the first one registered is tried first. -/
example : ((ofPolicy {}).registerAll [("/:x", 1), ("/:y", 2)]).compile.lookup "/a" ≠
    ((ofPolicy {}).registerAll [("/:y", 2), ("/:x", 1)]).compile.lookup "/a" := by
  decide

end Registry

end PathRouting
