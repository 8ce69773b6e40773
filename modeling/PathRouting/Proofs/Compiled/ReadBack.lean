import PathRouting.Proofs.Compiled.Candidates
import PathRouting.Proofs.Matcher.ReadBack
import PathRouting.Proofs.Registry.Writes
import PathRouting.Proofs.Route.Depth
import PathRouting.Proofs.Route.Written

/-!
# Compiling loses and repeats no pattern

A compiled matcher is read back as the routes that were registered, each written as its
pattern and each with its payload. Folding literals, choosing between a prefix test and a
table, and baking the payload of a catch-all into its matcher change the shape of the tree,
but neither drop a route nor repeat one.

## Main results

* `Trie.GrownFrom.readBack_perm` — the matcher of a node is read back as its entries
* `Registry.readBack_compile_perm` — a compiled registry is read back as what was
  registered, each pattern once
-/

namespace PathRouting

universe u

variable {α : Type u}

/-- A registered route as it is written behind `front`, with its payload. -/
def Route.written (front : String) (entry : Route × α) : String × α :=
  (front ++ entry.1.write, entry.2)

theorem Route.written_cons (front : String) (segment : Segment) (route : Route) (a : α) :
    written front (segment :: route, a) =
      written (front ++ "/" ++ segment.write) (route, a) := by
  rw [written, written, write_cons, String.append_assoc, String.append_assoc,
    String.append_assoc]

/-! ### The children of a node -/

namespace Branch

/-- What the matchers of a node's children are read back as, behind `front`. -/
def readBack (branch : Branch α) (front : String) : List (String × α) :=
  (branch.literals.flatMap fun (text, m) => m.readBack (front ++ text)) ++
    branch.wilds.flatMap (·.readBack front) ++ branch.catchAlls.flatMap (·.readBack front)

theorem readBack_dispatchers {branch : Branch α} (h : (branch.literals.map Prod.fst).Nodup)
    (front : String) :
    branch.dispatchers.flatMap (·.readBack front) =
      branch.literals.flatMap fun (text, m) => m.readBack (front ++ text) := by
  rw [dispatchers]
  split
  · rename_i hnone
    rw [hnone]
    rfl
  · rename_i text m hone
    rw [hone, List.flatMap_singleton, List.flatMap_singleton, Matcher.readBack_prefixed]
  · rw [List.flatMap_singleton, Matcher.readBack_table h]

theorem readBack_candidates {branch : Branch α} (h : (branch.literals.map Prod.fst).Nodup)
    (front : String) :
    branch.candidates.flatMap (·.readBack front) = branch.readBack front := by
  rw [candidates, List.flatMap_append, List.flatMap_append, readBack_dispatchers h, readBack]

/-- What one child is read back as: a catch-all by its payload alone, and any other child by
the matcher of what lies behind it. -/
def readChild (segment : Segment) (payload : Option α) (behind : Option (Matcher α))
    (front : String) : List (String × α) :=
  if segment.isCatchAll then payload.toList.map (front ++ segment.write, ·)
  else behind.toList.flatMap (·.readBack (front ++ segment.write))

theorem readBack_add_perm (segment : Segment) (payload : Option α)
    (behind : Option (Matcher α)) (branch : Branch α) (front : String) :
    ((branch.add segment payload behind).readBack front).Perm
      (readChild segment payload behind front ++ branch.readBack front) := by
  cases segment with
  | literal text =>
    have hnew : readChild (.literal text) payload behind front =
        (behind.toList.map (text, ·)).flatMap fun (text, m) => m.readBack (front ++ text) := by
      rw [List.flatMap_map]
      rfl
    rw [hnew, add, readBack, readBack, List.flatMap_append, List.append_assoc,
      List.append_assoc, List.append_assoc]
  | param name =>
    have hnew : readChild (.param name) payload behind front =
        (behind.toList.map (Matcher.wild name ·)).flatMap (·.readBack front) := by
      rw [List.flatMap_map]
      simp only [Matcher.readBack, readChild, Segment.isCatchAll, Segment.write_param,
        String.append_assoc, Bool.false_eq_true, if_false]
    rw [hnew, add, readBack, readBack, List.flatMap_append]
    exact ((List.perm_append_comm_assoc _ _ _).append_right _).trans
      (.of_eq (List.append_assoc _ _ _))
  | catchAll name =>
    have hnew : readChild (.catchAll name) payload behind front =
        (payload.toList.map (Matcher.catchAll name ·)).flatMap (·.readBack front) := by
      rw [List.flatMap_map]
      cases payload <;>
        simp [Matcher.readBack, readChild, Segment.isCatchAll, Segment.write_catchAll,
          String.append_assoc]
    rw [hnew, add, readBack, readBack, List.flatMap_append]
    exact List.perm_append_comm_assoc _ _ _

end Branch

namespace Trie

variable {history : History Segment} {t : Trie Segment α}

theorem readBack_ofCandidates?_perm (members : List (Matcher α)) (front : String) :
    ((Matcher.ofCandidates? members).toList.flatMap (·.readBack front)).Perm
      (members.flatMap (·.readBack front)) := by
  cases members with
  | nil => exact .refl _
  | cons m rest =>
    have hsome : Matcher.ofCandidates? (m :: rest) = some (.alternatives (m :: rest)) := rfl
    rw [hsome, Option.toList_some, List.flatMap_singleton]
    exact Matcher.readBack_alternatives_perm (m :: rest) front

theorem readBack_branch_perm {children : List (Segment × Trie Segment α)} {front : String}
    (h : ∀ segment child, (segment, child) ∈ children →
      (Branch.readChild segment child.payload child.matcher? (front ++ "/")).Perm
        (child.entries.map fun (route, a) => Route.written front (segment :: route, a))) :
    ((branch children).readBack (front ++ "/")).Perm
      ((childEntries children).map (Route.written front)) := by
  induction children with
  | nil => exact .refl _
  | cons entry rest ih =>
    obtain ⟨segment, child⟩ := entry
    have hchild := h segment child List.mem_cons_self
    have hrest := ih fun segment child hmem => h segment child (List.mem_cons_of_mem _ hmem)
    rw [branch, childEntries, List.map_append, List.map_map]
    exact (Branch.readBack_add_perm _ _ _ _ _).trans (hchild.append hrest)

/-- Nothing goes on behind a catch-all, so its payload is all that it has. -/
theorem GrownFrom.entries_of_catchAll (h : GrownFrom history t)
    (htidy : ∀ route ∈ history, Route.Tidy route) {name : String} {child : Trie Segment α}
    (hmem : (.catchAll name, child) ∈ t.children) :
    child.entries = child.payload.toList.map ([], ·) := by
  have hgrown := h.of_mem hmem
  have hnone : child.children = [] := by
    rw [List.eq_nil_iff_forall_not_mem]
    rintro ⟨segment, below⟩ hbelow
    -- A route that went on here would have a segment behind a catch-all.
    obtain ⟨rest, hrest⟩ := History.mem_heads.mp (hgrown.mem_heads_of_mem hbelow)
    have hnil := (htidy _ (History.mem_behind.mp hrest)).eq_nil_of_catchAll
    exact List.cons_ne_nil segment rest hnil
  obtain ⟨payload, children⟩ := child
  obtain rfl : children = [] := hnone
  rw [entries, childEntries, List.append_nil]

/-- A child is read back as its entries, each behind the segment of the child. -/
theorem GrownFrom.readChild_perm (h : GrownFrom history t)
    (htidy : ∀ route ∈ history, Route.Tidy route) {segment : Segment} {child : Trie Segment α}
    (hmem : (segment, child) ∈ t.children) (front : String)
    (hchild : (child.matcher?.toList.flatMap
      (·.readBack (front ++ "/" ++ segment.write))).Perm
        (child.entries.map (Route.written (front ++ "/" ++ segment.write)))) :
    (Branch.readChild segment child.payload child.matcher? (front ++ "/")).Perm
      (child.entries.map fun (route, a) => Route.written front (segment :: route, a)) := by
  simp only [Route.written_cons]
  rw [Branch.readChild]
  split
  · rename_i hcatchAll
    obtain ⟨name, rfl⟩ : ∃ name, segment = .catchAll name := by
      cases segment with
      | literal text => cases hcatchAll
      | param name => cases hcatchAll
      | catchAll name => exact ⟨name, rfl⟩
    rw [h.entries_of_catchAll htidy hmem, List.map_map]
    cases child.payload <;> simp [Route.written]
  · exact hchild

theorem GrownFrom.readBack_perm (h : GrownFrom history t)
    (htidy : ∀ route ∈ history, Route.Tidy route) (front : String) :
    (t.matcher?.toList.flatMap (·.readBack front)).Perm
      (t.entries.map (Route.written front)) := by
  induction h generalizing front with
  | @node history payload children payload_iff keys_eq child ih =>
    have h : GrownFrom history ⟨payload, children⟩ := .node payload_iff keys_eq child
    have hchildren : ((branch children).readBack (front ++ "/")).Perm
        ((childEntries children).map (Route.written front)) := by
      apply readBack_branch_perm
      intro segment t hmem
      have hlookup := (Dict.lookup_eq_some_iff_mem h.nodup_keys).mpr hmem
      exact h.readChild_perm htidy hmem front
        (ih segment t hlookup (History.tidy_behind htidy segment) _)
    have hslash : ((Matcher.ofCandidates? (branch children).candidates).toList.map
        (Matcher.prefixed "/")).flatMap (·.readBack front) =
          (Matcher.ofCandidates? (branch children).candidates).toList.flatMap
            (·.readBack (front ++ "/")) := by
      rw [List.flatMap_map]
      simp only [Matcher.readBack_prefixed]
    have hhere : (payload.toList.map Matcher.data).flatMap (·.readBack front) =
        (payload.toList.map fun a => ([], a)).map (Route.written front) := by
      cases payload <;> simp [Matcher.data, Matcher.readBack, Route.written]
    rw [matcher?, entries, List.map_append]
    refine (readBack_ofCandidates?_perm _ front).trans ?_
    rw [List.flatMap_append, hslash, hhere]
    refine List.perm_append_comm.trans (.append_left _ ?_)
    refine (readBack_ofCandidates?_perm _ _).trans ?_
    rw [Branch.readBack_candidates (nodup_literals h.nodup_keys)]
    exact hchildren

end Trie

namespace Registry

theorem readBack_compile (registry : Registry α) (front : String) :
    registry.compile.readBack front =
      registry.routes.matcher?.toList.flatMap (·.readBack front) := by
  rw [compile]
  cases registry.routes.matcher? with
  | none => rw [Option.getD_none, Matcher.readBack]; rfl
  | some m => rw [Option.getD_some, Option.toList_some, List.flatMap_singleton]

theorem Lawful.readBack_perm {registry : Registry α} {history : History Segment}
    (h : registry.Lawful history) (front : String) :
    (registry.compile.readBack front).Perm (registry.contents.map (Route.written front)) := by
  rw [readBack_compile]
  apply h.grown.readBack_perm
  intro route hroute
  exact (h.wellFormed route hroute).toTidy

theorem Lawful.wellFormed_of_mem_keys {registry : Registry α} {history : History Segment}
    (h : registry.Lawful history) {route : Route}
    (hmem : route ∈ registry.contents.map Prod.fst) : route.WellFormed :=
  h.wellFormed _ (h.grown.mem_map_fst_entries_iff.mp hmem)

/-- Different routes of a registry are written as different patterns. -/
theorem Lawful.nodup_written {registry : Registry α} {history : History Segment}
    (h : registry.Lawful history) :
    ((registry.contents.map Prod.fst).map Route.write).Nodup := by
  apply h.nodup_contents.map_on
  intro p hp q hq
  exact Route.write_injective (h.wellFormed_of_mem_keys hp) (h.wellFormed_of_mem_keys hq)

/-- After every run of registrations the compiled matcher is read back, in some order, as the
routes that were registered, each written as its pattern and with its last payload. No
pattern is read back twice, and there are as many as the size says. -/
theorem readBack_compile_perm (policy : Policy) (requests : List (String × α)) :
    let registry := (ofPolicy policy).registerAll requests
    let registered := Dict.ofList ((ofPolicy policy).writes requests)
    (registry.compile.readBack "").Perm
        (registered.map fun (route, payload) => (Route.write route, payload)) ∧
      ((registry.compile.readBack "").map Prod.fst).Nodup ∧
      (registry.compile.readBack "").length = registry.size := by
  intro registry registered
  have hlawful : registry.Lawful _ := lawful_registerAll policy requests
  have hread : (registry.compile.readBack "").Perm
      (registry.contents.map fun (route, payload) => (Route.write route, payload)) := by
    have hfront : (Route.written "" : Route × α → String × α) =
        fun (route, payload) => (route.write, payload) := by
      funext entry
      rw [Route.written, String.empty_append]
    exact hfront ▸ hlawful.readBack_perm ""
  refine ⟨?_, ?_, ?_⟩
  · exact hread.trans ((contents_perm_ofList policy requests).map _)
  · have hpatterns : ((registry.compile.readBack "").map Prod.fst).Perm
        ((registry.contents.map Prod.fst).map Route.write) := by
      simpa only [List.map_map, Function.comp_def] using hread.map Prod.fst
    exact hpatterns.nodup_iff.mpr hlawful.nodup_written
  · rw [hread.length_eq, List.length_map, hlawful.size_eq, contents]

/-- The later of two payloads is read back, and a pattern without what follows its catch-all.
The order is that in which the matcher tries them. -/
example :
    ((ofPolicy {}).registerAll
      [("/b/:x", 1), ("/a", 2), ("/*rest/c", 3), ("/b/:x", 4)]).compile.readBack "" =
        [("/b/:x", 4), ("/a", 2), ("/*rest", 3)] :=
  rfl

end Registry

end PathRouting
