import PathRouting.Matcher.Equality
import PathRouting.Proofs.Matcher.Counting

/-!
# Matchers that differ in the order of tables

The order of the entries of a table has no meaning: entries are looked up by key. Matchers
that differ in nothing else are equal, as deep, and lead along the same ways, and the smart
constructors make such matchers of such matchers.

## Main definitions

* `Matcher.Same` — the same nodes in the same order, but for the entries of tables

## Main results

* `Matcher.Same.depthIn_eq`, `Matcher.Same.rank_eq` — the same matchers have the same depth in
  every word, and the same rank
* `Matcher.Same.ways_eq` — they have the same ways, in the same order
* `Matcher.Same.beq_eq_true` — they are equal
* `Matcher.Same.prefixed`, `Matcher.Same.table`, `Matcher.Same.alternatives` — they may take
  each other's place below a smart constructor
-/

namespace PathRouting

universe u

namespace Matcher

variable {α : Type u}

/-- Two matchers have the same nodes in the same order, except that the entries of a table
may stand in any order. -/
inductive Same : Matcher α → Matcher α → Prop
  | literal {text : String} {depth : Nat} {m m' : Matcher α} (child : Same m m') :
    Same (.literal text depth m) (.literal text depth m')
  | dispatch {entries entries' : List (String × Matcher α)}
    (keys : (entries.map Prod.fst).Perm (entries'.map Prod.fst))
    (child : ∀ key m m', (key, m) ∈ entries → (key, m') ∈ entries' → Same m m') :
    Same (.dispatch entries) (.dispatch entries')
  | wild {name : String} {m m' : Matcher α} (child : Same m m') :
    Same (.wild name m) (.wild name m')
  | catchAll {name : String} {payload : α} :
    Same (.catchAll name payload) (.catchAll name payload)
  | leaf {payload : Option α} : Same (.leaf payload) (.leaf payload)
  -- Members are compared by their places.
  | choice {members members' : List (Matcher α)} (length_eq : members.length = members'.length)
    (member : ∀ m m', (m, m') ∈ members.zip members' → Same m m') :
    Same (.choice members) (.choice members')

theorem memberWays_congr {members members' : List (Matcher α)} {path : List Char}
    (h : List.Forall₂ (fun a b => a.ways path = b.ways path) members members') :
    memberWays members path = memberWays members' path := by
  induction h with
  | nil => rfl
  | cons hhead _ htail => rw [memberWays, memberWays, hhead, htail]

namespace Same

variable {m m' : Matcher α} {members members' : List (Matcher α)}

/-! ### What the same matchers have in common -/

theorem depthIn_eq (h : Same m m') (word : Word) : m.depthIn word = m'.depthIn word := by
  induction h with
  | literal => rfl
  | @dispatch entries entries' keys child ih =>
    -- Each count is that of the entry with the same key in the other table.
    have hcounts : greatest (entries.map fun entry => entry.2.depthIn word) =
        greatest (entries'.map fun entry => entry.2.depthIn word) := by
      apply greatest_congr
      intro count
      simp only [List.mem_map]
      constructor
      · rintro ⟨⟨key, m⟩, hm, rfl⟩
        obtain ⟨m', hm'⟩ := Dict.exists_mem_of_keys_perm keys hm
        exact ⟨(key, m'), hm', (ih key m m' hm hm').symm⟩
      · rintro ⟨⟨key, m'⟩, hm', rfl⟩
        obtain ⟨m, hm⟩ := Dict.exists_mem_of_keys_perm keys.symm hm'
        exact ⟨(key, m), hm, ih key m m' hm hm'⟩
    rw [depthIn, depthIn, entriesDepthIn_eq, entriesDepthIn_eq, hcounts]
  | wild child ih => rw [depthIn, depthIn, ih]
  | catchAll => rfl
  | leaf => rfl
  | @choice members members' length_eq member ih =>
    have hcounts : List.Forall₂ (fun a b => a.depthIn word = b.depthIn word) members members' :=
      List.forall₂_iff_zip.mpr ⟨length_eq, fun hmem => ih _ _ hmem⟩
    rw [depthIn, depthIn, membersDepthIn_eq, membersDepthIn_eq]
    exact congrArg greatest (List.forall₂_eq_eq_eq ▸
      List.forall₂_map_left_iff.mpr (List.forall₂_map_right_iff.mpr hcounts))

theorem depth_eq (h : Same m m') : m.depth = m'.depth :=
  depth_eq_of_depthIn h.depthIn_eq

theorem literalLength_eq (h : Same m m') : m.literalLength = m'.literalLength := by
  cases h <;> rfl

theorem isCatchAll_eq (h : Same m m') : m.isCatchAll = m'.isCatchAll := by
  cases h <;> rfl

theorem rank_eq (h : Same m m') : m.rank = m'.rank := by
  rw [rank, rank, h.isCatchAll_eq, h.depth_eq, h.literalLength_eq]

theorem ways_eq (h : Same m m') (path : List Char) : m.ways path = m'.ways path := by
  induction h generalizing path with
  | literal child ih =>
    rw [ways_literal, ways_literal]
    split
    · exact ih _
    · rfl
  | dispatch keys child ih =>
    rw [ways, ways, entryWays_eq, entryWays_eq]
    rcases Dict.lookup_of_keys_perm keys (String.ofList (Path.frontPart path).1) with
      ⟨hleft, hright⟩ | ⟨m, m', hleft, hright, hm, hm'⟩
    · rw [hleft, hright]
    · rw [hleft, hright]
      exact ih _ m m' hm hm' _
  | wild child ih => rw [ways, ways, ih]
  | catchAll => rfl
  | leaf => rfl
  | @choice members members' length_eq member ih =>
    rw [ways, ways]
    exact memberWays_congr (List.forall₂_iff_zip.mpr ⟨length_eq, fun hmem => ih _ _ hmem path⟩)

/-- The same matchers find the same along every path, and report the same. -/
theorem lookupLogged_eq (h : Same m m') (path : String) :
    m.lookupLogged path = m'.lookupLogged path := by
  rw [lookupLogged, lookupLogged, find_eq, find_eq, h.ways_eq]

end Same

section Equality

variable [BEq α]

theorem entriesWithin_iff {entries entries' : List (String × Matcher α)} :
    entriesWithin entries entries' = true ↔ ∀ entry ∈ entries,
      ∃ m', entries'.lookup entry.1 = some m' ∧ beq entry.2 m' = true := by
  induction entries with
  | nil => simp [entriesWithin]
  | cons entry rest ih =>
    rw [entriesWithin, Bool.and_eq_true, ih, List.forall_mem_cons]
    apply and_congr_left'
    cases entries'.lookup entry.1 <;> simp

theorem membersBeq_eq_true {members members' : List (Matcher α)}
    (h : List.Forall₂ (fun a b => beq a b = true) members members') :
    membersBeq members members' = true := by
  induction h with
  | nil => rfl
  | cons hhead _ htail => rw [membersBeq, hhead, htail, Bool.and_self]

variable [ReflBEq α]

theorem Same.beq_eq_true {m m' : Matcher α} (h : Same m m') : (m == m') = true := by
  change beq m m' = true
  induction h with
  | literal child ih => simp [beq, ih]
  | @dispatch entries entries' keys child ih =>
    have hwithin : entriesWithin entries entries' = true := by
      rw [entriesWithin_iff]
      rintro ⟨key, m⟩ hm
      rcases Dict.lookup_of_keys_perm keys key with ⟨hnone, -⟩ | ⟨_, m', -, hright, -, hm'⟩
      · have hkey := Dict.isSome_lookup_iff.mpr (List.mem_map_of_mem (f := Prod.fst) hm)
        rw [hnone] at hkey
        cases hkey
      · exact ⟨m', hright, ih key m m' hm hm'⟩
    have hlength : entries.length = entries'.length := by simpa using keys.length_eq
    simp [beq, hlength, hwithin]
  | wild child ih => simp [beq, ih]
  | catchAll => simp [beq]
  | leaf => simp [beq]
  | @choice members members' length_eq member ih =>
    rw [beq]
    exact membersBeq_eq_true (List.forall₂_iff_zip.mpr ⟨length_eq, fun hmem => ih _ _ hmem⟩)

end Equality

namespace Same

variable {m m' : Matcher α} {members members' : List (Matcher α)}

/-! ### Smart constructors -/

theorem folded (text : String) (depth : Nat) (h : Same m m') :
    Same (Matcher.folded text depth m) (Matcher.folded text depth m') := by
  cases h with
  | literal child => exact .literal child
  | dispatch keys child => exact .literal (.dispatch keys child)
  | wild child => exact .literal (.wild child)
  | catchAll => exact .literal .catchAll
  | leaf => exact .literal .leaf
  | choice length_eq member => exact .literal (.choice length_eq member)

theorem choice_of_forall₂ (h : List.Forall₂ Same members members') :
    Same (.choice members) (.choice members') := by
  obtain ⟨hlength, hmember⟩ := List.forall₂_iff_zip.mp h
  exact .choice hlength fun _ _ hmem => hmember hmem

theorem inTurn (h : List.Forall₂ Same members members') :
    Same (Matcher.inTurn members) (Matcher.inTurn members') := by
  match h with
  | .nil => exact .leaf
  | .cons hhead .nil => exact hhead
  | .cons hhead (.cons hnext htail) => exact choice_of_forall₂ (.cons hhead (.cons hnext htail))

theorem prefixed (text : String) (h : Same m m') :
    Same (Matcher.prefixed text m) (Matcher.prefixed text m') := by
  rw [prefixed_eq_folded, prefixed_eq_folded, h.depth_eq]
  exact h.folded text _

theorem table {entries entries' : List (String × Matcher α)}
    (hnodup : (entries.map Prod.fst).Nodup)
    (keys : (entries.map Prod.fst).Perm (entries'.map Prod.fst))
    (child : ∀ key m m', (key, m) ∈ entries → (key, m') ∈ entries' → Same m m') :
    Same (Matcher.table entries) (Matcher.table entries') := by
  rw [Matcher.table, Matcher.table, Dict.ofList_eq_self hnodup,
    Dict.ofList_eq_self (keys.nodup_iff.mp hnodup)]
  exact .dispatch keys child

theorem alternatives (h : List.Forall₂ Same members members') :
    Same (Matcher.alternatives members) (Matcher.alternatives members') := by
  have hsorted : List.Forall₂ Same (sortByRank members) (sortByRank members') :=
    Rank.forall₂_sortBy (R := Same) rank_eq h
  rw [alternatives_eq_inTurn, alternatives_eq_inTurn]
  exact inTurn hsorted

end Same

end Matcher

end PathRouting
