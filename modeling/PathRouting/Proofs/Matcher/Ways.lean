import Mathlib.Data.List.Basic
import PathRouting.Matcher.Lookup
import PathRouting.Proofs.Dict.FirstOfEach
import PathRouting.Proofs.Path.Parts

/-!
# Ways through a matcher

A walk along a path tries one way after the other and carries a trail. What it finds can be
said without either: a matcher has a list of ways along a path, each a payload with the raw
texts it captures, and the walk takes the first one. Captures join the trail only for that
way, from the innermost on.

## Main definitions

* `Matcher.Way` — a payload and what is captured on the way to it, from left to right
* `Matcher.ways` — all ways along a path, in the order in which they are tried
* `Matcher.Trail.keepAll` — the trail after the captures of a way
* `Matcher.Agree` — walks and lookups cannot tell two matchers apart

## Main results

* `Matcher.find_eq` — a walk takes the first way and leaves no trace of any other
* `Matcher.lookup_eq` — the match of a path is the first way from its beginning
-/

namespace PathRouting

universe u

namespace Matcher

variable {α : Type u}

/-- A payload that a path leads to, with the captures on the way from left to right. -/
structure Way (α : Type u) where
  /-- The payload. -/
  payload : α
  /-- The names with the raw texts that they capture. -/
  captures : List (String × String)

namespace Way

/-- The way with a capture in front of the others. -/
def capture (name : String) (part : List Char) (way : Way α) : Way α :=
  ⟨way.payload, (name, String.ofList part) :: way.captures⟩

end Way

mutual

/-- All ways along a path, in the order in which they are tried. -/
def ways : Matcher α → List Char → List (Way α)
  | literal text _ child, path =>
    match text.toList.isPrefixOf? path with
    | some rest => ways child rest
    | none => []
  | dispatch entries, path =>
    entryWays entries (String.ofList (Path.frontPart path).1) (Path.frontPart path).2
  | wild name child, path =>
    if (Path.frontPart path).1 = [] then []
    else (ways child (Path.frontPart path).2).map (.capture name (Path.frontPart path).1)
  | catchAll name payload, path => [⟨payload, [(name, String.ofList path)]⟩]
  | leaf payload, path => if path.isEmpty then payload.toList.map (⟨·, []⟩) else []
  | choice members, path => memberWays members path

/-- All ways through the first entry of a table with the given key. -/
def entryWays : List (String × Matcher α) → String → List Char → List (Way α)
  | [], _, _ => []
  | (key, child) :: rest, part, path =>
    if part = key then ways child path else entryWays rest part path

/-- All ways through the given matchers, one matcher after the other. -/
def memberWays : List (Matcher α) → List Char → List (Way α)
  | [], _ => []
  | member :: rest, path => ways member path ++ memberWays rest path

end

/-! ### The walk takes the first way -/

namespace Trail

/-- The trail after the captures of a way, which are added from the innermost on. -/
def keepAll (captures : List (String × String)) (trail : Trail) : Trail :=
  captures.foldr (fun (name, raw) trail => trail.keep name (.decode raw)) trail

/-- What a walk gives that takes a way, if there is one. -/
def follow (trail : Trail) : Option (Way α) → Option α × Trail
  | none => (none, trail)
  | some way => (some way.payload, trail.keepAll way.captures)

end Trail

theorem decodeFlagged_eq_decode (part : List Char) :
    CapturedValue.decodeFlagged (String.ofList part) (part.contains '%') =
      .decode (String.ofList part) := by
  rw [CapturedValue.decode, String.toList_ofList]

mutual

/-- A walk takes the first way, and one that fails leaves the trail as it was. -/
theorem find_eq (m : Matcher α) (path : List Char) (trail : Trail) :
    m.find path trail = trail.follow (m.ways path).head? := by
  cases m with
  | literal text depth child =>
    rw [find, ways]
    cases text.toList.isPrefixOf? path with
    | none => rfl
    | some rest => exact find_eq child rest trail
  | dispatch entries =>
    rw [find, ways]
    exact findEntry_eq entries _ _ trail
  | wild name child =>
    rw [find, ways, Path.scanPart_eq]
    cases hpart : (Path.frontPart path).1 with
    | nil => rfl
    | cons c part =>
      simp only [List.cons_ne_nil, if_false]
      rw [find_eq child, List.head?_map]
      cases (ways child (Path.frontPart path).2).head? with
      | none => rfl
      | some way =>
        simp only [Trail.follow, Option.map_some, decodeFlagged_eq_decode]
        rfl
  | catchAll name payload => rw [find, ways]; rfl
  | leaf payload =>
    rw [find, ways]
    split
    · cases payload <;> rfl
    · rfl
  | choice members => rw [find, ways, findMember_eq]

theorem findEntry_eq (entries : List (String × Matcher α)) (part : String) (path : List Char)
    (trail : Trail) :
    findEntry entries part path trail = trail.follow (entryWays entries part path).head? := by
  cases entries with
  | nil => rw [findEntry, entryWays]; rfl
  | cons entry rest =>
    obtain ⟨key, child⟩ := entry
    rw [findEntry, entryWays]
    split
    · rw [find_eq child]
    · rw [findEntry_eq rest]

theorem findMember_eq (members : List (Matcher α)) (path : List Char) (trail : Trail) :
    findMember members path trail = trail.follow (memberWays members path).head? := by
  cases members with
  | nil => rw [findMember, memberWays]; rfl
  | cons member rest =>
    rw [findMember, memberWays, find_eq member, List.head?_append]
    cases (ways member path).head? with
    | none => exact findMember_eq rest path trail
    | some way => rfl

end

/-! ### Captures of the first way -/

/-- The value of a captured text under its name. -/
def decoded (capture : String × String) : String × String :=
  (capture.1, (CapturedValue.decode capture.2).text)

theorem captures_keepAll (captures : List (String × String)) :
    (Trail.empty.keepAll captures).captures.entries =
      Dict.firstOfEach (captures.map decoded).reverse := by
  induction captures with
  | nil => rfl
  | cons capture rest ih =>
    obtain ⟨name, raw⟩ := capture
    rw [List.map_cons, List.reverse_cons, decoded, Dict.firstOfEach_append_singleton, ← ih]
    rfl

/-- The match of a path is the first way from its beginning. Its captures are decoded and
reversed, and each name keeps its first value. -/
theorem lookup_eq (m : Matcher α) (path : String) :
    m.lookup path = (m.ways path.toList).head?.map fun way =>
      ⟨way.payload, ⟨Dict.firstOfEach (way.captures.map decoded).reverse⟩⟩ := by
  rw [lookup, lookupLogged, find_eq]
  cases (m.ways path.toList).head? with
  | none => rfl
  | some way =>
    rw [Option.map_some, ← captures_keepAll]
    rfl

/-- Matchers with the same first way along a path find the same, and report the same. -/
theorem lookupLogged_congr {m m' : Matcher α} {path : String}
    (h : (m.ways path.toList).head? = (m'.ways path.toList).head?) :
    m.lookupLogged path = m'.lookupLogged path := by
  rw [lookupLogged, lookupLogged, find_eq, find_eq, h]

/-! ### Matchers that cannot be told apart -/

/-- Two matchers find the same from every place of a path with every trail, and so they give
the same matches and report the same. -/
structure Agree (m m' : Matcher α) : Prop where
  find_eq : ∀ path trail, m.find path trail = m'.find path trail
  lookupLogged_eq : ∀ path, m.lookupLogged path = m'.lookupLogged path

namespace Agree

variable {m m' m'' : Matcher α}

theorem of_find (h : ∀ path trail, m.find path trail = m'.find path trail) : Agree m m' := by
  refine ⟨h, ?_⟩
  intro path
  rw [lookupLogged, lookupLogged, h]

theorem of_ways (h : ∀ path, (m.ways path).head? = (m'.ways path).head?) : Agree m m' := by
  apply of_find
  intro path trail
  rw [Matcher.find_eq, Matcher.find_eq, h]

theorem refl (m : Matcher α) : Agree m m :=
  ⟨fun _ _ => rfl, fun _ => rfl⟩

theorem symm (h : Agree m m') : Agree m' m :=
  ⟨fun path trail => (h.find_eq path trail).symm, fun path => (h.lookupLogged_eq path).symm⟩

theorem trans (h : Agree m m') (h' : Agree m' m'') : Agree m m'' :=
  of_find fun path trail => (h.find_eq path trail).trans (h'.find_eq path trail)

end Agree

end Matcher

end PathRouting
