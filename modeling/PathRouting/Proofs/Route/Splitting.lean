import PathRouting.Proofs.Route.Written

/-!
# Splitting a pattern

A pattern is put together from its segments in one way only. Every part between two slashes
is the text of one segment, and a mark at its beginning says of which kind, so literal text
cannot begin with a mark. Texts and names may be empty.

## Main definitions

* `Segment.IsPart` — a segment that can stand between two slashes

## Main results

* `Segment.isPart_iff` — such a segment is read back from its text
* `Route.splits_iff_writes` — splitting a pattern and writing a route undo each other
-/

namespace PathRouting

namespace Segment

/-- A segment that can stand between two slashes. -/
structure IsPart (segment : Segment) : Prop where
  slash_notMem : '/' ∉ segment.label.toList
  /-- Literal text does not begin with a mark. -/
  unmarked : segment.isLiteral = true →
    segment.label.toList.head? ≠ some ':' ∧ segment.label.toList.head? ≠ some '*'

/-- Text is read as literal just if it does not begin with a mark. -/
theorem parse_eq_literal_iff (text : String) :
    parse text = .literal text ↔
      text.toList.head? ≠ some ':' ∧ text.toList.head? ≠ some '*' := by
  have hmark : ∀ c, text.toList.head? = some c ↔ ∃ name, text.toList = c :: name := fun _ =>
    List.head?_eq_some_iff
  unfold parse
  split
  · simp_all
  · simp_all
  · rename_i hparam hcatchAll
    refine iff_of_true rfl ⟨?_, ?_⟩
    · rw [ne_eq, hmark, not_exists]
      exact hparam
    · rw [ne_eq, hmark, not_exists]
      exact hcatchAll

theorem parse_write_param (name : String) : parse (param name).write = .param name := by
  simp [write, parse]

theorem parse_write_catchAll (name : String) : parse (catchAll name).write = .catchAll name := by
  simp [write, parse]

/-- What can stand between two slashes is what is read back from its own text. -/
theorem isPart_iff {segment : Segment} :
    segment.IsPart ↔ '/' ∉ segment.write.toList ∧ parse segment.write = segment := by
  cases segment with
  | literal text =>
    have hread : parse (literal text).write = .literal text ↔ _ := parse_eq_literal_iff text
    rw [hread]
    exact ⟨fun h => ⟨h.slash_notMem, h.unmarked rfl⟩, fun h => ⟨h.1, fun _ => h.2⟩⟩
  | param name =>
    have hslash : '/' ∉ (param name).write.toList ↔ '/' ∉ name.toList := by simp [write]
    rw [hslash, and_iff_left (parse_write_param name)]
    exact ⟨fun h => h.slash_notMem,
      fun h => ⟨h, fun hliteral => absurd hliteral Bool.false_ne_true⟩⟩
  | catchAll name =>
    have hslash : '/' ∉ (catchAll name).write.toList ↔ '/' ∉ name.toList := by simp [write]
    rw [hslash, and_iff_left (parse_write_catchAll name)]
    exact ⟨fun h => h.slash_notMem,
      fun h => ⟨h, fun hliteral => absurd hliteral Bool.false_ne_true⟩⟩

end Segment

namespace Route

/-- The segments of a pattern are read from its parts. -/
theorem isPart_of_ofPattern? {pattern : String} {route : Route}
    (h : ofPattern? pattern = some route) : ∀ segment ∈ route, segment.IsPart := by
  obtain ⟨text, -, rfl⟩ := ofPattern?_eq_some_iff.mp h
  intro segment hmem
  obtain ⟨part, hpart, rfl⟩ := List.mem_map.mp hmem
  rw [Segment.isPart_iff, Segment.write_parse, String.toList_ofList]
  exact ⟨Path.slash_notMem_of_mem_parts hpart, rfl⟩

theorem ne_nil_of_ofPattern? {pattern : String} {route : Route}
    (h : ofPattern? pattern = some route) : route ≠ [] := by
  obtain ⟨text, -, rfl⟩ := ofPattern?_eq_some_iff.mp h
  rw [ne_eq, List.map_eq_nil_iff]
  exact Path.parts_ne_nil text

/-- A pattern is split into the segments that it is the written form of. -/
theorem ofPattern?_eq_some_iff_write {pattern : String} {route : Route} :
    ofPattern? pattern = some route ↔
      route ≠ [] ∧ (∀ segment ∈ route, segment.IsPart) ∧ route.write = pattern := by
  constructor
  · intro h
    exact ⟨ne_nil_of_ofPattern? h, isPart_of_ofPattern? h, write_of_ofPattern? h⟩
  · rintro ⟨hne, hparts, rfl⟩
    exact ofPattern?_write_of_segments hne fun segment hmem =>
      Segment.isPart_iff.mp (hparts segment hmem)

/-- A text has no segments just if it does not begin with a slash. Otherwise it has those of
which it is the written form: at least one, each without a slash in its text or name, and
literal only if the text does not begin with a mark. So different patterns have different
segments. -/
theorem splits_iff_writes :
    (∀ pattern, ofPattern? pattern = none ↔ pattern.toList.head? ≠ some '/') ∧
      (∀ pattern route, ofPattern? pattern = some route ↔
        route ≠ [] ∧ (∀ segment ∈ route, segment.IsPart) ∧ route.write = pattern) ∧
      ∀ p q, ofPattern? p = ofPattern? q ↔
        p = q ∨ (p.toList.head? ≠ some '/' ∧ q.toList.head? ≠ some '/') := by
  refine ⟨fun _ => ofPattern?_eq_none_iff, fun _ _ => ofPattern?_eq_some_iff_write, ?_⟩
  intro p q
  rw [← ofPattern?_eq_none_iff, ← ofPattern?_eq_none_iff]
  constructor
  · intro hsame
    cases hp : ofPattern? p with
    | none => exact .inr ⟨rfl, hsame.symm.trans hp⟩
    | some route =>
      -- Both are the written form of the same route.
      exact .inl ((write_of_ofPattern? hp).symm.trans (write_of_ofPattern? (hsame.symm.trans hp)))
  · rintro (rfl | ⟨hp, hq⟩)
    · rfl
    · exact hp.trans hq.symm

/-- A parameter and a catch-all without a name, a mark inside of literal text, and empty text
at the end. -/
example :
    ofPattern? "/:/*/a:b//" =
      some [.param "", .catchAll "", .literal "a:b", .literal "", .literal ""] := by
  decide +kernel

end Route

end PathRouting
