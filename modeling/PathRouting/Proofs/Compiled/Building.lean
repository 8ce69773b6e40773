import PathRouting.Proofs.Compiled.Lookup
import PathRouting.Proofs.Route.Written
import PathRouting.Proofs.Text.Escaping

/-!
# Paths that are built from a route

A route and values for its captures make a path: literal text is put down as it stands, and
each value is escaped, for a parameter with its slashes. Looking the path up undoes this. If
no other route matches, the match has the payload of the route and the values as they were
given, from the last one to the first.

## Main definitions

* `Route.Builds` — the paths that a route and values for its captures make

## Main results

* `Route.Builds.exists_captures?` — on its parts the route captures what is decoded to the
  values
* `Registry.lookup_compile_of_builds` — the values come back
-/

namespace PathRouting

universe u

open Text.Percent (Escaping Triplets)
open Matcher (decoded)

namespace Route

/-- The paths that a route makes with the values of its captures. The value of a parameter
has a character, and its slashes have to be escaped; a catch-all stands last. -/
inductive Builds : Route → List (String × String) → List Char → Prop
  | nil : Builds [] [] []
  | literal {text : String} {route : Route} {values : List (String × String)}
    {path : List Char} (rest : Builds route values path) :
    Builds (.literal text :: route) values ('/' :: (text.toList ++ path))
  | param {name value : String} {raw : List Char} {route : Route}
    {values : List (String × String)} {path : List Char} (hvalue : value ≠ "")
    (hraw : Escaping ['/'] value.toList raw) (rest : Builds route values path) :
    Builds (.param name :: route) ((name, value) :: values) ('/' :: (raw ++ path))
  | catchAll {name value : String} {raw : List Char} (hraw : Escaping [] value.toList raw) :
    Builds [.catchAll name] [(name, value)] ('/' :: raw)

theorem decoded_of_escaping {reserved raw : List Char} {name value : String}
    (h : Escaping reserved value.toList raw) :
    decoded (name, String.ofList raw) = (name, value) := by
  rw [decoded, CapturedValue.decode_of_escaping h, String.ofList_toList]

namespace Builds

variable {route : Route} {values : List (String × String)} {path : List Char}

/-- There is a value for each capture. -/
theorem map_fst_values (h : Builds route values path) :
    values.map Prod.fst = route.filterMap Segment.name? := by
  induction h with
  | nil => rfl
  | literal _ ih => exact ih
  | param _ _ _ ih => rw [List.map_cons, ih]; rfl
  | catchAll => rfl

/-- The parts of a path are those that were put down for the segments, and what the route
captures on them is decoded to the values. -/
theorem exists_captures? (h : Builds route values path) (htidy : Tidy route) :
    ∃ parts raw, path = Path.join parts ∧ (∀ part ∈ parts, '/' ∉ part) ∧
      route.captures? parts = some raw ∧ raw.map decoded = values := by
  induction h with
  | nil => exact ⟨[], [], rfl, by simp, rfl, rfl⟩
  | @literal text route values path _ ih =>
    obtain ⟨parts, raw, rfl, hparts, hcaptures, hdecoded⟩ := ih htidy.tail
    refine ⟨text.toList :: parts, raw, rfl, ?_, ?_, hdecoded⟩
    · exact List.forall_mem_cons.mpr ⟨htidy.slash_notMem, hparts⟩
    · rw [captures?_literal, if_pos rfl, hcaptures]
  | @param name value raw route values path hvalue hraw _ ih =>
    obtain ⟨parts, captures, rfl, hparts, hcaptures, hdecoded⟩ := ih htidy.tail
    -- A value with a character is written with a character, so its part is not empty.
    have hne : raw ≠ [] := by
      rw [ne_eq, hraw.eq_nil_iff, String.toList_eq_nil_iff]
      exact hvalue
    refine ⟨raw :: parts, (name, String.ofList raw) :: captures, rfl, ?_, ?_, ?_⟩
    · exact List.forall_mem_cons.mpr ⟨hraw.slash_notMem List.mem_cons_self, hparts⟩
    · rw [captures?_param, if_neg hne, hcaptures, Option.map_some]
    · rw [List.map_cons, decoded_of_escaping hraw, hdecoded]
  | @catchAll name value raw hraw =>
    refine ⟨Path.parts raw, [(name, String.ofList raw)], (Path.join_parts raw).symm, ?_, ?_, ?_⟩
    · intro part hpart
      exact Path.slash_notMem_of_mem_parts hpart
    · -- Its own slashes cut the remainder, which is put together again.
      have hjoin := Path.join_parts raw
      cases hparts : Path.parts raw with
      | nil => exact absurd hparts (Path.parts_ne_nil raw)
      | cons part more =>
        rw [hparts, Path.join_cons] at hjoin
        rw [captures?_catchAll, (List.cons.inj hjoin).2]
    · rw [List.map_singleton, decoded_of_escaping hraw]

theorem exists_capturesOn? {path : String} (h : Builds route values path.toList)
    (hwell : route.WellFormed) :
    ∃ raw, route.capturesOn? path = some raw ∧ raw.map decoded = values := by
  obtain ⟨parts, raw, hpath, hparts, hcaptures, hdecoded⟩ := h.exists_captures? hwell.toTidy
  cases parts with
  | nil =>
    -- Without parts there is no segment.
    cases route with
    | nil => exact absurd rfl hwell.ne_nil
    | cons segment rest =>
      rw [captures?_cons_nil] at hcaptures
      cases hcaptures
  | cons part more =>
    obtain ⟨hpart, hmore⟩ := List.forall_mem_cons.mp hparts
    refine ⟨raw, ?_, hdecoded⟩
    rw [Path.join_cons] at hpath
    simp only [capturesOn?, hpath]
    rw [Path.parts_append_join hpart hmore, hcaptures]

end Builds

end Route

namespace Registry

variable {α : Type u}

/-- After every run of registrations, if a path is built from a registered route, in which no
name repeats, and the values of its captures, and no other route matches it, then the match
has the payload of the route and exactly these values, from the last one to the first. -/
theorem lookup_compile_of_builds (policy : Policy) (requests : List (String × α)) (r : Route)
    (values : List (String × String)) (path : String)
    (hmem : r ∈ (ofPolicy policy).routeHistory requests)
    (hnames : (r.filterMap Segment.name?).Nodup) (hbuilds : r.Builds values path.toList)
    (hother : ∀ other ∈ (ofPolicy policy).routeHistory requests,
      Route.Matches other path → other = r) :
    ∃ payload, ((ofPolicy policy).registerAll requests).contents.lookup r = some payload ∧
      ((ofPolicy policy).registerAll requests).compile.lookup path =
        some ⟨payload, ⟨values.reverse⟩⟩ := by
  have hlawful := lawful_registerAll policy requests
  obtain ⟨raw, hcaptures, hdecoded⟩ := hbuilds.exists_capturesOn? (hlawful.wellFormed r hmem)
  cases hlookup : ((ofPolicy policy).registerAll requests).compile.lookup path with
  | none =>
    have hmatches : r.Matches path := Option.isSome_of_eq_some hcaptures
    exact absurd hmatches (hlawful.not_matches_of_lookup hlookup hmem)
  | some result =>
    obtain ⟨winner, raw', htakes, hraw', hpayload, hentries⟩ :=
      hlawful.exists_takes_of_lookup hlookup
    obtain rfl := hother winner htakes.mem htakes.matches_path
    obtain rfl := Option.some.inj (hcaptures.symm.trans hraw')
    -- No name repeats, so no value is dropped.
    have hkeys : (values.reverse.map Prod.fst).Nodup := by
      rw [List.map_reverse, List.nodup_reverse, hbuilds.map_fst_values]
      exact hnames
    rw [hdecoded, Dict.firstOfEach_eq_self hkeys] at hentries
    refine ⟨result.payload, hpayload, ?_⟩
    obtain ⟨payload, ⟨entries⟩⟩ := result
    obtain rfl : entries = values.reverse := hentries
    rfl

/-- A value with an escaped slash and digits of both cases, behind it a segment without text,
and a remainder whose slash stands for itself. -/
theorem lookup_compile_of_builds_escaped :
    ((ofPolicy {}).registerAll
        [("/files/:user", 1), ("/files/:user//*rest", 2)]).compile.lookup
          "/files/a%2f%C3%bc//b/%25" = some ⟨2, ⟨[("rest", "b/%"), ("user", "a/ü")]⟩⟩ := by
  have hslash : Triplets (String.utf8EncodeChar '/') ['%', '2', 'f'] :=
    .cons (by decide) (by decide) .nil
  have humlaut : Triplets (String.utf8EncodeChar 'ü') ['%', 'C', '3', '%', 'b', 'c'] :=
    .cons (by decide) (by decide) (.cons (by decide) (by decide) .nil)
  have hsign : Triplets (String.utf8EncodeChar '%') ['%', '2', '5'] :=
    .cons (by decide) (by decide) .nil
  have huser : Escaping ['/'] "a/ü".toList "a%2f%C3%bc".toList :=
    .verbatim (by decide) (by decide) (.escaped hslash (.escaped humlaut .nil))
  have hrest : Escaping [] "b/%".toList "b/%25".toList :=
    .verbatim (by decide) (by decide) (.verbatim (by decide) (by decide) (.escaped hsign .nil))
  have hbuilds : Route.Builds [.literal "files", .param "user", .literal "", .catchAll "rest"]
      [("user", "a/ü"), ("rest", "b/%")] "/files/a%2f%C3%bc//b/%25".toList :=
    .literal (.param (by decide) huser (.literal (.catchAll hrest)))
  obtain ⟨payload, hpayload, hlookup⟩ := lookup_compile_of_builds {}
    [("/files/:user", 1), ("/files/:user//*rest", 2)]
    [.literal "files", .param "user", .literal "", .catchAll "rest"]
    [("user", "a/ü"), ("rest", "b/%")] "/files/a%2f%C3%bc//b/%25"
    (by decide +kernel) (by decide) hbuilds (by decide +kernel)
  have htwo : ((ofPolicy {}).registerAll
      [("/files/:user", 1), ("/files/:user//*rest", 2)]).contents.lookup
        [.literal "files", .param "user", .literal "", .catchAll "rest"] = some 2 := by
    decide +kernel
  obtain rfl := Option.some.inj (hpayload.symm.trans htwo)
  exact hlookup

end Registry

end PathRouting
