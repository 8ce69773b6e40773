import PathRouting.Proofs.Matcher.Ranking
import PathRouting.Proofs.Text.Joining

/-!
# The remainder of a path and its parts

A catch-all decodes what remains of a path in one go; parameters in its place decode its parts
one by one. Both give the same text as long as every part decodes. One part that does not
keeps the whole remainder as it is, while each of the parameters has a value of its own.

## Main definitions

* `Matcher.wildcards` — a parameter for each part of a path

## Main results

* `Matcher.ways_wildcards` — each of them captures its own part
* `Matcher.lookup_remainder` — what a catch-all captures against what they capture
-/

namespace PathRouting

universe u

open CapturedValue (decode FallsBack HasEscape)

namespace Path

/-- A slash and the parts that slashes join are the path with these parts. -/
theorem join_eq_cons_intercalate {parts : List (List Char)} (hne : parts ≠ []) :
    join parts = '/' :: ['/'].intercalate parts := by
  induction parts with
  | nil => exact absurd rfl hne
  | cons part more ih =>
    cases more with
    | nil => simp
    | cons next more => rw [join_cons, ih (List.cons_ne_nil _ _)]; simp

theorem toList_slash_intercalate {parts : List String} (hne : parts ≠ []) :
    ("/" ++ "/".intercalate parts).toList = join (parts.map String.toList) := by
  have hslash : "/".toList = ['/'] := rfl
  rw [join_eq_cons_intercalate (List.map_eq_nil_iff.not.mpr hne), String.toList_append,
    String.toList_intercalate, hslash, List.singleton_append]

end Path

namespace Matcher

variable {α : Type u}

/-- A parameter for each name, each behind a slash, and then the end of the path. -/
def wildcards (names : List String) (payload : α) : Matcher α :=
  names.foldr (fun name rest => prefixed "/" (wild name rest)) (leaf (some payload))

theorem ways_prefixed_slash_cons (m : Matcher α) (path : List Char) :
    (prefixed "/" m).ways ('/' :: path) = m.ways path := by
  rw [ways_prefixed]
  rfl

/-- The one way of the parameters captures each part under its own name. -/
theorem ways_wildcards {names : List String} {parts : List (List Char)} (payload : α)
    (hlength : names.length = parts.length) (hslash : ∀ part ∈ parts, '/' ∉ part)
    (hne : ∀ part ∈ parts, part ≠ []) :
    (wildcards names payload).ways (Path.join parts) =
      [⟨payload, names.zip (parts.map String.ofList)⟩] := by
  induction names generalizing parts with
  | nil =>
    obtain rfl : parts = [] := List.eq_nil_of_length_eq_zero hlength.symm
    rfl
  | cons name names ih =>
    cases parts with
    | nil => cases hlength
    | cons part more =>
      obtain ⟨hpart, hmore⟩ := List.forall_mem_cons.mp hslash
      obtain ⟨hpart_ne, hmore_ne⟩ := List.forall_mem_cons.mp hne
      have hfirst : wildcards (name :: names) payload =
          prefixed "/" (wild name (wildcards names payload)) := rfl
      rw [hfirst, Path.join_cons, ways_prefixed_slash_cons, ways,
        Path.frontPart_append_join hpart, if_neg hpart_ne,
        ih (Nat.succ.inj hlength) hmore hmore_ne]
      rfl

/-- Parameters with different names give each part its own value. -/
theorem lookup_wildcards {names parts : List String} {path : String} (payload : α)
    (hpath : path.toList = Path.join (parts.map String.toList))
    (hlength : names.length = parts.length) (hnames : names.Nodup)
    (hslash : ∀ part ∈ parts, '/' ∉ part.toList) (hne : ∀ part ∈ parts, part ≠ "") :
    (wildcards names payload).lookup path =
      some ⟨payload, ⟨(names.zip (parts.map fun part => (decode part).text)).reverse⟩⟩ := by
  have hne_toList : ∀ part ∈ parts.map String.toList, part ≠ [] := by
    rw [List.forall_mem_map]
    exact fun part hmem => String.toList_eq_nil_iff.not.mpr (hne part hmem)
  have htexts : (parts.map String.toList).map String.ofList = parts := by
    rw [List.map_map]
    exact (List.map_congr_left fun _ _ => String.ofList_toList).trans (List.map_id parts)
  have hdecoded : (names.zip parts).map decoded =
      names.zip (parts.map fun part => (decode part).text) := by
    rw [List.zip_map_right]
    exact List.map_congr_left fun _ _ => rfl
  have hkeys : ((names.zip (parts.map fun part => (decode part).text)).reverse.map
      Prod.fst).Nodup := by
    rw [List.map_reverse, List.nodup_reverse, List.map_fst_zip (by simp [hlength])]
    exact hnames
  rw [lookup_eq, hpath, ways_wildcards payload (by simpa using hlength)
    (List.forall_mem_map.mpr hslash) hne_toList, htexts]
  dsimp only [List.head?_cons, Option.map_some]
  rw [hdecoded, Dict.firstOfEach_eq_self hkeys]

/-- A path is a slash and texts without a slash that slashes join. If none of the texts falls
back, what they make is decoded to their values joined by slashes, and if one of them does, it
is kept, with all the others. So it is decoded to the joined values just if no text falls back
or if those that do not have no escape. This is what a catch-all captures behind the first
slash; parameters, where no text is empty, have the values one by one. -/
theorem lookup_remainder (parts : List String) (hparts : parts ≠ [])
    (hslash : ∀ part ∈ parts, '/' ∉ part.toList) :
    let raw := "/".intercalate parts
    let values := parts.map fun part => (decode part).text
    ((∀ part ∈ parts, ¬ FallsBack part) → (decode raw).text = "/".intercalate values) ∧
      ((∃ part ∈ parts, FallsBack part) → (decode raw).text = raw) ∧
      ((decode raw).text = "/".intercalate values ↔
        (∀ part ∈ parts, ¬ FallsBack part) ∨
          ∀ part ∈ parts, ¬ FallsBack part → ¬ HasEscape part) ∧
      (∀ name (payload : α), (prefixed "/" (catchAll name payload)).lookup ("/" ++ raw) =
        some ⟨payload, ⟨[(name, (decode raw).text)]⟩⟩) ∧
      ((∀ part ∈ parts, part ≠ "") → ∀ names (payload : α), names.length = parts.length →
        names.Nodup → (wildcards names payload).lookup ("/" ++ raw) =
          some ⟨payload, ⟨(names.zip values).reverse⟩⟩) := by
  intro raw values
  refine ⟨CapturedValue.text_decode_intercalate, ?_,
    CapturedValue.text_decode_intercalate_iff parts, ?_, ?_⟩
  · intro hback
    exact CapturedValue.text_decode_of_fallsBack
      ((CapturedValue.fallsBack_intercalate_iff parts).mpr hback)
  · intro name payload
    have hpath : ("/" ++ raw).toList = '/' :: raw.toList := String.toList_append
    rw [lookup_eq, hpath, ways_prefixed_slash_cons, ways, String.ofList_toList]
    rfl
  · intro hne names payload hlength hnames
    exact lookup_wildcards payload (Path.toList_slash_intercalate hparts) hlength hnames hslash hne

/-- The second part does not decode, so the escape in the first one stays in the remainder. A
parameter decodes it, to a text with a slash. The third part ends in a percent sign, which
forms no escape with what follows the slash. -/
theorem lookup_remainder_kept :
    FallsBack "%FF" ∧ HasEscape "a%2fb" ∧
      (prefixed "/" (catchAll "rest" 1)).lookup "/a%2fb/%FF/%/41" =
        some ⟨1, ⟨[("rest", "a%2fb/%FF/%/41")]⟩⟩ ∧
      (wildcards ["a", "b", "c", "d"] 1).lookup "/a%2fb/%FF/%/41" =
        some ⟨1, ⟨[("d", "41"), ("c", "%"), ("b", "%FF"), ("a", "a/b")]⟩⟩ := by
  have hback : FallsBack "%FF" := by
    rw [CapturedValue.fallsBack_iff]
    rintro ⟨text, hplain⟩
    have hread : (Text.Utf8.decode (Text.Percent.unescape
        (Text.Utf8.encode "%FF".toList))).toOption = none := by decide +kernel
    rw [hplain, Text.Utf8.decode_encode] at hread
    cases hread
  have hescape : HasEscape "a%2fb" :=
    ⟨0x2F, Text.Utf8.encode "%2f".toList, ⟨'2', 'f', by decide, by decide, rfl⟩, by decide +kernel⟩
  obtain ⟨-, hkept, -, hcatchAll, hwildcards⟩ :=
    lookup_remainder (α := Nat) ["a%2fb", "%FF", "%", "41"] (by decide) (by decide)
  rw [hkept ⟨"%FF", by decide, hback⟩] at hcatchAll
  have hvalues := hwildcards (by decide) ["a", "b", "c", "d"] 1 rfl (by decide)
  refine ⟨hback, hescape, hcatchAll "rest" 1, hvalues.trans ?_⟩
  decide +kernel

end Matcher

end PathRouting
