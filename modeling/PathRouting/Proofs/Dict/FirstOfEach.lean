import Mathlib.Data.List.Induction
import PathRouting.Proofs.Dict.Keys

/-!
# The first entry of each key

A list of entries may repeat a key. Keeping the first entry of each key gives a dictionary;
it is what results when the entries are inserted one after the other, each only if its key
is new.

## Main definitions

* `Dict.firstOfEach` — the entries whose key has no earlier entry

## Main results

* `Dict.firstOfEach_append_singleton` — one more entry is one more insertion
* `Dict.nodup_firstOfEach`, `Dict.lookup_firstOfEach` — no key repeats, and each key keeps
  the value of its first entry
* `Dict.firstOfEach_eq_self` — where no key repeats, all entries are kept
-/

namespace PathRouting.Dict

universe u v

variable {κ : Type u} {β : Type v} [DecidableEq κ]

/-- The entries whose key has no earlier entry. -/
def firstOfEach (entries : List (κ × β)) : List (κ × β) :=
  entries.eraseDupsBy fun a b => a.1 == b.1

private theorem eraseDupsBy_append_singleton (entries : List (κ × β)) (entry : κ × β) :
    (entries ++ [entry]).eraseDupsBy (fun a b => a.1 == b.1) =
      entries.eraseDupsBy (fun a b => a.1 == b.1) ++
        if entry.1 ∈ entries.map Prod.fst then [] else [entry] := by
  match entries with
  | [] => simp [List.eraseDupsBy_cons]
  | first :: rest =>
    rw [List.cons_append, List.eraseDupsBy_cons, List.eraseDupsBy_cons, List.filter_append,
      List.cons_append]
    by_cases hkey : entry.1 = first.1
    · simp [hkey]
    · -- The entries that repeat the first key do not decide whether another key is new.
      have hone : [entry].filter (fun b => (b.1 == first.1) = false) = [entry] := by
        simp [hkey]
      have hmem : entry.1 ∈ (rest.filter fun b => (b.1 == first.1) = false).map Prod.fst ↔
          entry.1 ∈ (first :: rest).map Prod.fst := by
        simp only [List.mem_map, List.mem_filter, List.map_cons, List.mem_cons, hkey, false_or]
        apply exists_congr
        intro other
        constructor
        · intro h
          exact ⟨h.1.1, h.2⟩
        · rintro ⟨hother, heq⟩
          refine ⟨⟨hother, ?_⟩, heq⟩
          rw [heq]
          simpa using hkey
      rw [hone, eraseDupsBy_append_singleton, if_congr hmem rfl rfl]
termination_by entries.length
decreasing_by exact Nat.lt_succ_of_le (List.length_filter_le _ _)

theorem mem_map_fst_firstOfEach {entries : List (κ × β)} {key : κ} :
    key ∈ (firstOfEach entries).map Prod.fst ↔ key ∈ entries.map Prod.fst := by
  induction entries using List.reverseRecOn with
  | nil => rfl
  | append_singleton entries entry ih =>
    rw [firstOfEach, eraseDupsBy_append_singleton, List.map_append, List.map_append,
      List.mem_append, List.mem_append, ← firstOfEach, ih]
    split
    · rename_i hold
      simp only [List.map_nil, List.not_mem_nil, or_false, List.map_cons, List.mem_singleton]
      rw [or_iff_left_of_imp]
      rintro rfl
      exact hold
    · rfl

/-- An entry at the end is inserted if its key is new. -/
theorem firstOfEach_append_singleton (entries : List (κ × β)) (key : κ) (value : β) :
    firstOfEach (entries ++ [(key, value)]) = insertIfNew key value (firstOfEach entries) := by
  rw [firstOfEach, eraseDupsBy_append_singleton, ← firstOfEach, insertIfNew_eq,
    if_congr mem_map_fst_firstOfEach rfl rfl]
  split
  · exact List.append_nil _
  · rfl

theorem nodup_firstOfEach (entries : List (κ × β)) :
    ((firstOfEach entries).map Prod.fst).Nodup := by
  induction entries using List.reverseRecOn with
  | nil => exact List.nodup_nil
  | append_singleton entries entry ih =>
    obtain ⟨key, value⟩ := entry
    rw [firstOfEach_append_singleton, insertIfNew, map_fst_alter]
    split
    · exact ih
    · rename_i hnew
      rw [List.nodup_append']
      exact ⟨ih, List.nodup_singleton _, by simpa using hnew⟩

/-- Entries whose keys do not repeat are all kept. -/
theorem firstOfEach_eq_self {entries : List (κ × β)} (h : (entries.map Prod.fst).Nodup) :
    firstOfEach entries = entries := by
  induction entries using List.reverseRecOn with
  | nil => rfl
  | append_singleton entries entry ih =>
    obtain ⟨key, value⟩ := entry
    rw [List.map_append, List.nodup_append'] at h
    obtain ⟨hfront, -, hdisjoint⟩ := h
    have hnew : key ∉ entries.map Prod.fst := by
      intro hmem
      exact hdisjoint hmem (List.mem_singleton_self key)
    rw [firstOfEach_append_singleton, ih hfront, insertIfNew_eq, if_neg hnew]

theorem lookup_firstOfEach (entries : List (κ × β)) (key : κ) :
    (firstOfEach entries).lookup key = entries.lookup key := by
  induction entries using List.reverseRecOn with
  | nil => rfl
  | append_singleton entries entry ih =>
    obtain ⟨k, value⟩ := entry
    rw [firstOfEach_append_singleton, insertIfNew, lookup_alter, List.lookup_append]
    by_cases hkey : key = k
    · subst hkey
      rw [if_pos rfl, ih]
      cases entries.lookup key <;> simp
    · have hone : [(k, value)].lookup key = none := by
        rw [List.lookup_cons, beq_eq_false_iff_ne.mpr hkey, List.lookup_nil]
      rw [if_neg hkey, ih, hone, Option.or_none]

end PathRouting.Dict
