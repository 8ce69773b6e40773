import Mathlib.Data.List.Induction
import Mathlib.Data.List.Nodup
import PathRouting.Dict

/-!
# Keys of dictionaries

In a dictionary without repeated keys an entry is what the look-up of its key finds. Writes
keep the keys apart, so a dictionary that was built by writes is of that kind.

## Main results

* `Dict.lookup_eq_some_iff_mem` — look-up and membership agree where keys do not repeat
* `Dict.lookup_of_keys_perm` — dictionaries with the same keys are defined alike
* `Dict.alter_congr` — a change depends only on the present value
* `Dict.insertIfNew_eq` — an insertion appends its key or does nothing
* `Dict.mem_ofList_append_singleton` — the last write of a key counts
* `Dict.ofList_eq_self` — writes with different keys are their own dictionary
-/

namespace PathRouting.Dict

universe u v

section Lookup

variable {κ : Type u} {β : Type v} [BEq κ] [LawfulBEq κ] {entries : List (κ × β)} {key : κ}

theorem isSome_lookup_iff : (entries.lookup key).isSome ↔ key ∈ entries.map Prod.fst := by
  rw [List.lookup_isSome_iff, List.mem_map]
  apply exists_congr
  intro entry
  apply and_congr_right
  intro _
  rw [beq_iff_eq, eq_comm]

theorem lookup_eq_some_iff_mem (h : (entries.map Prod.fst).Nodup) {value : β} :
    entries.lookup key = some value ↔ (key, value) ∈ entries := by
  induction entries with
  | nil => simp
  | cons entry rest ih =>
    obtain ⟨k, b⟩ := entry
    rw [List.map_cons, List.nodup_cons] at h
    obtain ⟨hfresh, hrest⟩ := h
    by_cases hkey : key = k
    · -- The key is found in front, and no entry behind repeats it.
      subst hkey
      have habsent : (key, value) ∉ rest :=
        fun hmem => hfresh (List.mem_map.mpr ⟨(key, value), hmem, rfl⟩)
      simp [habsent, eq_comm]
    · rw [List.lookup_cons, beq_eq_false_iff_ne.mpr hkey, ih hrest]
      simp [hkey]

omit [BEq κ] [LawfulBEq κ] in
/-- What is under a key of one dictionary has a counterpart in another with the same keys. -/
theorem exists_mem_of_keys_perm {other : List (κ × β)}
    (hkeys : (entries.map Prod.fst).Perm (other.map Prod.fst)) {value : β}
    (h : (key, value) ∈ entries) : ∃ value', (key, value') ∈ other := by
  have hkey : key ∈ other.map Prod.fst := hkeys.mem_iff.mp (List.mem_map_of_mem h)
  obtain ⟨⟨key, value'⟩, hmem, rfl⟩ := List.mem_map.mp hkey
  exact ⟨value', hmem⟩

theorem mem_of_lookup_eq_some {value : β} (h : entries.lookup key = some value) :
    (key, value) ∈ entries := by
  obtain ⟨front, back, rfl, -⟩ := List.lookup_eq_some_iff.mp h
  simp

/-- Dictionaries with the same keys find something under the same keys. -/
theorem lookup_of_keys_perm {other : List (κ × β)}
    (hkeys : (entries.map Prod.fst).Perm (other.map Prod.fst)) (key : κ) :
    (entries.lookup key = none ∧ other.lookup key = none) ∨
      ∃ value value', entries.lookup key = some value ∧ other.lookup key = some value' ∧
        (key, value) ∈ entries ∧ (key, value') ∈ other := by
  have hsome : (entries.lookup key).isSome ↔ (other.lookup key).isSome := by
    rw [isSome_lookup_iff, isSome_lookup_iff, hkeys.mem_iff]
  cases hleft : entries.lookup key with
  | none =>
    cases hright : other.lookup key with
    | none => exact .inl ⟨rfl, rfl⟩
    | some value' => simp [hleft, hright] at hsome
  | some value =>
    cases hright : other.lookup key with
    | none => simp [hleft, hright] at hsome
    | some value' =>
      exact .inr ⟨value, value', rfl, rfl, mem_of_lookup_eq_some hleft,
        mem_of_lookup_eq_some hright⟩

end Lookup

section Alter

variable {κ : Type u} {β : Type v} [DecidableEq κ]

theorem alter_congr {f g : Option β → β} {key : κ} {entries : List (κ × β)}
    (h : f (entries.lookup key) = g (entries.lookup key)) :
    alter key f entries = alter key g entries := by
  induction entries with
  | nil =>
    have hnone : f none = g none := h
    rw [alter, alter, hnone]
  | cons entry rest ih =>
    obtain ⟨k, b⟩ := entry
    rw [alter, alter]
    by_cases hkey : k = key
    · subst hkey
      rw [List.lookup_cons_self] at h
      rw [if_pos rfl, if_pos rfl, h]
    · rw [List.lookup_cons, beq_eq_false_iff_ne.mpr (Ne.symm hkey)] at h
      rw [if_neg hkey, if_neg hkey, ih h]

theorem alter_of_notMem {f : Option β → β} {key : κ} {entries : List (κ × β)}
    (h : key ∉ entries.map Prod.fst) : alter key f entries = entries ++ [(key, f none)] := by
  induction entries with
  | nil => rfl
  | cons entry rest ih =>
    obtain ⟨k, b⟩ := entry
    rw [List.map_cons, List.mem_cons, not_or] at h
    rw [alter, if_neg (Ne.symm h.1), ih h.2, List.cons_append]

theorem insertIfNew_eq (key : κ) (value : β) (entries : List (κ × β)) :
    insertIfNew key value entries =
      if key ∈ entries.map Prod.fst then entries else entries ++ [(key, value)] := by
  rw [insertIfNew]
  split
  · -- An insertion of a present key writes back what is there.
    rename_i hold
    obtain ⟨present, hpresent⟩ := Option.isSome_iff_exists.mp (isSome_lookup_iff.mpr hold)
    exact alter_eq_self hpresent rfl
  · rename_i hnew
    exact alter_of_notMem hnew

/-- An insertion behind some entries and behind those whose keys are new to them is one
behind the latter, if its key is new to the former too. -/
theorem insertIfNew_append_filter (key : κ) (value : β) (front entries : List (κ × β)) :
    insertIfNew key value (front ++ entries.filter fun entry => !(front.lookup entry.1).isSome) =
      front ++ (insertIfNew key value entries).filter fun entry =>
        !(front.lookup entry.1).isSome := by
  rw [insertIfNew_eq, insertIfNew_eq]
  by_cases hfront : key ∈ front.map Prod.fst
  · have hsome : (front.lookup key).isSome = true := isSome_lookup_iff.mpr hfront
    rw [if_pos (by rw [List.map_append]; exact List.mem_append_left _ hfront)]
    split
    · rfl
    · rw [List.filter_append, List.filter_singleton, hsome]
      simp
  · have hnone : (front.lookup key).isSome = false := by
      rw [← Bool.not_eq_true, isSome_lookup_iff]
      exact hfront
    -- The filter keeps every entry with this key.
    have hmem : key ∈ (front ++ entries.filter fun entry =>
        !(front.lookup entry.1).isSome).map Prod.fst ↔ key ∈ entries.map Prod.fst := by
      rw [List.map_append, List.mem_append, or_iff_right hfront]
      simp only [List.mem_map, List.mem_filter]
      constructor
      · rintro ⟨entry, ⟨hentry, -⟩, rfl⟩
        exact ⟨entry, hentry, rfl⟩
      · rintro ⟨entry, hentry, rfl⟩
        exact ⟨entry, ⟨hentry, by rw [hnone]; rfl⟩, rfl⟩
    rw [if_congr hmem rfl rfl]
    split
    · rfl
    · rw [List.filter_append, List.filter_singleton, hnone, List.append_assoc]
      rfl

theorem ofList_append_singleton (writes : List (κ × β)) (key : κ) (value : β) :
    ofList (writes ++ [(key, value)]) = insert key value (ofList writes) := by
  rw [ofList, List.foldl_append, ofList]
  rfl

theorem nodup_ofList (writes : List (κ × β)) : ((ofList writes).map Prod.fst).Nodup := by
  induction writes using List.reverseRecOn with
  | nil => exact List.nodup_nil
  | append_singleton writes write ih =>
    obtain ⟨key, value⟩ := write
    rw [ofList_append_singleton, insert, map_fst_alter]
    split
    · exact ih
    · rename_i hnew
      rw [List.nodup_append']
      exact ⟨ih, List.nodup_singleton _, by simpa using hnew⟩

theorem mem_ofList_append_singleton {writes : List (κ × β)} {key k : κ} {value b : β} :
    (k, b) ∈ ofList (writes ++ [(key, value)]) ↔
      if k = key then b = value else (k, b) ∈ ofList writes := by
  rw [← lookup_eq_some_iff_mem (nodup_ofList _), ofList_append_singleton, insert, lookup_alter]
  split
  · rw [Option.some.injEq, eq_comm]
  · exact lookup_eq_some_iff_mem (nodup_ofList _)

/-- Nothing is in a dictionary that was not written. -/
theorem mem_of_mem_ofList {writes : List (κ × β)} {key : κ} {value : β}
    (h : (key, value) ∈ ofList writes) : (key, value) ∈ writes := by
  induction writes using List.reverseRecOn with
  | nil => exact h
  | append_singleton writes write ih =>
    obtain ⟨k, b⟩ := write
    rw [mem_ofList_append_singleton] at h
    rw [List.mem_append, List.mem_singleton]
    split at h
    · rename_i hkey
      rw [hkey, h]
      exact .inr rfl
    · exact .inl (ih h)

theorem ofList_eq_self {writes : List (κ × β)} (h : (writes.map Prod.fst).Nodup) :
    ofList writes = writes := by
  -- The writes are folded from the left, so the induction is on the last one.
  induction writes using List.reverseRecOn with
  | nil => rfl
  | append_singleton writes write ih =>
    obtain ⟨key, value⟩ := write
    rw [List.map_append, List.nodup_append'] at h
    obtain ⟨hbefore, -, hdisjoint⟩ := h
    have hfresh : key ∉ writes.map Prod.fst :=
      fun hmem => hdisjoint hmem (List.mem_singleton.mpr rfl)
    rw [ofList_append_singleton, ih hbefore]
    exact alter_of_notMem hfresh

end Alter

end PathRouting.Dict
