/-!
# Dictionaries in the order of first use

A dictionary is a list of entries. Reading one is `List.lookup`; the operations here
write to it. A key keeps the place where it was first written, so the order of the
entries is the order in which their keys came into use.

## Main definitions

* `Dict.alter` — change the value of a key, or append the key
* `Dict.insert`, `Dict.insertIfNew` — set a value, or set it unless there is one
* `Dict.ofList` — a list of writes, read as a dictionary
* `Dict.same` — two dictionaries hold the same values, in whatever order

## Main results

* `Dict.lookup_alter` — what an altered dictionary holds at every key
* `Dict.map_fst_alter` — altering keeps the keys and their places
* `Dict.alter_eq_self` — writing back the value that is there changes nothing
-/

namespace PathRouting.Dict

universe u v

variable {κ : Type u} {β : Type v} [DecidableEq κ]

/-- The dictionary with the value of `key` changed to what `f` makes of the present value,
if there is one. A key without a value is appended. -/
def alter (key : κ) (f : Option β → β) : List (κ × β) → List (κ × β)
  | [] => [(key, f none)]
  | (k, b) :: rest => if k = key then (k, f (some b)) :: rest else (k, b) :: alter key f rest

/-- The dictionary with `value` at `key`. -/
def insert (key : κ) (value : β) (entries : List (κ × β)) : List (κ × β) :=
  alter key (fun _ => value) entries

/-- The dictionary with `value` at `key`, unless `key` has a value already. -/
def insertIfNew (key : κ) (value : β) (entries : List (κ × β)) : List (κ × β) :=
  alter key (·.getD value) entries

/-- The dictionary after the given writes: a repeated key keeps its first place and takes
its last value. -/
def ofList (writes : List (κ × β)) : List (κ × β) :=
  writes.foldl (fun entries (key, value) => insert key value entries) []

/-- Two dictionaries have the same size, and each entry of the first is in the second. -/
def same [BEq β] (a b : List (κ × β)) : Bool :=
  a.length == b.length && a.all fun (key, value) => b.lookup key == some value

/-! ### What an altered dictionary holds -/

/-- Changing the value of a key changes what is found under that key, and nothing else. -/
theorem lookup_alter (key : κ) (f : Option β → β) (entries : List (κ × β)) (k : κ) :
    (alter key f entries).lookup k =
      if k = key then some (f (entries.lookup key)) else entries.lookup k := by
  induction entries with
  | nil =>
    by_cases h : k = key
    · simp [alter, h]
    · simp [alter, List.lookup_cons, beq_eq_false_iff_ne.mpr h, h]
  | cons e rest ih =>
    obtain ⟨k', b⟩ := e
    by_cases hkey : k' = key
    · subst hkey
      by_cases h : k = k'
      · simp [alter, h]
      · simp [alter, List.lookup_cons, beq_eq_false_iff_ne.mpr h, h]
    · have hne : key ≠ k' := fun e => hkey e.symm
      by_cases h : k = k'
      · subst h
        simp [alter, hkey]
      · simp [alter, List.lookup_cons, hkey, beq_eq_false_iff_ne.mpr h,
          beq_eq_false_iff_ne.mpr hne, ih]

/-- A key that is there keeps its place, and a new one is added at the end. -/
theorem map_fst_alter (key : κ) (f : Option β → β) (entries : List (κ × β)) :
    (alter key f entries).map Prod.fst =
      if key ∈ entries.map Prod.fst then entries.map Prod.fst
      else entries.map Prod.fst ++ [key] := by
  induction entries with
  | nil => simp [alter]
  | cons e rest ih =>
    obtain ⟨k', b⟩ := e
    by_cases hkey : k' = key
    · simp [alter, hkey]
    · have hne : key ≠ k' := fun e => hkey e.symm
      by_cases hmem : key ∈ rest.map Prod.fst <;> simp_all [alter]

/-- Writing back the value that is there changes nothing. -/
theorem alter_eq_self {key : κ} {f : Option β → β} {entries : List (κ × β)} {b : β}
    (h : entries.lookup key = some b) (hf : f (some b) = b) : alter key f entries = entries := by
  induction entries with
  | nil => simp at h
  | cons e rest ih =>
    obtain ⟨k, b'⟩ := e
    by_cases hk : k = key
    · subst hk
      obtain rfl : b' = b := by simpa using h
      simp [alter, hf]
    · have hne : (key == k) = false := beq_eq_false_iff_ne.mpr fun e => hk e.symm
      rw [List.lookup_cons, hne] at h
      simp [alter, hk, ih h]

end PathRouting.Dict
