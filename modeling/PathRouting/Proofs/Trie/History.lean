import Mathlib.Data.List.Basic
import Mathlib.Data.List.Induction

/-!
# Histories of use

A history is the lists of keys that were written, in the order in which they were written.
What a trie holds at a place depends on the history only through the lists that lead there,
and the order of its children is the order in which the history first used their keys.

## Main definitions

* `History` — lists of keys, in the order of writing
* `History.behind` — how the lists that begin with a key go on
* `History.heads` — the first keys, in the order of their first use
* `History.firstUse` — the place where a first key was first used

## Main results

* `History.heads_append_cons` — one more list adds its first key behind the others, unless
  the key is in use
* `History.heads_pairwise` — the first keys stand in the order of their first use
-/

namespace PathRouting

universe u

/-- Lists of keys, in the order in which they were written. -/
abbrev History (κ : Type u) := List (List κ)

namespace History

variable {κ : Type u} [DecidableEq κ]

/-- How the lists that begin with `key` go on behind it. -/
def behind (history : History κ) (key : κ) : History κ :=
  history.filterMap fun
    | [] => none
    | first :: rest => if first = key then some rest else none

/-- The first keys of the lists, in the order of their first use. -/
def heads (history : History κ) : List κ :=
  (history.filterMap List.head?).eraseDups

/-- The place of the first list that begins with `key`. -/
def firstUse (history : History κ) (key : κ) : Nat :=
  history.findIdx fun keys => keys.head? == some key

@[simp] theorem mem_behind {history : History κ} {key : κ} {rest : List κ} :
    rest ∈ history.behind key ↔ key :: rest ∈ history := by
  constructor
  · intro h
    obtain ⟨keys, hmem, hkeys⟩ := List.mem_filterMap.mp h
    cases keys with
    | nil => simp at hkeys
    | cons first more =>
      obtain ⟨rfl, hrest⟩ := Option.ite_none_right_eq_some.mp hkeys
      obtain rfl := Option.some.inj hrest
      exact hmem
  · intro h
    exact List.mem_filterMap.mpr ⟨key :: rest, h, by simp⟩

theorem mem_heads {history : History κ} {key : κ} :
    key ∈ history.heads ↔ ∃ rest, key :: rest ∈ history := by
  rw [heads, List.mem_eraseDups, List.mem_filterMap]
  constructor
  · rintro ⟨keys, hmem, hhead⟩
    obtain ⟨rest, rfl⟩ := List.head?_eq_some_iff.mp hhead
    exact ⟨rest, hmem⟩
  · rintro ⟨rest, hmem⟩
    exact ⟨key :: rest, hmem, rfl⟩

theorem behind_eq_nil {history : History κ} {key : κ} (h : key ∉ history.heads) :
    history.behind key = [] := by
  rw [List.eq_nil_iff_forall_not_mem]
  intro rest hrest
  exact h (mem_heads.mpr ⟨rest, mem_behind.mp hrest⟩)

/-! ### One more list -/

theorem behind_append_nil (history : History κ) (key : κ) :
    behind (history ++ [[]]) key = history.behind key := by
  simp [behind]

theorem behind_append_cons (history : History κ) (first : κ) (rest : List κ) (key : κ) :
    behind (history ++ [first :: rest]) key =
      if first = key then history.behind key ++ [rest] else history.behind key := by
  rw [behind, List.filterMap_append]
  split <;> simp_all [behind]

theorem heads_append_nil (history : History κ) : heads (history ++ [[]]) = history.heads := by
  have hone : ([[]] : History κ).filterMap List.head? = [] := rfl
  rw [heads, List.filterMap_append, hone, List.append_nil, heads]

theorem heads_append_cons (history : History κ) (key : κ) (rest : List κ) :
    heads (history ++ [key :: rest]) =
      if key ∈ history.heads then history.heads else history.heads ++ [key] := by
  have hone : ([key :: rest] : History κ).filterMap List.head? = [key] := rfl
  have hmem : key ∈ history.heads ↔ key ∈ history.filterMap List.head? := List.mem_eraseDups
  rw [if_congr hmem rfl rfl, heads, heads, List.filterMap_append, hone, List.eraseDups_append]
  generalize history.filterMap List.head? = firsts
  by_cases hold : key ∈ firsts
  · simp [List.removeAll, hold]
  · simp [List.removeAll, hold, List.eraseDups_cons]

theorem firstUse_append_of_mem {history : History κ} {key : κ} (h : key ∈ history.heads)
    (more : History κ) : firstUse (history ++ more) key = history.firstUse key := by
  obtain ⟨rest, hmem⟩ := mem_heads.mp h
  have hlt : history.firstUse key < history.length :=
    List.findIdx_lt_length_of_exists ⟨key :: rest, hmem, by simp⟩
  rw [firstUse, List.findIdx_append]
  exact if_pos hlt

theorem firstUse_append_cons_of_notMem {history : History κ} {key : κ}
    (h : key ∉ history.heads) (rest : List κ) :
    firstUse (history ++ [key :: rest]) key = history.length := by
  -- No list before the new one begins with the key.
  have hnone : history.findIdx (fun keys => keys.head? == some key) = history.length := by
    rw [List.findIdx_eq_length]
    intro keys hmem
    rw [beq_eq_false_iff_ne]
    intro hhead
    obtain ⟨rest', rfl⟩ := List.head?_eq_some_iff.mp hhead
    exact h (mem_heads.mpr ⟨rest', hmem⟩)
  rw [firstUse, List.findIdx_append, hnone, if_neg (Nat.lt_irrefl _)]
  simp

theorem firstUse_lt_length {history : History κ} {key : κ} (h : key ∈ history.heads) :
    history.firstUse key < history.length := by
  obtain ⟨rest, hmem⟩ := mem_heads.mp h
  exact List.findIdx_lt_length_of_exists ⟨key :: rest, hmem, by simp⟩

/-- The first keys stand in the order of their first use. -/
theorem heads_pairwise (history : History κ) :
    history.heads.Pairwise fun a b => history.firstUse a < history.firstUse b := by
  induction history using List.reverseRecOn with
  | nil => exact .nil
  | append_singleton history keys ih =>
    -- What was in use before keeps its place.
    have hold : (heads history).Pairwise fun a b =>
        firstUse (history ++ [keys]) a < firstUse (history ++ [keys]) b := by
      apply ih.imp_of_mem
      intro a b ha hb hlt
      rwa [firstUse_append_of_mem ha, firstUse_append_of_mem hb]
    cases keys with
    | nil =>
      rw [heads_append_nil]
      exact hold
    | cons key rest =>
      rw [heads_append_cons]
      split
      · exact hold
      · -- A new key stands last, and all that was in use has an earlier place.
        rename_i hnew
        refine List.pairwise_append.mpr ⟨hold, List.pairwise_singleton _ _, ?_⟩
        intro a ha b hb
        obtain rfl := List.mem_singleton.mp hb
        rw [firstUse_append_of_mem ha, firstUse_append_cons_of_notMem hnew]
        exact firstUse_lt_length ha

theorem nodup_heads (history : History κ) : history.heads.Nodup := by
  apply history.heads_pairwise.imp
  intro a b hlt hab
  rw [hab] at hlt
  exact Nat.lt_irrefl _ hlt

end History

end PathRouting
