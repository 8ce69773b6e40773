import PathRouting.Dict

/-!
# Tries with children in the order of first use

A trie maps lists of keys to payloads. A node may hold a payload and children at the same
time, and the children stand in the order in which their keys were first used.

## Main definitions

* `Trie` — a payload and the children by key
* `Trie.get?` — the payload at a list of keys
* `Trie.update` — set the payload at a list of keys, with the nodes on the way
* `Trie.entries` — all lists of keys that have a payload

## Main results

* `Trie.get?_update` — what an updated trie holds at every list of keys
* `Trie.update_eq_self` — writing back the payload that is there changes nothing
-/

namespace PathRouting

universe u v

/-- A map from lists of keys to payloads. -/
structure Trie (κ : Type u) (α : Type v) where
  /-- The payload of the list that ends here. -/
  payload : Option α
  /-- The continuations by their first key, in the order of first use. -/
  children : List (κ × Trie κ α)

namespace Trie

variable {κ : Type u} {α : Type v}

/-- The trie without payloads. -/
def empty : Trie κ α := ⟨none, []⟩

/-- The payload at a list of keys. -/
def get? [BEq κ] : List κ → Trie κ α → Option α
  | [], t => t.payload
  | k :: rest, t => (t.children.lookup k).bind (get? rest)

/-- The trie with the payload at a list of keys changed to what `f` makes of the present
payload, if there is one. Nodes that are missing on the way are created. -/
def update [DecidableEq κ] (f : Option α → α) : List κ → Trie κ α → Trie κ α
  | [], t => ⟨some (f t.payload), t.children⟩
  | k :: rest, t =>
    ⟨t.payload, Dict.alter k (fun child => update f rest (child.getD empty)) t.children⟩

mutual

/-- The lists of keys that have a payload, with their payloads: what ends at a node comes
before what goes on below it. -/
def entries : Trie κ α → List (List κ × α)
  | ⟨payload, children⟩ => (payload.toList.map ([], ·)) ++ childEntries children

/-- The entries of all children, each under the key of its child. -/
def childEntries : List (κ × Trie κ α) → List (List κ × α)
  | [] => []
  | (k, t) :: rest => (entries t).map (fun (ks, a) => (k :: ks, a)) ++ childEntries rest

end

@[simp] theorem get?_empty [BEq κ] (ks : List κ) : (empty : Trie κ α).get? ks = none := by
  cases ks <;> simp [get?, empty]

variable [DecidableEq κ]

/-- The payload at the given keys changes, and no other does. -/
theorem get?_update (f : Option α → α) (ks : List κ) (t : Trie κ α) (js : List κ) :
    (update f ks t).get? js = if js = ks then some (f (t.get? ks)) else t.get? js := by
  induction ks generalizing t js with
  | nil => cases js <;> simp [update, get?]
  | cons k rest ih =>
    cases js with
    | nil => simp [update, get?]
    | cons j js =>
      by_cases h : j = k
      · subst h
        simp only [get?, update, Dict.lookup_alter, if_true, Option.bind_some, ih,
          List.cons.injEq, true_and]
        cases t.children.lookup j <;> simp
      · simp [get?, update, Dict.lookup_alter, h]

/-- Writing back the payload that is there changes nothing: no node is missing on the way
to a payload. -/
theorem update_eq_self {f : Option α → α} {ks : List κ} {t : Trie κ α} {a : α}
    (h : t.get? ks = some a) (hf : f (some a) = a) : update f ks t = t := by
  induction ks generalizing t with
  | nil =>
    obtain ⟨payload, children⟩ := t
    obtain rfl : payload = some a := h
    simp [update, hf]
  | cons k rest ih =>
    obtain ⟨payload, children⟩ := t
    obtain ⟨child, hchild, hget⟩ := Option.bind_eq_some_iff.mp h
    have hkeep := Dict.alter_eq_self (f := fun c => update f rest (c.getD empty)) hchild (ih hget)
    simp only [update, hkeep]

end Trie

end PathRouting
