import PathRouting.Proofs.Dict.Keys
import PathRouting.Proofs.Trie.History
import PathRouting.Trie

/-!
# Growth of a trie

A trie that was built by writes alone is determined by their history, apart from the
payloads: a node has a payload just if the lists of keys that lead to it were written, and
it has a child for each key that some list goes on with, in the order of first use. All that
holds of registered routes is derived from this one invariant.

## Main definitions

* `Trie.GrownFrom` — the nodes of a trie are those that a history calls for

## Main results

* `Trie.GrownFrom.update` — a write is one more list in the history
* `Trie.GrownFrom.isSome_get?_iff` — a list of keys has a payload just if it was written
* `Trie.GrownFrom.keys_perm` — tries with the same payloads have the same keys
* `Trie.update_congr` — a write depends on its function only at the present payload
-/

namespace PathRouting

universe u v

namespace Trie

variable {κ : Type u} {α : Type v} [DecidableEq κ]

/-- A write depends on its function only at the present payload. -/
theorem update_congr {f g : Option α → α} {keys : List κ} {t : Trie κ α}
    (h : f (t.get? keys) = g (t.get? keys)) : t.update f keys = t.update g keys := by
  induction keys generalizing t with
  | nil =>
    have hpayload : f t.payload = g t.payload := h
    rw [update, update, hpayload]
  | cons first rest ih =>
    have hchild : update f rest ((t.children.lookup first).getD .empty) =
        update g rest ((t.children.lookup first).getD .empty) := by
      apply ih
      cases hlookup : t.children.lookup first with
      | none => simpa [get?, hlookup] using h
      | some child => simpa [get?, hlookup] using h
    have hchildren := Dict.alter_congr (f := fun child => update f rest (child.getD .empty))
      (g := fun child => update g rest (child.getD .empty)) hchild
    rw [update, update, hchildren]

/-- The nodes of a trie are those that a history of writes calls for. -/
inductive GrownFrom : History κ → Trie κ α → Prop
  | node {history : History κ} {payload : Option α} {children : List (κ × Trie κ α)}
    -- The node itself was written.
    (payload_iff : payload.isSome ↔ [] ∈ history)
    -- There is a child for each first key, in the order of first use.
    (keys_eq : children.map Prod.fst = history.heads)
    -- A child has grown from what lies behind its key.
    (child : ∀ key t, children.lookup key = some t → GrownFrom (history.behind key) t) :
    GrownFrom history ⟨payload, children⟩

namespace GrownFrom

variable {history : History κ} {t : Trie κ α}

theorem empty : GrownFrom [] (Trie.empty : Trie κ α) :=
  .node (by simp) rfl (by simp)

/-- Without a write there is nothing. -/
theorem eq_empty (h : GrownFrom [] t) : t = .empty := by
  cases h with
  | @node _ payload children payload_iff keys_eq child =>
    obtain rfl : payload = none := by simpa using payload_iff
    obtain rfl : children = [] := List.map_eq_nil_iff.mp keys_eq
    rfl

theorem keys (h : GrownFrom history t) : t.children.map Prod.fst = history.heads := by
  cases h with
  | node _ keys_eq _ => exact keys_eq

theorem nodup_keys (h : GrownFrom history t) : (t.children.map Prod.fst).Nodup := by
  rw [h.keys]
  exact history.nodup_heads

theorem isSome_payload_iff (h : GrownFrom history t) : t.payload.isSome ↔ [] ∈ history := by
  cases h with
  | node payload_iff _ _ => exact payload_iff

theorem of_lookup (h : GrownFrom history t) {key : κ} {child : Trie κ α}
    (hchild : t.children.lookup key = some child) : GrownFrom (history.behind key) child := by
  cases h with
  | node _ _ hbelow => exact hbelow key child hchild

theorem isSome_lookup_iff (h : GrownFrom history t) {key : κ} :
    (t.children.lookup key).isSome ↔ key ∈ history.heads := by
  rw [Dict.isSome_lookup_iff, h.keys]

theorem mem_heads_of_mem (h : GrownFrom history t) {key : κ} {child : Trie κ α}
    (hmem : (key, child) ∈ t.children) : key ∈ history.heads := by
  rw [← h.keys]
  exact List.mem_map_of_mem hmem

theorem exists_mem_of_mem_heads (h : GrownFrom history t) {key : κ}
    (hmem : key ∈ history.heads) : ∃ child, (key, child) ∈ t.children := by
  rw [← h.keys] at hmem
  obtain ⟨⟨key, child⟩, hchild, rfl⟩ := List.mem_map.mp hmem
  exact ⟨child, hchild⟩

theorem of_mem (h : GrownFrom history t) {key : κ} {child : Trie κ α}
    (hmem : (key, child) ∈ t.children) : GrownFrom (history.behind key) child :=
  h.of_lookup ((Dict.lookup_eq_some_iff_mem h.nodup_keys).mpr hmem)

/-- Some list of keys leads on to every child. -/
theorem behind_ne_nil_of_mem (h : GrownFrom history t) {key : κ} {child : Trie κ α}
    (hmem : (key, child) ∈ t.children) : history.behind key ≠ [] := by
  obtain ⟨rest, hrest⟩ := History.mem_heads.mp (h.mem_heads_of_mem hmem)
  exact List.ne_nil_of_mem (History.mem_behind.mpr hrest)

/-- The child at a key, or a new one, has grown from what lies behind the key. -/
theorem getD_lookup (h : GrownFrom history t) (key : κ) :
    GrownFrom (history.behind key) ((t.children.lookup key).getD .empty) := by
  cases hchild : t.children.lookup key with
  | some child => exact h.of_lookup hchild
  | none =>
    have hnew : key ∉ history.heads := by
      rw [← h.isSome_lookup_iff, hchild]
      exact Bool.false_ne_true
    rw [History.behind_eq_nil hnew]
    exact .empty

/-- Writing a list of keys adds it to the end of the history. -/
theorem update (h : GrownFrom history t) (f : Option α → α) (keys : List κ) :
    GrownFrom (history ++ [keys]) (t.update f keys) := by
  induction keys generalizing history t with
  | nil =>
    cases h with
    | node payload_iff keys_eq child =>
      refine .node (by simp) (by rw [History.heads_append_nil, keys_eq]) ?_
      intro key t hlookup
      rw [History.behind_append_nil]
      exact child key t hlookup
  | cons first rest ih =>
    have hfirst := ih (h.getD_lookup first)
    cases h with
    | node payload_iff keys_eq child =>
      refine .node (by simpa using payload_iff) ?_ ?_
      · rw [Dict.map_fst_alter, keys_eq, History.heads_append_cons]
      · intro key t hlookup
        rw [Dict.lookup_alter] at hlookup
        rw [History.behind_append_cons]
        by_cases hkey : key = first
        · -- The child on the way has one more list behind it, by the induction.
          subst hkey
          rw [if_pos rfl] at hlookup ⊢
          obtain rfl := Option.some.inj hlookup
          exact hfirst
        · -- Every other child is as it was.
          rw [if_neg hkey] at hlookup
          rw [if_neg (Ne.symm hkey)]
          exact child key t hlookup

/-- A list of keys has a payload just if it was written. -/
theorem isSome_get?_iff (h : GrownFrom history t) {keys : List κ} :
    (t.get? keys).isSome ↔ keys ∈ history := by
  induction keys generalizing history t with
  | nil => exact h.isSome_payload_iff
  | cons first rest ih =>
    -- The descent follows the history: what is looked up below is what lies behind the key.
    cases hchild : t.children.lookup first with
    | some child =>
      rw [get?, hchild, Option.bind_some, ih (h.of_lookup hchild), History.mem_behind]
    | none =>
      have hnew : first ∉ history.heads := by
        rw [← h.isSome_lookup_iff, hchild]
        exact Bool.false_ne_true
      rw [get?, hchild, Option.bind_none]
      simp only [Option.isSome_none, Bool.false_eq_true, false_iff]
      intro hmem
      exact hnew (History.mem_heads.mpr ⟨rest, hmem⟩)

theorem get?_cons_of_mem (h : GrownFrom history t) {key : κ} {child : Trie κ α}
    (hmem : (key, child) ∈ t.children) (rest : List κ) :
    t.get? (key :: rest) = child.get? rest := by
  rw [get?, (Dict.lookup_eq_some_iff_mem h.nodup_keys).mpr hmem, Option.bind_some]

/-- The payloads of a trie say which children its nodes have. -/
theorem keys_perm (h : GrownFrom history t) {history' : History κ} {t' : Trie κ α}
    (h' : GrownFrom history' t') (hget : ∀ keys, t.get? keys = t'.get? keys) :
    (t.children.map Prod.fst).Perm (t'.children.map Prod.fst) := by
  rw [List.perm_ext_iff_of_nodup h.nodup_keys h'.nodup_keys, h.keys, h'.keys]
  intro key
  simp only [History.mem_heads, ← h.isSome_get?_iff, ← h'.isSome_get?_iff, hget]

end GrownFrom

end Trie

end PathRouting
