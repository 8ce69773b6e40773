import PathRouting.Proofs.Trie.Growth

/-!
# Nodes of a trie

Every node of a trie is reached by a list of keys. In a trie that was built by writes alone
the node has grown from what the history writes behind these keys, so there is no node
without a purpose: below the root each one has a payload, or leads to one.

## Main definitions

* `Trie.node?` — the node at a list of keys
* `Trie.Below` — a node below the root, with the key that its parent has for it
* `Trie.childKeys` — the keys of the children of a node, in their order
* `History.behindAll` — how the lists that begin with a list of keys go on

## Main results

* `Trie.childKeys_node?_update` — writing a payload where one is keeps all children in place
* `Trie.GrownFrom.of_node?` — a node has grown from what lies behind its keys
* `Trie.GrownFrom.exists_node?` — there is a node wherever something lies behind
* `Trie.GrownFrom.exists_isSome_get?` — a node below the root has a payload at or below it
* `Trie.GrownFrom.exists_behind_of_below` — a node has grown from what lies behind its key
-/

namespace PathRouting

universe u v

namespace History

variable {κ : Type u} [DecidableEq κ]

/-- How the lists that begin with `keys` go on behind them. -/
def behindAll (history : History κ) (keys : List κ) : History κ :=
  keys.foldl behind history

@[simp] theorem behindAll_cons (history : History κ) (key : κ) (rest : List κ) :
    history.behindAll (key :: rest) = (history.behind key).behindAll rest := rfl

theorem mem_behindAll {history : History κ} {keys rest : List κ} :
    rest ∈ history.behindAll keys ↔ keys ++ rest ∈ history := by
  induction keys generalizing history with
  | nil => exact Iff.rfl
  | cons key keys ih => rw [behindAll_cons, ih, mem_behind, List.cons_append]

theorem behindAll_append_singleton (history : History κ) (keys : List κ) (key : κ) :
    history.behindAll (keys ++ [key]) = (history.behindAll keys).behind key :=
  List.foldl_append

end History

namespace Trie

variable {κ : Type u} {α : Type v} [DecidableEq κ]

/-- The node at a list of keys. -/
def node? : List κ → Trie κ α → Option (Trie κ α)
  | [], t => some t
  | key :: rest, t => (t.children.lookup key).bind (node? rest)

omit [DecidableEq κ] in
/-- A node below the root of a trie, with the key that its parent has for it. -/
inductive Below (t : Trie κ α) : κ → Trie κ α → Prop
  /-- A child of the root. -/
  | child {key : κ} {node : Trie κ α} (hchild : (key, node) ∈ t.children) : Below t key node
  /-- A child of a node below the root. -/
  | deeper {key key' : κ} {parent node : Trie κ α} (hparent : Below t key' parent)
    (hchild : (key, node) ∈ parent.children) : Below t key node

omit [DecidableEq κ] in
/-- What holds at a node if it holds at its children holds at every node. -/
@[elab_as_elim]
theorem induction_children {motive : Trie κ α → Prop}
    (node : ∀ t, (∀ key child, (key, child) ∈ t.children → motive child) → motive t)
    (t : Trie κ α) : motive t := by
  obtain ⟨payload, children⟩ := t
  apply node
  intro key child hchild
  have hsmaller : sizeOf child < sizeOf children := by
    have hentry := List.sizeOf_lt_of_mem hchild
    simp only [Prod.mk.sizeOf_spec] at hentry
    omega
  exact induction_children node child
termination_by t
decreasing_by
  simp only [Trie.mk.sizeOf_spec]
  omega

/-! ### Writes where a payload is -/

/-- The keys of the children, in their order. -/
def childKeys (t : Trie κ α) : List κ :=
  t.children.map Prod.fst

/-- There is a child on the way to a payload. -/
theorem exists_child_of_isSome_get? {k : κ} {rest : List κ} {t : Trie κ α}
    (h : (t.get? (k :: rest)).isSome) :
    ∃ child, t.children.lookup k = some child ∧ (child.get? rest).isSome := by
  obtain ⟨payload, hpayload⟩ := Option.isSome_iff_exists.mp h
  obtain ⟨child, hchild, hget⟩ := Option.bind_eq_some_iff.mp hpayload
  exact ⟨child, hchild, Option.isSome_of_eq_some hget⟩

theorem childKeys_update (f : Option α → α) {ks : List κ} {t : Trie κ α}
    (h : (t.get? ks).isSome) : (t.update f ks).childKeys = t.childKeys := by
  cases ks with
  | nil => rfl
  | cons k rest =>
    obtain ⟨child, hchild, -⟩ := exists_child_of_isSome_get? h
    have hkey : k ∈ t.children.map Prod.fst := by
      rw [← Dict.isSome_lookup_iff, hchild]
      rfl
    rw [childKeys, update, Dict.map_fst_alter, if_pos hkey, childKeys]

/-- Writing a payload where one is creates no node, and every node keeps its children in
their order. -/
theorem childKeys_node?_update (f : Option α → α) {ks : List κ} {t : Trie κ α}
    (h : (t.get? ks).isSome) (keys : List κ) :
    ((t.update f ks).node? keys).map childKeys = (t.node? keys).map childKeys := by
  -- The induction follows the way to the node. It leaves the way to the payload where the
  -- keys differ, and what is below has not changed.
  induction keys generalizing t ks with
  | nil => exact congrArg some (childKeys_update f h)
  | cons key keys ih =>
    cases ks with
    | nil => rfl
    | cons k rest =>
      rw [node?, node?, update, Dict.lookup_alter]
      by_cases hkey : key = k
      · subst hkey
        obtain ⟨child, hchild, hget⟩ := exists_child_of_isSome_get? h
        rw [if_pos rfl, hchild, Option.bind_some, Option.bind_some, Option.getD_some]
        exact ih hget
      · rw [if_neg hkey]

/-! ### Nodes of a trie that has grown -/

namespace GrownFrom

variable {history : History κ} {t node : Trie κ α}

theorem of_node? (h : GrownFrom history t) {keys : List κ} (hnode : t.node? keys = some node) :
    GrownFrom (history.behindAll keys) node := by
  induction keys generalizing history t with
  | nil =>
    obtain rfl := Option.some.inj hnode
    exact h
  | cons key rest ih =>
    obtain ⟨child, hchild, hrest⟩ := Option.bind_eq_some_iff.mp hnode
    exact ih (h.of_lookup hchild) hrest

/-- Some list of keys leads on to every node, or past it. -/
theorem behindAll_ne_nil (h : GrownFrom history t) {keys : List κ} (hkeys : keys ≠ [])
    (hnode : t.node? keys = some node) : history.behindAll keys ≠ [] := by
  induction keys generalizing history t with
  | nil => exact absurd rfl hkeys
  | cons key rest ih =>
    obtain ⟨child, hchild, hrest⟩ := Option.bind_eq_some_iff.mp hnode
    rw [History.behindAll_cons]
    cases rest with
    | nil =>
      have hmem := (Dict.lookup_eq_some_iff_mem h.nodup_keys).mp hchild
      exact h.behind_ne_nil_of_mem hmem
    | cons next more => exact ih (h.of_lookup hchild) (List.cons_ne_nil next more) hrest

/-- There is a node at every list of keys that some list goes on behind. -/
theorem exists_node? (h : GrownFrom history t) {keys rest : List κ}
    (hrest : rest ∈ history.behindAll keys) : ∃ node, t.node? keys = some node := by
  induction keys generalizing history t with
  | nil => exact ⟨t, rfl⟩
  | cons key keys ih =>
    have hkey : key ∈ history.heads :=
      History.mem_heads.mpr ⟨keys ++ rest, History.mem_behindAll.mp hrest⟩
    obtain ⟨child, hmem⟩ := h.exists_mem_of_mem_heads hkey
    have hchild := (Dict.lookup_eq_some_iff_mem h.nodup_keys).mpr hmem
    rw [node?, hchild, Option.bind_some]
    exact ih (h.of_lookup hchild) hrest

/-- A node below the root has a payload at it or below it. -/
theorem exists_isSome_get? (h : GrownFrom history t) {keys : List κ} (hkeys : keys ≠ [])
    (hnode : t.node? keys = some node) : ∃ rest, (node.get? rest).isSome := by
  obtain ⟨rest, hrest⟩ := List.exists_mem_of_ne_nil _ (h.behindAll_ne_nil hkeys hnode)
  exact ⟨rest, (h.of_node? hnode).isSome_get?_iff.mpr hrest⟩

/-- A node below the root has grown from what lies behind its key, at a place where the
history goes on with that key. -/
theorem exists_behind_of_below (h : GrownFrom history t) {key : κ} (hbelow : t.Below key node) :
    ∃ keys, key ∈ (history.behindAll keys).heads ∧
      GrownFrom ((history.behindAll keys).behind key) node := by
  induction hbelow with
  | child hchild => exact ⟨[], h.mem_heads_of_mem hchild, h.of_mem hchild⟩
  | @deeper key key' parent node _ hchild ih =>
    obtain ⟨keys, -, hparent⟩ := ih
    rw [← History.behindAll_append_singleton] at hparent
    exact ⟨keys ++ [key'], hparent.mem_heads_of_mem hchild, hparent.of_mem hchild⟩

end GrownFrom

end Trie

end PathRouting
