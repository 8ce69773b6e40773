import PathRouting.Proofs.Trie.Growth

/-!
# Entries of a trie

The entries of a trie are a finite map: each list of keys occurs once, with the payload that
the look-up finds. A write changes the map at one list of keys, and adds an entry just if
that list had none.

## Main results

* `Trie.GrownFrom.mem_entries_iff`, `Trie.GrownFrom.lookup_entries` — entries and look-up agree
* `Trie.GrownFrom.nodup_map_fst_entries` — no list of keys occurs twice
* `Trie.GrownFrom.length_entries_update` — the number of entries after a write
-/

namespace PathRouting.Trie

universe u v

variable {κ : Type u} {α : Type v}

theorem childEntries_eq (children : List (κ × Trie κ α)) :
    childEntries children =
      children.flatMap fun (key, child) => child.entries.map fun (keys, a) => (key :: keys, a) := by
  induction children with
  | nil => rfl
  | cons entry rest ih => rw [childEntries, ih, List.flatMap_cons]

theorem mem_childEntries {children : List (κ × Trie κ α)} {first : κ} {rest : List κ} {a : α} :
    (first :: rest, a) ∈ childEntries children ↔
      ∃ child, (first, child) ∈ children ∧ (rest, a) ∈ child.entries := by
  rw [childEntries_eq, List.mem_flatMap]
  constructor
  · rintro ⟨⟨key, child⟩, hchild, hentry⟩
    obtain ⟨⟨keys, b⟩, hmem, heq⟩ := List.mem_map.mp hentry
    obtain ⟨⟨rfl, rfl⟩, rfl⟩ : (key = first ∧ keys = rest) ∧ b = a := by simpa using heq
    exact ⟨child, hchild, hmem⟩
  · rintro ⟨child, hchild, hmem⟩
    exact ⟨_, hchild, List.mem_map.mpr ⟨_, hmem, rfl⟩⟩

theorem nil_notMem_childEntries (children : List (κ × Trie κ α)) (a : α) :
    ([], a) ∉ childEntries children := by
  rw [childEntries_eq]
  simp

theorem mem_entries_nil {t : Trie κ α} {a : α} : ([], a) ∈ t.entries ↔ t.payload = some a := by
  obtain ⟨payload, children⟩ := t
  rw [entries, List.mem_append, or_iff_left (nil_notMem_childEntries children a)]
  simp

theorem mem_entries_cons {t : Trie κ α} {first : κ} {rest : List κ} {a : α} :
    (first :: rest, a) ∈ t.entries ↔
      ∃ child, (first, child) ∈ t.children ∧ (rest, a) ∈ child.entries := by
  obtain ⟨payload, children⟩ := t
  rw [entries, List.mem_append, or_iff_right (by simp), mem_childEntries]

namespace GrownFrom

variable [DecidableEq κ] {history : History κ} {t : Trie κ α}

theorem mem_entries_iff (h : GrownFrom history t) {keys : List κ} {a : α} :
    (keys, a) ∈ t.entries ↔ t.get? keys = some a := by
  induction keys generalizing history t with
  | nil => exact mem_entries_nil
  | cons first rest ih =>
    rw [mem_entries_cons, get?, Option.bind_eq_some_iff]
    apply exists_congr
    intro child
    rw [← Dict.lookup_eq_some_iff_mem h.nodup_keys]
    exact and_congr_right fun hchild => ih (h.of_lookup hchild)

theorem nodup_map_fst_entries (h : GrownFrom history t) : (t.entries.map Prod.fst).Nodup := by
  induction h with
  | @node history payload children payload_iff keys_eq child ih =>
    have hkeys : (children.map Prod.fst).Nodup := keys_eq ▸ history.nodup_heads
    have hchildren : (childEntries children).map Prod.fst =
        children.flatMap fun (key, child) => (child.entries.map Prod.fst).map (key :: ·) := by
      rw [childEntries_eq, List.map_flatMap]
      simp [Function.comp_def]
    have hbelow : ((childEntries children).map Prod.fst).Nodup := by
      rw [hchildren, List.nodup_flatMap]
      constructor
      · -- Below one child, by the induction.
        rintro ⟨key, child⟩ hmem
        have hlookup := (Dict.lookup_eq_some_iff_mem hkeys).mpr hmem
        exact (ih key child hlookup).map (List.cons_injective)
      · -- Below two children, because their keys differ.
        have hne : children.Pairwise fun a b => a.1 ≠ b.1 := List.pairwise_map.mp hkeys
        apply hne.imp
        rintro ⟨key, child⟩ ⟨key', child'⟩ hne keys hmem hmem'
        obtain ⟨rest, -, rfl⟩ := List.mem_map.mp hmem
        obtain ⟨rest', -, heq⟩ := List.mem_map.mp hmem'
        exact hne (List.cons.inj heq).1.symm
    -- What ends at the node has no keys, and what goes on below has at least one.
    rw [entries, List.map_append, List.nodup_append']
    refine ⟨by cases payload <;> simp, hbelow, ?_⟩
    intro keys hhere hmem
    rw [hchildren] at hmem
    obtain ⟨⟨key, child⟩, -, hkeys⟩ := List.mem_flatMap.mp hmem
    obtain ⟨rest, -, rfl⟩ := List.mem_map.mp hkeys
    simp at hhere

theorem lookup_entries (h : GrownFrom history t) (keys : List κ) :
    t.entries.lookup keys = t.get? keys := by
  ext a
  rw [Dict.lookup_eq_some_iff_mem h.nodup_map_fst_entries, h.mem_entries_iff]

theorem mem_map_fst_entries_iff (h : GrownFrom history t) {keys : List κ} :
    keys ∈ t.entries.map Prod.fst ↔ keys ∈ history := by
  rw [← Dict.isSome_lookup_iff, h.lookup_entries, h.isSome_get?_iff]

/-- Writing a list of keys adds an entry just if the list has no payload yet. -/
theorem length_entries_update (h : GrownFrom history t) (f : Option α → α) (keys : List κ) :
    (t.update f keys).entries.length =
      if (t.get? keys).isSome then t.entries.length else t.entries.length + 1 := by
  have hafter := h.update f keys
  have hmem : ∀ other, other ∈ (t.update f keys).entries.map Prod.fst ↔
      other ∈ t.entries.map Prod.fst ∨ other = keys := by
    intro other
    rw [hafter.mem_map_fst_entries_iff, h.mem_map_fst_entries_iff]
    simp
  -- Entries are counted by their lists of keys, which do not repeat.
  split
  · rename_i hold
    have hin : keys ∈ t.entries.map Prod.fst :=
      h.mem_map_fst_entries_iff.mpr (h.isSome_get?_iff.mp hold)
    have hperm : ((t.update f keys).entries.map Prod.fst).Perm (t.entries.map Prod.fst) := by
      rw [List.perm_ext_iff_of_nodup hafter.nodup_map_fst_entries h.nodup_map_fst_entries]
      intro other
      rw [hmem, or_iff_left_of_imp]
      rintro rfl
      exact hin
    simpa using hperm.length_eq
  · rename_i hnew
    have hout : keys ∉ t.entries.map Prod.fst := by
      rw [h.mem_map_fst_entries_iff, ← h.isSome_get?_iff]
      exact hnew
    have hperm : ((t.update f keys).entries.map Prod.fst).Perm
        (keys :: t.entries.map Prod.fst) := by
      rw [List.perm_ext_iff_of_nodup hafter.nodup_map_fst_entries
        (List.nodup_cons.mpr ⟨hout, h.nodup_map_fst_entries⟩)]
      intro other
      rw [hmem, List.mem_cons, or_comm]
    simpa using hperm.length_eq

end GrownFrom

end PathRouting.Trie
