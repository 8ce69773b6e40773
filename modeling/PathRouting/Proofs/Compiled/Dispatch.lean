import PathRouting.Proofs.Compiled.Candidates
import PathRouting.Proofs.Matcher.Cursor
import PathRouting.Proofs.Registry.Runs

/-!
# One literal needs no table

A node with one literal child tests its text as a prefix of what remains of a path, byte by
byte, and this test may be folded with what follows. A node with several looks the whole next
part up in a table. The test may succeed inside of a longer part, so behind most matchers the
two differ. Behind the matcher of a node they agree, since it begins with the end of the path or
a slash.

## Main definitions

* `Matcher.findBehind` — the walk that takes a text off as a whole part

## Main results

* `Matcher.find_table_singleton` — a table of one entry takes its key off as a whole part
* `Trie.find_prefixed` — and so does a prefix test before the matcher of a node
* `Trie.walk_prefixed_agrees_table` — from everywhere between two characters of a path
-/

namespace PathRouting

universe u

variable {α : Type u}

open Text (Cursor)

namespace Matcher

/-- The payload that the rest of a path leads to if its next part is exactly the text, with the
trail afterwards. -/
def findBehind (text : String) (m : Matcher α) (path : List Char) (trail : Trail) :
    Option α × Trail :=
  if (Path.frontPart path).1 = text.toList then m.find (Path.frontPart path).2 trail
  else (none, trail)

theorem findBehind_of_ne {text : String} {path : List Char}
    (h : (Path.frontPart path).1 ≠ text.toList) (m : Matcher α) (trail : Trail) :
    m.findBehind text path trail = (none, trail) :=
  if_neg h

/-- A table looks the whole next part up, whatever its children are. -/
theorem find_table_singleton (text : String) (m : Matcher α) (path : List Char) (trail : Trail) :
    (table [(text, m)]).find path trail = m.findBehind text path trail := by
  have hentry : table [(text, m)] = .dispatch [(text, m)] :=
    congrArg dispatch (Dict.ofList_eq_self (List.nodup_singleton text))
  obtain ⟨part, more, rfl, -, hfront⟩ := Path.exists_frontPart_eq path
  have hpart : String.ofList part = text ↔ part = text.toList := by
    rw [← String.toList_inj, String.toList_ofList]
  rw [hentry, find, findBehind, hfront]
  dsimp only
  rw [findEntry, findEntry]
  exact if_congr hpart rfl rfl

end Matcher

namespace Trie

variable {t : Trie Segment α} {m : Matcher α}

open Matcher (Agrees Trail findBehind)

/-- A prefix test before the matcher of a node may succeed in the middle of a part, but then
nothing is found behind it. -/
theorem find_prefixed (h : t.matcher? = some m) {text : String} (htext : '/' ∉ text.toList)
    (path : List Char) (trail : Trail) :
    (Matcher.prefixed text m).find path trail = m.findBehind text path trail := by
  obtain ⟨part, more, rfl, hpart, hfront⟩ := Path.exists_frontPart_eq path
  rw [Matcher.find_eq, ways_prefixed_text h htext hpart, findBehind, hfront]
  dsimp only
  split
  · rw [Matcher.find_eq, ways_eq_of_matcher? h]
  · -- Behind a prefix inside of a part there is neither the end nor a slash, so no way is left.
    rfl

/-- Let a matcher be that of a node, of any trie, and a text have no slash. Then no walk can tell
whether the text is tested as a prefix before that matcher, or looked up in a table with this one
entry. From everywhere between two characters of a path, with every trail, both walks on bytes
give the payload, the captures and the notices that are found behind the text if it is the whole
next part. If it is not, then both find nothing and leave the trail as it was, also where the
next part begins with the text. -/
theorem walk_prefixed_agrees_table (h : t.matcher? = some m) {text : String}
    (htext : '/' ∉ text.toList) :
    Matcher.Agree (.prefixed text m) (.table [(text, m)]) ∧
      ∀ (path : String) (i : Nat) (trail : Trail), (⟨i⟩ : String.Pos.Raw).IsValid path →
        ∃ ahead, Cursor path i ahead ∧
          Agrees path ((Matcher.prefixed text m).walk path i trail)
            (m.findBehind text ahead trail) ∧
          Agrees path ((Matcher.table [(text, m)]).walk path i trail)
            (m.findBehind text ahead trail) ∧
          ((Path.frontPart ahead).1 ≠ text.toList →
            m.findBehind text ahead trail = (none, trail)) := by
  have hfind := find_prefixed h htext
  constructor
  · apply Matcher.Agree.of_find
    intro path trail
    rw [hfind, Matcher.find_table_singleton]
  · intro path i trail hi
    obtain ⟨ahead, hcursor⟩ := Cursor.exists_of_isValid hi
    refine ⟨ahead, hcursor, ?_, ?_, ?_⟩
    · rw [← hfind]
      exact Matcher.walk_agrees _ hcursor trail
    · rw [← Matcher.find_table_singleton]
      exact Matcher.walk_agrees _ hcursor trail
    · exact fun hpart => Matcher.findBehind_of_ne hpart m trail

/-- A node of a registry with a folded literal and an end. A part that only begins with the text
is refused by both walks, and both take the text off as a whole part. -/
theorem walk_prefixed_agrees_table_longer :
    let registry := (Registry.ofPolicy {}).registerAll [("/a/b", 1), ("/a", 2)]
    let node : Trie Segment Nat := ⟨some 2, [(.literal "b", ⟨some 1, []⟩)]⟩
    let behind : Matcher Nat := .choice [.literal "/b" 3 (.leaf (some 1)), .leaf (some 2)]
    registry.routes = ⟨none, [(.literal "a", node)]⟩ ∧ node.matcher? = some behind ∧
      '/' ∉ "a".toList ∧
      Agrees "/ab" ((Matcher.prefixed "a" behind).walk "/ab" 1 .empty) (none, .empty) ∧
      Agrees "/ab" ((Matcher.table [("a", behind)]).walk "/ab" 1 .empty) (none, .empty) ∧
      Agrees "/a/b" ((Matcher.prefixed "a" behind).walk "/a/b" 1 .empty) (some 1, .empty) ∧
      Agrees "/a/b" ((Matcher.table [("a", behind)]).walk "/a/b" 1 .empty) (some 1, .empty) := by
  intro registry node behind
  have hnode : node.matcher? = some behind := rfl
  have htext : '/' ∉ "a".toList := by decide
  obtain ⟨-, hwalks⟩ := walk_prefixed_agrees_table hnode htext
  have hslash : ∀ path : String, Cursor ("/" ++ path) 1 path.toList :=
    fun path => ⟨['/'], String.toList_append, rfl⟩
  obtain ⟨ahead, hcursor, hprefix, htable, hrefused⟩ := hwalks "/ab" 1 .empty (hslash "ab").isValid
  obtain rfl := hcursor.unique (hslash "ab")
  rw [hrefused (by decide)] at hprefix htable
  obtain ⟨ahead, hcursor, hprefix', htable', -⟩ := hwalks "/a/b" 1 .empty (hslash "a/b").isValid
  obtain rfl := hcursor.unique (hslash "a/b")
  exact ⟨rfl, hnode, htext, hprefix, htable, hprefix', htable'⟩

end Trie

end PathRouting
