import Mathlib.Data.List.Forall2
import PathRouting.Proofs.Matcher.Counting

/-!
# Folding literals

A literal in front of a literal is folded into one node, which takes their texts off the path
in one test, and stores the depth of the two. A walk cannot tell: along every path, from
every place and with every trail it finds the same. Nor does it read any stored depth. Both
hold wherever the literals stand in a tree, for a walk that finds the same below a node finds
the same at it.

## Main definitions

* `Matcher.Refolded` — two trees differ in the folding and in the stored depths of literals

## Main results

* `Matcher.Agree.literal`, `Matcher.Agree.dispatch`, `Matcher.Agree.wild`,
  `Matcher.Agree.choice` — what agrees below a node agrees at it
* `Matcher.Agree.fold` — one test agrees with two
* `Matcher.Refolded.agree` — trees that differ in nothing else agree
* `Matcher.agree_of_folding` — hence so do the smart constructor and the tree without folding
-/

namespace PathRouting

universe u

namespace Matcher

variable {α : Type u}

namespace Agree

variable {m m' : Matcher α}

/-! ### Below a node -/

/-- The stored depths need not agree. -/
theorem literal (h : Agree m m') (text : String) (depth depth' : Nat) :
    Agree (.literal text depth m) (.literal text depth' m') := by
  apply of_find
  intro path trail
  rw [find, find]
  cases text.toList.isPrefixOf? path with
  | none => rfl
  | some rest => exact h.find_eq rest trail

theorem wild (h : Agree m m') (name : String) : Agree (.wild name m) (.wild name m') := by
  apply of_find
  intro path trail
  simp only [find, h.find_eq]

theorem dispatch {entries entries' : List (String × Matcher α)}
    (h : List.Forall₂ (fun a b => a.1 = b.1 ∧ Agree a.2 b.2) entries entries') :
    Agree (.dispatch entries) (.dispatch entries') := by
  have hentry : ∀ part rest trail,
      findEntry entries part rest trail = findEntry entries' part rest trail := by
    intro part rest trail
    induction h with
    | nil => rfl
    | @cons a b _ _ hab _ ih =>
      obtain ⟨hkey, hchild⟩ := hab
      rw [findEntry, findEntry, hkey, hchild.find_eq, ih]
  apply of_find
  intro path trail
  rw [find, find]
  exact hentry _ _ trail

theorem choice {members members' : List (Matcher α)} (h : List.Forall₂ Agree members members') :
    Agree (.choice members) (.choice members') := by
  apply of_find
  intro path trail
  rw [find, find]
  induction h generalizing trail with
  | nil => rfl
  | cons hhead _ ih =>
    rw [findMember, findMember, hhead.find_eq]
    split
    · rfl
    · exact ih _

/-! ### Two literals -/

/-- One test of a text agrees with two tests of its halves, whether the path ends inside of
the first, inside of the second or behind both. -/
theorem fold (front back : String) (depth depth' depth'' : Nat) (m : Matcher α) :
    Agree (.literal front depth (.literal back depth' m))
      (.literal (front ++ back) depth'' m) := by
  apply of_find
  intro path trail
  rw [find, find, String.toList_append, isPrefixOf?_append]
  cases front.toList.isPrefixOf? path with
  | none => rfl
  | some rest =>
    change find (.literal back depth' m) rest trail = _
    rw [find]
    rfl

end Agree

/-! ### Trees -/

/-- Two trees differ in nothing but the stored depths of literals and in which literals are
folded, at any places. -/
inductive Refolded : Matcher α → Matcher α → Prop
  | refl (m : Matcher α) : Refolded m m
  | symm {m m' : Matcher α} (h : Refolded m m') : Refolded m' m
  | trans {m m' m'' : Matcher α} (h : Refolded m m') (h' : Refolded m' m'') : Refolded m m''
  /-- Two literals in a row are the literal of both texts. -/
  | fold (front back : String) (depth depth' depth'' : Nat) (m : Matcher α) :
    Refolded (.literal front depth (.literal back depth' m))
      (.literal (front ++ back) depth'' m)
  /-- The stored depth may be any. -/
  | literal (text : String) (depth depth' : Nat) {m m' : Matcher α} (child : Refolded m m') :
    Refolded (.literal text depth m) (.literal text depth' m')
  -- Entries and members are compared by their places.
  | dispatch {entries entries' : List (String × Matcher α)}
    (length_eq : entries.length = entries'.length)
    (key_eq : ∀ a b, (a, b) ∈ entries.zip entries' → a.1 = b.1)
    (child : ∀ a b, (a, b) ∈ entries.zip entries' → Refolded a.2 b.2) :
    Refolded (.dispatch entries) (.dispatch entries')
  | wild (name : String) {m m' : Matcher α} (child : Refolded m m') :
    Refolded (.wild name m) (.wild name m')
  | choice {members members' : List (Matcher α)} (length_eq : members.length = members'.length)
    (member : ∀ m m', (m, m') ∈ members.zip members' → Refolded m m') :
    Refolded (.choice members) (.choice members')

namespace Refolded

theorem agree {m m' : Matcher α} (h : Refolded m m') : Agree m m' := by
  -- One case for each constructor: a test that is split, or a node above subtrees that agree.
  induction h with
  | refl m => exact .refl m
  | symm _ ih => exact ih.symm
  | trans _ _ ih ih' => exact ih.trans ih'
  | fold front back depth depth' depth'' m => exact .fold front back depth depth' depth'' m
  | literal text depth depth' _ ih => exact ih.literal text depth depth'
  | dispatch length_eq key_eq _ ih =>
    apply Agree.dispatch
    exact List.forall₂_iff_zip.mpr ⟨length_eq, fun hmem => ⟨key_eq _ _ hmem, ih _ _ hmem⟩⟩
  | wild name _ ih => exact ih.wild name
  | choice length_eq _ ih =>
    exact .choice (List.forall₂_iff_zip.mpr ⟨length_eq, fun hmem => ih _ _ hmem⟩)

/-- At most one literal is folded. -/
theorem folded_literal (text : String) (depth depth' : Nat) (m : Matcher α) :
    Refolded (folded text depth m) (.literal text depth' m) := by
  have hnew : ∀ child : Matcher α,
      Refolded (.literal text depth child) (.literal text depth' child) :=
    fun child => .literal text depth depth' (.refl child)
  cases m with
  | literal more _ child => exact .symm (.fold text more _ _ _ child)
  | dispatch entries => exact hnew _
  | wild name child => exact hnew _
  | catchAll name payload => exact hnew _
  | leaf payload => exact hnew _
  | choice members => exact hnew _

end Refolded

/-! ### The smart constructor -/

variable {word : Word} {text front back : String} {m single nested : Matcher α}

theorem agree_of_prefixedIn (h : prefixedIn word text m = .ok single) (depth : Nat) :
    Agree single (literal text depth m) ∧
      single.depthIn word = (m.depthIn word).bind word.next := by
  obtain ⟨n, hn, rfl⟩ := prefixedIn_eq_ok_iff.mp h
  rw [hn]
  exact ⟨(Refolded.folded_literal text n depth m).agree, depthIn_folded text n m⟩

/-- Where two literals in a row are counted, so is the literal of both texts. -/
theorem agree_of_prefixedIn_prefixedIn
    (h : (prefixedIn word back m).bind (prefixedIn word front) = .ok nested) :
    ∃ joined, prefixedIn word (front ++ back) m = .ok joined ∧ Agree nested joined ∧
      nested.depthIn word = (joined.depthIn word).bind word.next := by
  cases hinner : prefixedIn word back m with
  | error e =>
    rw [hinner] at h
    cases h
  | ok inner =>
    rw [hinner, Except.bind] at h
    obtain ⟨n, hn, -⟩ := prefixedIn_eq_ok_iff.mp hinner
    have hjoined : prefixedIn word (front ++ back) m = .ok (folded (front ++ back) n m) :=
      prefixedIn_eq_ok_iff.mpr ⟨n, hn, rfl⟩
    refine ⟨folded (front ++ back) n m, hjoined, ?_, ?_⟩
    · have hnested : Agree nested (literal front 0 (literal back 0 m)) :=
        (agree_of_prefixedIn h 0).1.trans ((agree_of_prefixedIn hinner 0).1.literal front 0 0)
      exact hnested.trans ((Agree.fold front back 0 0 0 m).trans
        (agree_of_prefixedIn hjoined 0).1.symm)
    · rw [(agree_of_prefixedIn h 0).2, (agree_of_prefixedIn hinner 0).2,
        (agree_of_prefixedIn hjoined 0).2]

/-- The smart constructor agrees with the literal that is not folded, whatever depth that one
stores, and it has the depth that the chain of nodes without folding has. Two literals that
are written one in front of the other agree with the literal of both texts, which is less
deep by one. All of these depths are counted in some word: what the word has is counted
exactly, and just a checked word that does not have a depth stops a smart constructor. Trees
that differ in the folding and in the stored depths of literals, at any places, agree. -/
theorem agree_of_folding (word : Word) (text front back : String) (depth : Nat)
    (m : Matcher α) :
    word.Returns (m.depth + 1) (prefixedIn word text m) (fun single =>
        Agree single (literal text depth m) ∧
          single.depthIn word = (m.depthIn word).bind word.next ∧
          (m.depth + 1 < word.size → single.depthIn word = .ok (m.depth + 1))) ∧
      word.Returns (m.depth + 2) ((prefixedIn word back m).bind (prefixedIn word front))
        (fun nested => ∃ joined, prefixedIn word (front ++ back) m = .ok joined ∧
          Agree nested joined ∧
          nested.depthIn word = (joined.depthIn word).bind word.next ∧
          (m.depth + 2 < word.size → nested.depthIn word = .ok (m.depth + 2) ∧
            joined.depthIn word = .ok (m.depth + 1))) ∧
      ∀ m', Refolded m m' → Agree m m' := by
  -- A depth that the word has is counted on exactly.
  have hsingle : ∀ {text single}, m.depth + 1 < word.size →
      prefixedIn word text m = .ok single → single.depthIn word = .ok (m.depth + 1) := by
    intro text single hlt h
    rw [(agree_of_prefixedIn h 0).2, depthIn_of_lt (by omega), Except.bind, Word.next_of_lt hlt]
  refine ⟨Word.returns_of ?_ ?_ ?_, Word.returns_of ?_ ?_ ?_, fun m' h => h.agree⟩
  · exact fun h => exists_prefixedIn_of_unchecked h text m
  · exact fun h => ⟨_, prefixedIn_of_lt h⟩
  · intro single h
    exact ⟨(agree_of_prefixedIn h depth).1, (agree_of_prefixedIn h depth).2,
      fun hlt => hsingle hlt h⟩
  · intro h
    obtain ⟨inner, hinner⟩ := exists_prefixedIn_of_unchecked h back m
    rw [hinner]
    exact exists_prefixedIn_of_unchecked h front inner
  · intro h
    rw [prefixedIn_of_lt (by omega)]
    exact ⟨_, prefixedIn_of_lt (by rw [depth_prefixed]; omega)⟩
  · intro nested h
    obtain ⟨joined, hjoined, hagree, hdepth⟩ := agree_of_prefixedIn_prefixedIn h
    refine ⟨joined, hjoined, hagree, hdepth, ?_⟩
    intro hlt
    have hjoinedDepth := hsingle (by omega) hjoined
    refine ⟨?_, hjoinedDepth⟩
    rw [hdepth, hjoinedDepth, Except.bind, Word.next_of_lt (by omega)]

/-- The greatest depth of a word is stored. What is folded is no deeper than zero, unless the
word is checked. -/
example :
    let m : Matcher Nat := .literal "b" 0xFFFFFFFFFFFFFFFF (.leaf (some 1))
    prefixedIn ⟨64, false⟩ "a" m = .ok (.literal "ab" 0 (.leaf (some 1))) ∧
      prefixedIn ⟨64, true⟩ "a" m = .error .next :=
  ⟨rfl, rfl⟩

/-- A literal below a choice is split inside of the text and stores other depths. A path that
ends inside of the second half goes on to the next member, and one that matches captures the
same. -/
theorem agree_of_folding_choice :
    let folded : Matcher Nat :=
      .choice [.literal "a/é/" 4 (.wild "x" (.leaf (some 1))), .catchAll "rest" 2]
    let split : Matcher Nat :=
      .choice [.literal "a/" 0 (.literal "é/" 9 (.wild "x" (.leaf (some 1)))), .catchAll "rest" 2]
    Refolded folded split ∧ Agree folded split ∧
      split.lookupLogged "a/é/b" = (some ⟨1, ⟨[("x", "b")]⟩⟩, []) ∧
      split.lookupLogged "a/é" = (some ⟨2, ⟨[("rest", "a/é")]⟩⟩, []) := by
  intro folded split
  have hrefolded : Refolded folded split := by
    refine .choice rfl ?_
    intro m m' hmem
    simp only [List.zip_cons_cons, List.zip_nil_right, List.mem_cons, Prod.mk.injEq,
      List.not_mem_nil, or_false] at hmem
    rcases hmem with ⟨rfl, rfl⟩ | ⟨rfl, rfl⟩
    · exact .symm (.fold "a/" "é/" 0 9 4 _)
    · exact .refl _
  refine ⟨hrefolded, (agree_of_folding ⟨64, true⟩ "" "" "" 0 folded).2.2 split hrefolded, ?_, ?_⟩
  · decide +kernel
  · decide +kernel

end Matcher

end PathRouting
