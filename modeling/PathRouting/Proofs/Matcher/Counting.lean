import Mathlib.Data.Nat.Basic
import PathRouting.Matcher.Word
import PathRouting.Proofs.Matcher.Ranking

/-!
# Counted depths

A depth that is counted in a word is the exact depth if that one is in the word, and so are
the ranks and what the smart constructors make. Beyond that, only a count in a checked word
stops. Wherever it does not, the counts settle what the smart constructors make.

## Main definitions

* `Word.Returns` — a count gives a value with some property, unless it may stop and does
* `Matcher.greatest` — the greatest of several counts

## Main results

* `Matcher.depthIn_of_lt` — what is in the word is counted exactly
* `Matcher.returns_depthIn` — just a checked count that leaves the word stops
* `Matcher.prefixedIn_eq` — a literal in front of a matcher, by the depth that is counted
* `Matcher.alternativesIn_eq_ok`, `Matcher.alternativesIn_eq_error_iff` — alternatives, by the
  ranks that are counted
* `Matcher.prefixedIn_of_lt`, `Matcher.alternativesIn_of_lt` — what is in the word makes what
  the exact smart constructors make
-/

namespace PathRouting

universe u v u' v'

/-- Two counts both stop, or both give values and these are related. -/
inductive Overflow.Rel {β : Type u} {γ : Type v} (R : β → γ → Prop) :
    Except Overflow β → Except Overflow γ → Prop
  | stop (e : Overflow) : Rel R (.error e) (.error e)
  | ok {b : β} {c : γ} (h : R b c) : Rel R (.ok b) (.ok c)

namespace Overflow.Rel

variable {β : Type u} {γ : Type v} {β' : Type u'} {γ' : Type v'} {R : β → γ → Prop}
  {S : β' → γ' → Prop} {x : Except Overflow β} {y : Except Overflow γ}

theorem refl (x : Except Overflow β) : Rel Eq x x := by
  cases x with
  | error e => exact .stop e
  | ok b => exact .ok rfl

theorem bind {f : β → Except Overflow β'} {g : γ → Except Overflow γ'} (h : Rel R x y)
    (hfg : ∀ b c, R b c → Rel S (f b) (g c)) : Rel S (x.bind f) (y.bind g) := by
  cases h with
  | stop e => exact .stop e
  | ok h => exact hfg _ _ h

theorem map {f : β → β'} {g : γ → γ'} (h : Rel R x y) (hfg : ∀ b c, R b c → S (f b) (g c)) :
    Rel S (x.map f) (y.map g) := by
  cases h with
  | stop e => exact .stop e
  | ok h => exact .ok (hfg _ _ h)

end Overflow.Rel

namespace Word

variable {word : Word} {n : Nat}

theorem size_pos (word : Word) : 0 < word.size :=
  Nat.two_pow_pos word.bits

theorem next_of_lt (h : n + 1 < word.size) : word.next n = .ok (n + 1) :=
  if_pos h

theorem exists_next_of_unchecked (h : word.checked = false) (n : Nat) :
    ∃ k, word.next n = .ok k := by
  rw [next, h]
  split
  · exact ⟨_, rfl⟩
  · exact ⟨_, rfl⟩

/-- What counts up to `n` gives a value with some property, or it stops, since the word is
checked and does not have `n`. -/
def Returns (word : Word) (n : Nat) {β : Type u} (x : Except Overflow β) (P : β → Prop) : Prop :=
  (∃ b, x = .ok b ∧ P b) ∨ (word.checked = true ∧ word.size ≤ n ∧ x = .error .next)

theorem returns_of {β : Type u} {x : Except Overflow β} {P : β → Prop}
    (hunchecked : word.checked = false → ∃ b, x = .ok b)
    (hlt : n < word.size → ∃ b, x = .ok b) (hP : ∀ b, x = .ok b → P b) :
    word.Returns n x P := by
  cases x with
  | ok b => exact .inl ⟨b, rfl, hP b rfl⟩
  | error e =>
    refine .inr ⟨?_, ?_, rfl⟩
    · by_contra h
      obtain ⟨b, hb⟩ := hunchecked (Bool.eq_false_iff.mpr h)
      cases hb
    · by_contra h
      obtain ⟨b, hb⟩ := hlt (Nat.lt_of_not_le h)
      cases hb

end Word

namespace Matcher

variable {α : Type u} {word : Word}

/-- What holds at a node if it holds right below it holds of every matcher. -/
@[elab_as_elim]
theorem induction_nodes {motive : Matcher α → Prop}
    (literal : ∀ text depth child, motive child → motive (.literal text depth child))
    (dispatch : ∀ entries, (∀ key child, (key, child) ∈ entries → motive child) →
      motive (.dispatch entries))
    (wild : ∀ name child, motive child → motive (.wild name child))
    (catchAll : ∀ name payload, motive (.catchAll name payload))
    (leaf : ∀ payload, motive (.leaf payload))
    (choice : ∀ members, (∀ m ∈ members, motive m) → motive (.choice members))
    (m : Matcher α) : motive m := by
  have below : ∀ child, sizeOf child < sizeOf m → motive child := fun child _ =>
    induction_nodes literal dispatch wild catchAll leaf choice child
  cases m with
  | literal text depth child =>
    refine literal text depth child (below child ?_)
    simp only [Matcher.literal.sizeOf_spec]
    omega
  | dispatch entries =>
    refine dispatch entries fun key child hentry => below child ?_
    have hsmaller := List.sizeOf_lt_of_mem hentry
    simp only [Prod.mk.sizeOf_spec, Matcher.dispatch.sizeOf_spec] at hsmaller ⊢
    omega
  | wild name child =>
    refine wild name child (below child ?_)
    simp only [Matcher.wild.sizeOf_spec]
    omega
  | catchAll name payload => exact catchAll name payload
  | leaf payload => exact leaf payload
  | choice members =>
    refine choice members fun member hmember => below member ?_
    have hsmaller := List.sizeOf_lt_of_mem hmember
    simp only [Matcher.choice.sizeOf_spec]
    omega
termination_by m

/-! ### Depth -/

/-- The greatest of several counts, zero if there are none. It stops where one of them
stops. -/
def greatest (counts : List (Except Overflow Nat)) : Except Overflow Nat :=
  counts.foldr (fun count rest => do return max (← count) (← rest)) (.ok 0)

theorem entriesDepthIn_eq (entries : List (String × Matcher α)) :
    entriesDepthIn word entries = greatest (entries.map fun entry => entry.2.depthIn word) := by
  induction entries with
  | nil => rfl
  | cons entry rest ih => rw [entriesDepthIn, ih]; rfl

theorem membersDepthIn_eq (members : List (Matcher α)) :
    membersDepthIn word members = greatest (members.map (depthIn word)) := by
  induction members with
  | nil => rfl
  | cons member rest ih => rw [membersDepthIn, ih]; rfl

/-- The greatest count has a property that the greater of two numbers has just if both have
it, if all counts have it. -/
theorem exists_greatest_iff {P : Nat → Prop} (hzero : P 0)
    (hmax : ∀ a b, P (max a b) ↔ P a ∧ P b) {counts : List (Except Overflow Nat)} :
    (∃ k, greatest counts = .ok k ∧ P k) ↔ ∀ count ∈ counts, ∃ k, count = .ok k ∧ P k := by
  induction counts with
  | nil => simp [greatest, hzero]
  | cons count rest ih =>
    rw [List.forall_mem_cons, ← ih]
    change (∃ k, (do return max (← count) (← greatest rest)) = .ok k ∧ P k) ↔ _
    cases count with
    | error e => simp [bind, Except.bind]
    | ok a =>
      cases greatest rest with
      | error e => simp [bind, Except.bind]
      | ok b => simp [bind, Except.bind, pure, Except.pure, hmax]

/-- Neither order nor repetition of the counts matters. -/
theorem greatest_congr {counts counts' : List (Except Overflow Nat)}
    (h : ∀ count, count ∈ counts ↔ count ∈ counts') : greatest counts = greatest counts' := by
  have hbound : ∀ n, (∃ k, greatest counts = .ok k ∧ k ≤ n) ↔
      ∃ k, greatest counts' = .ok k ∧ k ≤ n := by
    intro n
    rw [exists_greatest_iff n.zero_le fun _ _ => Nat.max_le,
      exists_greatest_iff n.zero_le fun _ _ => Nat.max_le]
    simp only [h]
  cases hleft : greatest counts with
  | error e =>
    cases hright : greatest counts' with
    | error e' => rfl
    | ok b => simpa [hleft] using (hbound b).mpr ⟨b, hright, le_rfl⟩
  | ok a =>
    obtain ⟨b, hb, hba⟩ := (hbound a).mp ⟨a, hleft, le_rfl⟩
    obtain ⟨a', ha', hab⟩ := (hbound b).mpr ⟨b, hb, le_rfl⟩
    obtain rfl := Except.ok.inj (hleft.symm.trans ha')
    rw [hb, le_antisymm hab hba]

theorem entriesDepthIn_of_forall {entries : List (String × Matcher α)}
    (h : ∀ key child, (key, child) ∈ entries → child.depthIn word = .ok child.depth) :
    entriesDepthIn word entries = .ok (entriesDepth entries) := by
  induction entries with
  | nil => rfl
  | cons entry rest ih =>
    obtain ⟨key, child⟩ := entry
    rw [entriesDepthIn, h key child List.mem_cons_self,
      ih fun key child hmem => h key child (List.mem_cons_of_mem _ hmem)]
    rfl

theorem membersDepthIn_of_forall {members : List (Matcher α)}
    (h : ∀ m ∈ members, m.depthIn word = .ok m.depth) :
    membersDepthIn word members = .ok (membersDepth members) := by
  induction members with
  | nil => rfl
  | cons member rest ih =>
    obtain ⟨hmember, hrest⟩ := List.forall_mem_cons.mp h
    rw [membersDepthIn, hmember, ih hrest]
    rfl

/-- What is in the word is counted exactly. -/
theorem depthIn_of_lt {m : Matcher α} (h : m.depth < word.size) :
    m.depthIn word = .ok m.depth := by
  -- A matcher is at least as deep as what stands below it, so all of that is in the word.
  induction m using induction_nodes with
  | literal text depth child ih => rfl
  | dispatch entries ih =>
    rw [depth] at h ⊢
    have hentries : entriesDepthIn word entries = .ok (entriesDepth entries) := by
      refine entriesDepthIn_of_forall fun key child hmem => ih key child hmem ?_
      have hchild : child.depth ≤ entriesDepth entries := entriesDepth_le_iff.mp le_rfl _ hmem
      omega
    rw [depthIn, hentries]
    exact Word.next_of_lt h
  | wild name child ih =>
    rw [depth] at h ⊢
    rw [depthIn, ih (by omega)]
    exact Word.next_of_lt h
  | catchAll name payload => rfl
  | leaf payload => rfl
  | choice members ih =>
    rw [depth] at h ⊢
    rw [depthIn]
    refine membersDepthIn_of_forall fun m hm => ih m hm ?_
    have hmember : m.depth ≤ membersDepth members := membersDepth_le_iff.mp le_rfl m hm
    omega

/-- An unchecked count does not stop. -/
theorem exists_depthIn_of_unchecked (h : word.checked = false) (m : Matcher α) :
    ∃ n, m.depthIn word = .ok n := by
  have hgreatest : ∀ counts : List (Except Overflow Nat),
      (∀ count ∈ counts, ∃ k, count = .ok k) → ∃ k, greatest counts = .ok k := by
    intro counts hcounts
    obtain ⟨k, hk, -⟩ := (exists_greatest_iff (P := fun _ => True) trivial (by simp)).mpr
      fun count hcount => (hcounts count hcount).imp fun _ h => ⟨h, trivial⟩
    exact ⟨k, hk⟩
  induction m using induction_nodes with
  | literal text depth child ih => exact ⟨depth, rfl⟩
  | dispatch entries ih =>
    obtain ⟨n, hn⟩ := hgreatest (entries.map fun entry => entry.2.depthIn word)
      (List.forall_mem_map.mpr fun entry hentry => ih entry.1 entry.2 hentry)
    rw [depthIn, entriesDepthIn_eq, hn]
    exact Word.exists_next_of_unchecked h n
  | wild name child ih =>
    obtain ⟨n, hn⟩ := ih
    rw [depthIn, hn]
    exact Word.exists_next_of_unchecked h n
  | catchAll name payload => exact ⟨1, rfl⟩
  | leaf payload => exact ⟨1, rfl⟩
  | choice members ih =>
    rw [depthIn, membersDepthIn_eq]
    exact hgreatest _ (List.forall_mem_map.mpr ih)

/-- Just a checked count that leaves the word stops. -/
theorem returns_depthIn (word : Word) (m : Matcher α) :
    word.Returns m.depth (m.depthIn word) fun n => m.depth < word.size → n = m.depth := by
  refine Word.returns_of (fun h => exists_depthIn_of_unchecked h m)
    (fun h => ⟨m.depth, depthIn_of_lt h⟩) ?_
  intro n hn h
  rw [depthIn_of_lt h] at hn
  exact (Except.ok.inj hn).symm

/-- Matchers that are counted alike in every word are equally deep: some word has both
depths. -/
theorem depth_eq_of_depthIn {β : Type v} {m : Matcher α} {m' : Matcher β}
    (h : ∀ word, m.depthIn word = m'.depthIn word) : m.depth = m'.depth := by
  let word : Word := ⟨m.depth + m'.depth, true⟩
  have hsize : m.depth + m'.depth < word.size := Nat.lt_two_pow_self
  have hm : m.depthIn word = .ok m.depth := depthIn_of_lt (by omega)
  have hm' : m'.depthIn word = .ok m'.depth := depthIn_of_lt (by omega)
  exact Except.ok.inj (hm.symm.trans ((h word).trans hm'))

/-! ### Ranks -/

theorem rankIn_of_lt {m : Matcher α} (h : m.depth < word.size) :
    m.rankIn word = .ok m.rank := by
  rw [rankIn, depthIn_of_lt h]
  rfl

theorem rankIn_eq_error_iff {m : Matcher α} {e : Overflow} :
    m.rankIn word = .error e ↔ m.depthIn word = .error e := by
  rw [rankIn]
  cases m.depthIn word <;> simp [Except.map]

/-! ### Smart constructors -/

theorem prefixedIn_eq (text : String) (m : Matcher α) :
    prefixedIn word text m = ((m.depthIn word).bind word.next).map (folded text · m) := by
  cases m <;> rfl

theorem prefixedIn_eq_ok_iff {text : String} {m m' : Matcher α} :
    prefixedIn word text m = .ok m' ↔
      ∃ n, (m.depthIn word).bind word.next = .ok n ∧ folded text n m = m' := by
  rw [prefixedIn_eq]
  cases (m.depthIn word).bind word.next <;> simp [Except.map]

theorem depthIn_folded (text : String) (depth : Nat) (m : Matcher α) :
    (folded text depth m).depthIn word = .ok depth := by
  cases m <;> rfl

theorem exists_prefixedIn_of_unchecked (h : word.checked = false) (text : String)
    (m : Matcher α) : ∃ m', prefixedIn word text m = .ok m' := by
  obtain ⟨n, hn⟩ := exists_depthIn_of_unchecked h m
  obtain ⟨k, hk⟩ := Word.exists_next_of_unchecked h n
  rw [prefixedIn_eq, hn, Except.bind, hk]
  exact ⟨_, rfl⟩

theorem prefixedIn_of_lt {text : String} {m : Matcher α} (h : m.depth + 1 < word.size) :
    prefixedIn word text m = .ok (prefixed text m) := by
  rw [prefixedIn_eq, depthIn_of_lt (by omega), Except.bind, Word.next_of_lt h, prefixed_eq_folded]
  rfl

theorem rankedIn_cons (m : Matcher α) (rest : List (Matcher α)) :
    rankedIn word (m :: rest) = (m.rankIn word).bind fun r =>
      (rankedIn word rest).map ((r, m) :: ·) := by
  rw [rankedIn, List.mapM_cons]
  change Except.bind _ _ = _
  cases m.rankIn word with
  | error e => rfl
  | ok r =>
    change Except.bind (rankedIn word rest) _ = _
    cases rankedIn word rest <;> rfl

theorem rankedIn_eq_ok {rank : Matcher α → Rank} {members : List (Matcher α)}
    (h : ∀ m ∈ members, m.rankIn word = .ok (rank m)) :
    rankedIn word members = .ok (members.map fun m => (rank m, m)) := by
  induction members with
  | nil => rfl
  | cons m rest ih =>
    obtain ⟨hm, hrest⟩ := List.forall_mem_cons.mp h
    rw [rankedIn_cons, hm, ih hrest]
    rfl

/-- Ranks cannot be counted just if the count of some depth stops. -/
theorem rankedIn_eq_error_iff {members : List (Matcher α)} {e : Overflow} :
    rankedIn word members = .error e ↔ ∃ m ∈ members, m.depthIn word = .error e := by
  induction members with
  | nil => simp [rankedIn, pure, Except.pure]
  | cons m rest ih =>
    rw [rankedIn_cons, List.exists_mem_cons_iff, ← ih, ← rankIn_eq_error_iff]
    cases m.rankIn word with
    | error e' => simp [Except.bind]
    | ok r => cases rankedIn word rest <;> simp [Except.bind, Except.map]

theorem alternativesIn_cons_cons (m m' : Matcher α) (rest : List (Matcher α)) :
    alternativesIn word (m :: m' :: rest) =
      (rankedIn word (m :: m' :: rest)).map fun ranked =>
        choice ((Rank.sortBy Prod.fst ranked).map Prod.snd) :=
  rfl

/-- Alternatives are tried in turn, in the order of the ranks that are counted. There is
nothing to count for a single one. -/
theorem alternativesIn_eq_ok {rank : Matcher α → Rank} {members : List (Matcher α)}
    (h : 2 ≤ members.length → ∀ m ∈ members, m.rankIn word = .ok (rank m)) :
    alternativesIn word members = .ok (inTurn (Rank.sortBy rank members)) := by
  match members with
  | [] => rfl
  | [m] => rfl
  | m :: m' :: rest =>
    have hlength := (Rank.sortBy_perm rank (m :: m' :: rest)).length_eq
    have hpairs : (Rank.sortBy rank (m :: m' :: rest)).map (fun m => (rank m, m)) =
        Rank.sortBy Prod.fst ((m :: m' :: rest).map fun m => (rank m, m)) := by
      apply Rank.map_sortBy
      intro m
      rfl
    rw [alternativesIn_cons_cons, rankedIn_eq_ok (h (by simp)), Except.map, ← hpairs,
      List.map_map, inTurn_of_two_le (by rw [hlength]; simp)]
    exact congrArg (Except.ok ∘ choice) (List.map_id _)

/-- Alternatives cannot be put in order just if there are two or more and the count of one of
their depths stops. -/
theorem alternativesIn_eq_error_iff {members : List (Matcher α)} {e : Overflow} :
    alternativesIn word members = .error e ↔
      2 ≤ members.length ∧ ∃ m ∈ members, m.depthIn word = .error e := by
  match members with
  | [] => simp [alternativesIn]
  | [m] => simp [alternativesIn]
  | m :: m' :: rest =>
    rw [← rankedIn_eq_error_iff, alternativesIn_cons_cons]
    cases rankedIn word (m :: m' :: rest) <;> simp [Except.map]

theorem alternativesIn_of_lt {members : List (Matcher α)}
    (h : ∀ m ∈ members, m.depth < word.size) :
    alternativesIn word members = .ok (alternatives members) := by
  rw [alternativesIn_eq_ok fun _ m hm => rankIn_of_lt (h m hm), alternatives_eq_inTurn]

end Matcher

end PathRouting
