import PathRouting.Proofs.Json.Acceptance
import PathRouting.Proofs.Policy.Reading

/-!
# Nothing but a policy document is read

A text that is read to a policy is a document of the grammar, and its members describe this
policy. Every other text is refused: one that gives a member twice at the key of the second
time, one that goes on behind a document at what follows it.

The draft keeps the account again. A member that is read is written in the text and the draft
takes it; and since a draft holds each value at most once, so do the members of a text that is
read to its end.

## Main results

* `Policy.Draft.exists_of_readMembers` — members that are read are written in the text
* `Policy.Draft.readMembers_crowded` — members of which the draft has one already
* `Policy.exists_of_readDocument` — a text that is read is a document
* `Policy.ofJson_eq_ok_iff` — the texts that are read, and how the others are refused
-/

namespace PathRouting

theorem OnDuplicate.name_of_ofName? {name : String} {choice : OnDuplicate}
    (h : ofName? name = some choice) : choice.name = name := by
  have hname := List.find?_some h
  simpa using hname

namespace Policy

open Json

variable {text rest : List Char}

/-! ### Values -/

theorem exists_of_readName {choice : OnDuplicate} (h : readName text = .ok (choice, rest)) :
    ∃ raw, Spells choice.name.toList raw ∧ text = raw ++ '"' :: rest := by
  obtain ⟨⟨name, left⟩, hread, h⟩ := bind_eq_ok_iff.mp h
  dsimp only at h
  split at h
  · rename_i found hname
    obtain ⟨rfl, rfl⟩ : found = choice ∧ left = rest := by simpa using h
    rw [OnDuplicate.name_of_ofName? hname, String.toList_ofList]
    exact exists_of_readString hread
  · simp at h

theorem exists_of_readNull (h : readNull text = .ok rest) :
    ∃ blanks, IsBlanks blanks ∧ text = blanks ++ (['n', 'u', 'l', 'l'] ++ rest) := by
  unfold readNull at h
  split at h
  · simp at h
  rename_i c left hblank
  split at h
  · rename_i hc
    obtain ⟨blanks, hblanks, rfl⟩ := exists_of_skipBlanks hblank
    refine ⟨blanks, hblanks, ?_⟩
    rw [hc, eq_append_of_readWord h]
    rfl
  · exact absurd h unexpected_ne_ok

theorem exists_of_readNamed {choice : OnDuplicate} (h : readNamed text = .ok (choice, rest)) :
    ∃ lead after, IsKey (Spells choice.name.toList) lead ∧ IsBlanks after ∧
      text = lead ++ (['n', 'u', 'l', 'l'] ++ (after ++ '\x7d' :: rest)) := by
  unfold readNamed at h
  split at h
  · simp at h
  rename_i c left hblank
  split at h
  · rename_i hc
    obtain ⟨⟨found, rest₁⟩, hname, h⟩ := bind_eq_ok_iff.mp h
    obtain ⟨rest₂, hcolon, h⟩ := bind_eq_ok_iff.mp h
    obtain ⟨rest₃, hnull, h⟩ := bind_eq_ok_iff.mp h
    split at h
    · simp at h
    rename_i d after hclose
    split at h
    · rename_i hd
      obtain ⟨rfl, rfl⟩ : found = choice ∧ after = rest := by simpa using h
      obtain ⟨front, hfront, htext⟩ := exists_of_skipBlanks hblank
      obtain ⟨raw, hraw, hleft⟩ := exists_of_readName hname
      obtain ⟨back, hback, hrest₁⟩ := exists_of_readColon hcolon
      obtain ⟨blanks, hblanks, hrest₂⟩ := exists_of_readNull hnull
      obtain ⟨after, hafter, hrest₃⟩ := exists_of_skipBlanks hclose
      refine ⟨_, after, .intro hfront hraw hback hblanks, hafter, ?_⟩
      rw [htext, hc, hleft, hrest₁, hrest₂, hrest₃, hd]
      simp
    · simp at h
  split at h <;> simp at h

theorem exists_of_readChoice {choice : OnDuplicate} (h : readChoice text = .ok (choice, rest)) :
    ∃ blanks value, IsBlanks blanks ∧ IsChoice choice value ∧
      text = blanks ++ (value ++ rest) := by
  unfold readChoice at h
  split at h
  · simp at h
  rename_i c left hblank
  obtain ⟨blanks, hblanks, rfl⟩ := exists_of_skipBlanks hblank
  split at h
  · rename_i hc
    obtain ⟨raw, hraw, rfl⟩ := exists_of_readName h
    exact ⟨blanks, _, hblanks, .name hraw, by simp [hc]⟩
  split at h
  · rename_i hc
    obtain ⟨lead, after, hlead, hafter, rfl⟩ := exists_of_readNamed h
    exact ⟨blanks, _, hblanks, .object hlead hafter, by simp [hc]⟩
  · simp at h

theorem exists_of_readBool {value : Bool} (h : readBool text = .ok (value, rest)) :
    ∃ blanks word, IsBlanks blanks ∧ (Member.strictCatchAll value).IsText word ∧
      text = blanks ++ (word ++ rest) := by
  unfold readBool at h
  split at h
  · simp at h
  rename_i c left hblank
  obtain ⟨blanks, hblanks, rfl⟩ := exists_of_skipBlanks hblank
  split at h
  · rename_i hc
    obtain ⟨after, hword, h⟩ := bind_eq_ok_iff.mp h
    obtain ⟨rfl, rfl⟩ : true = value ∧ after = rest := by simpa using h
    exact ⟨blanks, _, hblanks, rfl, by rw [hc, eq_append_of_readWord hword]; rfl⟩
  split at h
  · rename_i hc
    obtain ⟨after, hword, h⟩ := bind_eq_ok_iff.mp h
    obtain ⟨rfl, rfl⟩ : false = value ∧ after = rest := by simpa using h
    exact ⟨blanks, _, hblanks, rfl, by rw [hc, eq_append_of_readWord hword]; rfl⟩
  · exact absurd h unexpected_ne_ok

/-! ### Members -/

namespace Draft

variable {draft draft' : Draft} {member : Member} {members : List Member}

/-- What is read behind a key is a colon and the value of a member with this key, which the
draft takes. -/
theorem exists_of_readMember {key : String} (h : draft.readMember key text = .ok (draft', rest)) :
    ∃ member : Member, ∃ back blanks value, member.key = key ∧ draft.Takes [member] draft' ∧
      IsBlanks back ∧ IsBlanks blanks ∧ member.IsText value ∧
      text = back ++ ':' :: (blanks ++ (value ++ rest)) := by
  unfold readMember at h
  split at h
  · rename_i hkey
    split at h
    · exact absurd h duplicate_ne_ok
    rename_i hnone
    obtain ⟨left, hcolon, h⟩ := bind_eq_ok_iff.mp h
    obtain ⟨⟨choice, after⟩, hchoice, h⟩ := bind_eq_ok_iff.mp h
    obtain ⟨rfl, rfl⟩ : _ = draft' ∧ after = rest := by simpa using h
    obtain ⟨back, hback, rfl⟩ := exists_of_readColon hcolon
    obtain ⟨blanks, value, hblanks, hvalue, rfl⟩ := exists_of_readChoice hchoice
    exact ⟨.onDuplicate choice, back, blanks, value, hkey.symm,
      .onDuplicate (Option.not_isSome_iff_eq_none.mp hnone) choice, hback, hblanks, hvalue, rfl⟩
  split at h
  · rename_i hkey
    split at h
    · exact absurd h duplicate_ne_ok
    rename_i hnone
    obtain ⟨left, hcolon, h⟩ := bind_eq_ok_iff.mp h
    obtain ⟨⟨flag, after⟩, hflag, h⟩ := bind_eq_ok_iff.mp h
    obtain ⟨rfl, rfl⟩ : _ = draft' ∧ after = rest := by simpa using h
    obtain ⟨back, hback, rfl⟩ := exists_of_readColon hcolon
    obtain ⟨blanks, value, hblanks, hvalue, rfl⟩ := exists_of_readBool hflag
    exact ⟨.strictCatchAll flag, back, blanks, value, hkey.symm,
      .strictCatchAll (Option.not_isSome_iff_eq_none.mp hnone) flag, hback, hblanks, hvalue, rfl⟩
  · rename_i hchoice hflag
    obtain ⟨left, hcolon, h⟩ := bind_eq_ok_iff.mp h
    obtain ⟨after, hskip, h⟩ := bind_eq_ok_iff.mp h
    obtain ⟨rfl, rfl⟩ : draft = draft' ∧ after = rest := by simpa using h
    obtain ⟨back, hback, rfl⟩ := exists_of_readColon hcolon
    obtain ⟨blanks, value, hblanks, hvalue, rfl⟩ := exists_of_skipValue hskip
    have hkey : key ∉ knownKeys := by simp [knownKeys, hchoice, hflag]
    exact ⟨.other key hkey, back, blanks, value, rfl, .other draft hkey, hback, hblanks, hvalue,
      rfl⟩

/-- A member that is read is written from its key to its value, and the draft takes it. -/
theorem exists_of_readKeyed (h : draft.readKeyed text = .ok (draft', rest)) {front : List Char}
    (hfront : IsBlanks front) :
    ∃ member lead value, draft.Takes [member] draft' ∧
      (∀ after, IsBlanks after → Writes .object member ⟨lead, value, after⟩) ∧
      front ++ '"' :: text = lead ++ (value ++ rest) := by
  obtain ⟨⟨key, left⟩, hkey, hread⟩ := bind_eq_ok_iff.mp h
  obtain ⟨raw, hraw, htext⟩ := exists_of_readString hkey
  obtain ⟨member, back, blanks, value, hmember, htakes, hback, hblanks, hvalue, hleft⟩ :=
    exists_of_readMember hread
  have hspelled : Spells member.key.toList raw := by
    rw [hmember, String.toList_ofList]
    exact hraw
  have hlead : IsKey (Spells member.key.toList)
      (front ++ '"' :: (raw ++ '"' :: (back ++ ':' :: blanks))) :=
    .intro hfront hspelled hback hblanks
  refine ⟨member, _, value, htakes, fun after hafter => ⟨hlead, hvalue, hafter⟩, ?_⟩
  rw [htext, hleft]
  simp

/-- Members that are read are written in the text up to the bracket behind them, and the draft
takes them. -/
theorem exists_of_readMembers (h : draft.readMembers text = .ok (draft', rest))
    {front : List Char} (hfront : IsBlanks front) :
    ∃ members items, items ≠ [] ∧ List.Forall₂ (Writes .object) members items ∧
      draft.Takes members draft' ∧
      front ++ '"' :: text = Item.joined items ++ '\x7d' :: rest := by
  -- The blanks behind a comma belong to the next member.
  fun_induction readMembers draft text generalizing front with
  | case1 => simp at h
  | case2 => simp at h
  | case3 draft text draft₁ left hkeyed after hclose =>
    obtain ⟨rfl, rfl⟩ : draft₁ = draft' ∧ after = rest := by simpa using h
    obtain ⟨member, lead, value, htakes, hwrites, htext⟩ := exists_of_readKeyed hkeyed hfront
    obtain ⟨back, hback, rfl⟩ := exists_of_skipBlanks hclose
    exact ⟨[member], [⟨lead, value, back⟩], by simp, .cons (hwrites back hback) .nil, htakes,
      by rw [htext]; simp [Item.text]⟩
  | case4 => simp at h
  | case5 draft text draft₁ left hkeyed next after hcomma _ hquote ih =>
    obtain ⟨member, lead, value, htakes, hwrites, htext⟩ := exists_of_readKeyed hkeyed hfront
    obtain ⟨back, hback, rfl⟩ := exists_of_skipBlanks hcomma
    obtain ⟨blanks, hblanks, rfl⟩ := exists_of_skipBlanks hquote
    obtain ⟨members, items, hne, hitems, hmore, hleft⟩ := ih h hblanks
    refine ⟨member :: members, ⟨lead, value, back⟩ :: items, by simp,
      .cons (hwrites back hback) hitems, htakes.cons hmore, ?_⟩
    obtain ⟨item, items, rfl⟩ := List.exists_cons_of_ne_nil hne
    rw [htext, hleft]
    simp [Item.text]
  | case6 => simp at h
  | case7 => simp at h
  | case8 => simp at h

/-- Members that a draft takes from the beginning are given once each. -/
theorem Takes.hasRoom (h : Takes {} members draft) : HasRoom {} members := by
  constructor
  · rw [← h.choices]
    cases draft.onDuplicate <;> simp
  · rw [← h.values]
    cases draft.strictCatchAll <;> simp

/-! ### Members that are given twice -/

theorem exists_duplicate {β : Type} (name : String) (text : List Char) :
    ∃ fault, (duplicate name text : Except Fault β) = .error fault ∧
      fault.cause = .duplicateField name := by
  unfold duplicate
  split
  · exact ⟨_, rfl, rfl⟩
  split
  · exact ⟨_, rfl, rfl⟩
  · exact ⟨_, rfl, rfl⟩

/-- A member without room is at fault behind its key. -/
theorem readMember_crowded (h : ¬ draft.HasRoom [member]) (text : List Char) :
    member.key ∈ knownKeys ∧ draft.readMember member.key text = duplicate member.key text := by
  have hsome {β : Type} (found : Option β) : found.toList.length ≤ 1 := by cases found <;> simp
  cases member with
  | onDuplicate choice =>
    cases hfound : draft.onDuplicate with
    | none => exact absurd ⟨by simp [hfound, Member.choices], by simp [Member.values, hsome]⟩ h
    | some _ =>
      refine ⟨List.mem_cons_self, ?_⟩
      rw [readMember, Member.key, if_pos rfl, hfound]
      rfl
  | strictCatchAll flag =>
    cases hfound : draft.strictCatchAll with
    | none => exact absurd ⟨by simp [Member.choices, hsome], by simp [hfound, Member.values]⟩ h
    | some _ =>
      refine ⟨List.mem_cons_of_mem _ List.mem_cons_self, ?_⟩
      rw [readMember, Member.key, if_neg (by decide), if_pos rfl, hfound]
      rfl
  | other key hkey =>
    exact absurd ⟨by simp [Member.choices, hsome], by simp [Member.values, hsome]⟩ h

theorem readKeyed_crowded {item : Item} (h : Writes .object member item)
    (hcrowded : ¬ draft.HasRoom [member]) (rest : List Char) :
    ∃ text fault, skipBlanks (item.text ++ rest) = '"' :: text ∧
      draft.readKeyed text = .error fault ∧
      ∃ name ∈ knownKeys, fault.cause = .duplicateField name := by
  obtain ⟨raw, back, blanks, hraw, -, hskip, -⟩ := IsKey.exists_read h.lead
  obtain ⟨hknown, hread⟩ :=
    readMember_crowded hcrowded (back ++ (item.value ++ (item.after ++ rest)))
  obtain ⟨fault, hfault, hcause⟩ :=
    exists_duplicate (β := Draft × List Char) member.key
      (back ++ (item.value ++ (item.after ++ rest)))
  refine ⟨raw ++ '"' :: (back ++ (item.value ++ (item.after ++ rest))), fault, ?_, ?_,
    member.key, hknown, hcause⟩
  · rw [Item.text, List.append_assoc, List.append_assoc, hskip]
  · rw [readKeyed, readString_append hraw, ok_bind]
    dsimp only
    rw [String.ofList_toList, hread, hfault]

theorem readMembers_fault {fault : Fault} (h : draft.readKeyed text = .error fault) :
    draft.readMembers text = .error fault := by
  rw [readMembers]
  split <;> rename_i hkeyed <;> rw [h] at hkeyed <;> cases hkeyed
  rfl

/-- Members of which one is given twice, or is in the draft already, are at fault. -/
theorem readMembers_crowded {items : List Item}
    (hitems : List.Forall₂ (Writes .object) members items) (hne : items ≠ [])
    (hcrowded : ¬ draft.HasRoom members) (rest : List Char) :
    ∃ text fault, skipBlanks (Item.joined items ++ '\x7d' :: rest) = '"' :: text ∧
      draft.readMembers text = .error fault ∧
      ∃ name ∈ knownKeys, fault.cause = .duplicateField name := by
  induction hitems generalizing draft with
  | nil => exact absurd rfl hne
  | @cons member item members items hitem hitems ih =>
    obtain ⟨left, hleft⟩ := Item.exists_joined_cons item items
    by_cases hroom : draft.HasRoom [member]
    · -- The first member is taken, so those behind it have no room.
      cases hitems with
      | nil => exact absurd hroom hcrowded
      | @cons _ next _ more hnext hmore =>
        obtain ⟨text, draft', hskip, hread, htakes⟩ := readKeyed_text hitem hroom
          (mayFollow_comma (Item.joined (next :: more) ++ '\x7d' :: rest))
        obtain ⟨text', fault, hskip', hread', hcause⟩ :=
          ih (by simp) (fun hmore => hcrowded (htakes.hasRoom_iff.mp hmore))
        rw [Item.joined_cons_cons, List.append_assoc, List.cons_append]
        refine ⟨text, fault, hskip, ?_, hcause⟩
        rw [readMembers_more hread (hitem.after.skipBlanks_append_cons rfl _) hskip', hread']
    · obtain ⟨text, fault, hskip, hread, hcause⟩ :=
        readKeyed_crowded hitem hroom (left ++ '\x7d' :: rest)
      rw [hleft, List.append_assoc]
      exact ⟨text, fault, hskip, readMembers_fault hread, hcause⟩

/-- The members of a list are given once each by their places. -/
theorem HasRoom.of_listed {choice : OnDuplicate} {value : Bool}
    (h : members <+: [.onDuplicate choice, .strictCatchAll value]) : HasRoom {} members := by
  obtain ⟨more, hmore⟩ := h
  have hchoices : Member.choices members ++ Member.choices more = [choice] := by
    rw [Member.choices, Member.choices, ← List.filterMap_append, hmore]
    rfl
  have hvalues : Member.values members ++ Member.values more = [value] := by
    rw [Member.values, Member.values, ← List.filterMap_append, hmore]
    rfl
  have hchoices := congrArg List.length hchoices
  have hvalues := congrArg List.length hvalues
  rw [List.length_append, List.length_singleton] at hchoices hvalues
  constructor
  · exact Nat.le_of_add_right_le (Nat.le_of_eq hchoices)
  · exact Nat.le_of_add_right_le (Nat.le_of_eq hvalues)

end Draft

/-! ### Objects and lists -/

theorem exists_of_readObject {policy : Policy} (h : readObject text = .ok (policy, rest)) :
    ∃ members items inner, List.Forall₂ (Writes .object) members items ∧ Inside items inner ∧
      Draft.HasRoom {} members ∧ policy = Member.policy members ∧
      text = inner ++ '\x7d' :: rest := by
  unfold readObject at h
  split at h
  · simp at h
  rename_i c left hblank
  obtain ⟨blanks, hblanks, rfl⟩ := exists_of_skipBlanks hblank
  split at h
  · rename_i hc
    obtain ⟨rfl, rfl⟩ : ({} : Policy) = policy ∧ left = rest := by simpa using h
    have hroom : Draft.HasRoom {} [] := ⟨Nat.zero_le 1, Nat.zero_le 1⟩
    exact ⟨[], [], blanks, .nil, .blanks hblanks, hroom, rfl, by rw [hc]⟩
  split at h
  · rename_i hc
    obtain ⟨⟨draft, after⟩, hread, h⟩ := bind_eq_ok_iff.mp h
    obtain ⟨rfl, rfl⟩ : draft.policy = policy ∧ after = rest := by simpa using h
    obtain ⟨members, items, hne, hitems, htakes, htext⟩ :=
      Draft.exists_of_readMembers hread hblanks
    exact ⟨members, items, Item.joined items, hitems, .items hne, htakes.hasRoom,
      htakes.policy_eq, by rw [hc, htext]⟩
  · simp at h

theorem exists_of_readListEnd (h : readListEnd text = .ok rest) :
    ∃ after, IsBlanks after ∧ text = after ++ ']' :: rest := by
  unfold readListEnd at h
  split at h
  · simp at h
  rename_i c left hblank
  obtain ⟨after, hafter, rfl⟩ := exists_of_skipBlanks hblank
  split at h
  · rename_i hc
    obtain rfl : left = rest := by simpa using h
    exact ⟨after, hafter, by rw [hc]⟩
  split at h
  · split at h
    · simp at h
    split at h <;> simp at h
  · simp at h

/-- Behind the first value of a list comes its end, or the second value and the end. -/
theorem exists_of_readSecond {choice : OnDuplicate} {policy : Policy}
    (h : readSecond choice text = .ok (policy, rest)) :
    ∃ after, IsBlanks after ∧
      (policy = { onDuplicate := choice } ∧ text = after ++ ']' :: rest ∨
        ∃ value item, Writes .list (.strictCatchAll value) item ∧ policy = ⟨choice, value⟩ ∧
          text = after ++ ',' :: (item.text ++ ']' :: rest)) := by
  unfold readSecond at h
  split at h
  · simp at h
  rename_i c left hblank
  obtain ⟨after, hafter, rfl⟩ := exists_of_skipBlanks hblank
  refine ⟨after, hafter, ?_⟩
  split at h
  · rename_i hc
    obtain ⟨rfl, rfl⟩ : _ = policy ∧ left = rest := by simpa using h
    exact .inl ⟨rfl, by rw [hc]⟩
  split at h
  · rename_i hc
    split at h
    · simp at h
    rename_i d next hnext
    split at h
    · simp at h
    obtain ⟨⟨value, rest₁⟩, hvalue, h⟩ := bind_eq_ok_iff.mp h
    obtain ⟨rest₂, hclose, h⟩ := bind_eq_ok_iff.mp h
    obtain ⟨rfl, rfl⟩ : _ = policy ∧ rest₂ = rest := by simpa using h
    obtain ⟨blanks, hblanks, rfl⟩ := exists_of_skipBlanks hnext
    obtain ⟨more, word, hmore, hword, htext⟩ := exists_of_readBool hvalue
    obtain ⟨back, hback, rfl⟩ := exists_of_readListEnd hclose
    refine .inr ⟨value, ⟨blanks ++ more, word, back⟩, ⟨hblanks.append hmore, hword, hback⟩, rfl, ?_⟩
    rw [hc, htext]
    simp [Item.text]
  · simp at h

theorem exists_of_readList {policy : Policy} (h : readList text = .ok (policy, rest)) :
    ∃ choice value members items inner,
      members <+: [Member.onDuplicate choice, .strictCatchAll value] ∧
      List.Forall₂ (Writes .list) members items ∧ Inside items inner ∧
      policy = Member.policy members ∧ text = inner ++ ']' :: rest := by
  unfold readList at h
  split at h
  · simp at h
  rename_i c left hblank
  obtain ⟨blanks, hblanks, rfl⟩ := exists_of_skipBlanks hblank
  split at h
  · rename_i hc
    obtain ⟨rfl, rfl⟩ : ({} : Policy) = policy ∧ left = rest := by simpa using h
    exact ⟨.overwrite, false, [], [], blanks, List.nil_prefix, .nil, .blanks hblanks, rfl,
      by rw [hc]⟩
  obtain ⟨⟨choice, rest₁⟩, hchoice, h⟩ := bind_eq_ok_iff.mp h
  obtain ⟨front, value, hfront, hvalue, htext⟩ := exists_of_readChoice hchoice
  obtain ⟨after, hafter, hrest₁⟩ := exists_of_readSecond h
  have hfirst : Writes .list (.onDuplicate choice) ⟨blanks ++ front, value, after⟩ :=
    ⟨hblanks.append hfront, hvalue, hafter⟩
  rcases hrest₁ with ⟨rfl, hend⟩ | ⟨flag, item, hitem, rfl, hend⟩
  · refine ⟨choice, false, [.onDuplicate choice], _, _, List.prefix_append [_] [_],
      .cons hfirst .nil, .items (List.cons_ne_nil _ _), rfl, ?_⟩
    rw [htext, hend]
    simp [Item.text]
  · refine ⟨choice, flag, [.onDuplicate choice, .strictCatchAll flag], _, _, List.prefix_rfl,
      .cons hfirst (.cons hitem .nil), .items (List.cons_ne_nil _ _), rfl, ?_⟩
    rw [htext, hend]
    simp [Item.text]

/-! ### Documents -/

variable {members : List Member} {document : List Char}

theorem exists_of_readPolicy {policy : Policy} (h : readPolicy text = .ok (policy, rest)) :
    ∃ members document, IsDocument members document ∧ Draft.HasRoom {} members ∧
      policy = Member.policy members ∧ text = document ++ rest := by
  unfold readPolicy at h
  split at h
  · simp at h
  rename_i c left hblank
  obtain ⟨front, hfront, rfl⟩ := exists_of_skipBlanks hblank
  split at h
  · rename_i hc
    obtain ⟨members, items, inner, hitems, hinside, hroom, hpolicy, rfl⟩ := exists_of_readObject h
    exact ⟨members, _, .object hfront hitems hinside .nil, hroom, hpolicy, by simp [hc]⟩
  split at h
  · rename_i hc
    obtain ⟨choice, value, members, items, inner, hplace, hitems, hinside, hpolicy, rfl⟩ :=
      exists_of_readList h
    exact ⟨members, _, .list hfront hplace hitems hinside .nil, .of_listed hplace, hpolicy,
      by simp [hc]⟩
  · exact absurd h unexpected_ne_ok

/-- There may be more blanks behind a document. -/
theorem IsDocument.append (h : IsDocument members document) {blanks : List Char}
    (hblanks : IsBlanks blanks) : IsDocument members (document ++ blanks) := by
  cases h with
  | object hfront hitems hinside hback =>
    simp only [List.append_assoc, List.cons_append]
    exact .object hfront hitems hinside (hback.append hblanks)
  | list hfront hplace hitems hinside hback =>
    simp only [List.append_assoc, List.cons_append]
    exact .list hfront hplace hitems hinside (hback.append hblanks)

/-- A text that is read is a document with members that are given once each. -/
theorem exists_of_readDocument {policy : Policy} (h : readDocument document = .ok policy) :
    ∃ members, IsDocument members document ∧ Draft.HasRoom {} members ∧
      policy = Member.policy members := by
  obtain ⟨⟨found, left⟩, hread, h⟩ := bind_eq_ok_iff.mp h
  dsimp only at h
  split at h
  · rename_i hblank
    obtain rfl : found = policy := by simpa using h
    obtain ⟨members, front, hfront, hroom, hpolicy, rfl⟩ := exists_of_readPolicy hread
    obtain ⟨blanks, hblanks, rfl⟩ := exists_of_skipBlanks hblank
    rw [List.append_nil]
    exact ⟨members, hfront.append hblanks, hroom, hpolicy⟩
  · simp at h

/-- A document that gives a member twice is refused there. -/
theorem readDocument_crowded (h : IsDocument members document)
    (hcrowded : ¬ Draft.HasRoom {} members) :
    ∃ fault, readDocument document = .error fault ∧
      ∃ name ∈ knownKeys, fault.cause = .duplicateField name := by
  cases h with
  | list _ hplace => exact absurd (.of_listed hplace) hcrowded
  | @object items front inner back hfront hitems hinside hback =>
    cases hinside with
    | blanks =>
      cases hitems
      exact absurd ⟨Nat.zero_le 1, Nat.zero_le 1⟩ hcrowded
    | items hne =>
      obtain ⟨text, fault, hskip, hread, hcause⟩ :=
        Draft.readMembers_crowded hitems hne hcrowded back
      refine ⟨fault, ?_, hcause⟩
      rw [readDocument, readPolicy, hfront.skipBlanks_append_cons rfl]
      dsimp only
      rw [if_pos rfl, readObject, hskip]
      dsimp only
      rw [if_neg (by decide), if_pos rfl, hread]
      rfl

/-- What follows a document is refused, unless it is blank. -/
theorem readDocument_append (h : IsDocument members document) (hroom : Draft.HasRoom {} members)
    {more : List Char} (hmore : ¬ IsBlanks more) :
    ∃ fault, readDocument (document ++ more) = .error fault ∧
      fault.cause = .trailingCharacters := by
  obtain ⟨back, hback, hread⟩ := readPolicy_append h hroom more
  rw [readDocument, hread, ok_bind]
  dsimp only
  rw [hback.skipBlanks_append]
  split
  · rename_i hblank
    obtain ⟨blanks, hblanks, rfl⟩ := exists_of_skipBlanks hblank
    rw [List.append_nil] at hmore
    exact absurd hblanks hmore
  · exact ⟨_, rfl, rfl⟩

theorem ofJson_eq_error {document : String} {fault : Fault}
    (h : readDocument document.toList = .error fault) :
    ofJson document = .error (.custom (fault.toError document.toList)) := by
  rw [ofJson, parse, h]
  rfl

theorem hasRoom_iff : Draft.HasRoom {} members ↔
    (Member.choices members).length ≤ 1 ∧ (Member.values members).length ≤ 1 :=
  ⟨fun h => ⟨h.choices, h.values⟩, fun h => ⟨h.1, h.2⟩⟩

theorem ofJson_eq_ok_iff_exists {document : String} {policy : Policy} :
    ofJson document = .ok policy ↔
      ∃ members, IsDocument members document.toList ∧ Draft.HasRoom {} members ∧
        policy = Member.policy members := by
  constructor
  · intro h
    cases hread : readDocument document.toList with
    | ok found =>
      rw [ofJson, parse, hread] at h
      obtain rfl := Except.ok.inj h
      exact exists_of_readDocument hread
    | error fault =>
      rw [ofJson_eq_error hread] at h
      cases h
  · rintro ⟨members, hdocument, hroom, rfl⟩
    exact ofJson_eq_policy hdocument hroom.choices hroom.values

/-- A text is read to a policy just if it is a document that gives each member at most once and
describes this policy. Every other text is refused, with a failure of custom kind: in particular
a document that gives a member twice, for that member, and whatever goes on behind a text that is
read, at what follows it. So what is left when such a text is cut short is refused as well, unless
only blanks are cut off. -/
theorem ofJson_eq_ok_iff (document : String) :
    (∀ policy, ofJson document = .ok policy ↔
      ∃ members, IsDocument members document.toList ∧ (Member.choices members).length ≤ 1 ∧
        (Member.values members).length ≤ 1 ∧ policy = Member.policy members) ∧
      ((∃ failure, ofJson document = .error failure ∧ failure.kind = .custom) ↔
        ∀ members, IsDocument members document.toList →
          ¬ ((Member.choices members).length ≤ 1 ∧ (Member.values members).length ≤ 1)) ∧
      (∀ members, IsDocument members document.toList →
        ¬ ((Member.choices members).length ≤ 1 ∧ (Member.values members).length ≤ 1) →
        ∃ e, ofJson document = .error (.custom e) ∧
          ∃ name ∈ knownKeys, e.cause = .duplicateField name) ∧
      ∀ policy more, ofJson document = .ok policy → ¬ IsBlanks more.toList →
        ∃ e, ofJson (document ++ more) = .error (.custom e) ∧ e.cause = .trailingCharacters := by
  refine ⟨?_, ?_, ?_, ?_⟩
  · intro policy
    rw [ofJson_eq_ok_iff_exists]
    simp only [hasRoom_iff, and_assoc]
  · constructor
    · rintro ⟨failure, herror, -⟩ members hdocument honce
      have hok := ofJson_eq_ok_iff_exists.mpr ⟨members, hdocument, hasRoom_iff.mpr honce, rfl⟩
      rw [herror] at hok
      cases hok
    · intro hnone
      cases hread : readDocument document.toList with
      | error fault => exact ⟨_, ofJson_eq_error hread, rfl⟩
      | ok policy =>
        obtain ⟨members, hdocument, hroom, -⟩ := exists_of_readDocument hread
        exact absurd (hasRoom_iff.mp hroom) (hnone members hdocument)
  · intro members hdocument htwice
    obtain ⟨fault, hread, hcause⟩ := readDocument_crowded hdocument (hasRoom_iff.not.mpr htwice)
    exact ⟨_, ofJson_eq_error hread, hcause⟩
  · intro policy more hread hmore
    obtain ⟨members, hdocument, hroom, -⟩ := ofJson_eq_ok_iff_exists.mp hread
    obtain ⟨fault, hread, hcause⟩ := readDocument_append hdocument hroom hmore
    rw [← String.toList_append] at hread
    exact ⟨_, ofJson_eq_error hread, hcause⟩

/-- A list that gives the choice is a document, but it must not go on, there is no such list with
a third element, and an object must not give a member again. -/
theorem ofJson_eq_ok_iff_refusals :
    (∃ members, IsDocument members "[\"reject\"]".toList ∧
      Member.policy members = ⟨.reject, false⟩) ∧
      (∃ e, ofJson ("[\"reject\"]" ++ ",") = .error (.custom e) ∧
        e.cause = .trailingCharacters) ∧
      (∀ members, IsDocument members "[\"reject\",true,1]".toList →
        ¬ ((Member.choices members).length ≤ 1 ∧ (Member.values members).length ≤ 1)) ∧
      ∃ e, ofJson "\x7b\"strict_catch_all\":true,\"strict_catch_all\":true\x7d" =
          .error (.custom e) ∧ ∃ name ∈ knownKeys, e.cause = .duplicateField name := by
  have hread : ofJson "[\"reject\"]" = .ok ⟨.reject, false⟩ := by decide +kernel
  have hthird : ofJson "[\"reject\",true,1]" =
      .error (.custom ⟨.trailingCharacters, ⟨1, 16⟩⟩) := by
    decide +kernel
  have hplain : ∀ c ∈ "strict_catch_all".toList, IsPlain c := by
    have hall : "strict_catch_all".toList.all (fun c => decide (IsPlain c)) = true := by decide
    simpa using hall
  have hkey : IsKey (Spells "strict_catch_all".toList) "\"strict_catch_all\":".toList :=
    .intro IsBlanks.nil (Spells.of_isPlain hplain) IsBlanks.nil IsBlanks.nil
  have hwrites : Writes .object (.strictCatchAll true)
      ⟨"\"strict_catch_all\":".toList, "true".toList, []⟩ :=
    ⟨hkey, rfl, IsBlanks.nil⟩
  have htwice := IsDocument.object IsBlanks.nil (.cons hwrites (.cons hwrites .nil))
    (.items (by decide)) IsBlanks.nil
  obtain ⟨members, hdocument, -, -, hpolicy⟩ := ((ofJson_eq_ok_iff _).1 _).mp hread
  exact ⟨⟨members, hdocument, hpolicy.symm⟩,
    (ofJson_eq_ok_iff _).2.2.2 _ "," hread (by decide),
    (ofJson_eq_ok_iff _).2.1.mp ⟨_, hthird, rfl⟩,
    (ofJson_eq_ok_iff "\x7b\"strict_catch_all\":true,\"strict_catch_all\":true\x7d").2.2.1 _
      htwice (by decide)⟩

end Policy

end PathRouting
