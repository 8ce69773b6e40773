import PathRouting.Proofs.Json.Values
import PathRouting.Proofs.Policy.Grammar

/-!
# Reading policy documents

A document whose members are given once each is read to the policy that they describe. The
order of the members, the blanks, the spelling of keys and names and the members that mean
nothing make no difference.

Members are read one after another into a draft, so the proof keeps account of it: a draft
holds what it held before, and what the members read since give.

## Main definitions

* `Policy.Draft.Takes` — a draft after some more members
* `Policy.Draft.HasRoom` — a draft together with some members holds nothing twice

## Main results

* `Policy.Draft.readKeyed_text` — reading one member
* `Policy.Draft.readMembers_joined` — reading members up to the end of the object
* `Policy.ofJson_of_isDocument` — the policy of a document
-/

namespace PathRouting

theorem OnDuplicate.ofName?_name (choice : OnDuplicate) : ofName? choice.name = some choice := by
  cases choice <;> decide

namespace Policy

open Json

variable {rest : List Char}

/-! ### Values -/

theorem readName_append {choice : OnDuplicate} {raw : List Char}
    (h : Spells choice.name.toList raw) (rest : List Char) :
    readName (raw ++ '"' :: rest) = .ok (choice, rest) := by
  rw [readName, readString_append h, ok_bind]
  dsimp only
  rw [String.ofList_toList, OnDuplicate.ofName?_name]

theorem readNull_append {blanks : List Char} (h : IsBlanks blanks) (rest : List Char) :
    readNull (blanks ++ (['n', 'u', 'l', 'l'] ++ rest)) = .ok rest := by
  rw [readNull, List.cons_append, h.skipBlanks_append_cons rfl]
  exact readWord_append ['u', 'l', 'l'] rest

theorem readNamed_append {choice : OnDuplicate} {lead after : List Char}
    (hlead : IsKey (Spells choice.name.toList) lead) (hafter : IsBlanks after)
    (rest : List Char) :
    readNamed (lead ++ (['n', 'u', 'l', 'l'] ++ (after ++ '\x7d' :: rest)))
      = .ok (choice, rest) := by
  obtain ⟨raw, back, blanks, hraw, hblanks, hskip, hcolon⟩ := hlead.exists_read
  rw [readNamed, hskip]
  dsimp only
  rw [if_pos rfl, readName_append hraw, ok_bind]
  dsimp only
  rw [hcolon, ok_bind, readNull_append hblanks, ok_bind, hafter.skipBlanks_append_cons rfl]
  rfl

theorem readChoice_append {choice : OnDuplicate} {blanks text : List Char}
    (hblanks : IsBlanks blanks) (h : IsChoice choice text) (rest : List Char) :
    readChoice (blanks ++ (text ++ rest)) = .ok (choice, rest) := by
  cases h with
  | @name raw hraw =>
    rw [readChoice, List.cons_append, hblanks.skipBlanks_append_cons rfl, List.append_assoc]
    exact readName_append hraw rest
  | @object lead after hlead hafter =>
    rw [readChoice, List.cons_append, hblanks.skipBlanks_append_cons rfl]
    simp only [List.append_assoc, List.singleton_append]
    exact readNamed_append hlead hafter rest

theorem readBool_append {value : Bool} {blanks text : List Char} (hblanks : IsBlanks blanks)
    (h : (Member.strictCatchAll value).IsText text) (rest : List Char) :
    readBool (blanks ++ (text ++ rest)) = .ok (value, rest) := by
  cases value with
  | true =>
    obtain rfl : text = ['t', 'r', 'u', 'e'] := h
    rw [readBool, List.cons_append, hblanks.skipBlanks_append_cons rfl]
    rfl
  | false =>
    obtain rfl : text = ['f', 'a', 'l', 's', 'e'] := h
    rw [readBool, List.cons_append, hblanks.skipBlanks_append_cons rfl]
    rfl

/-! ### Drafts -/

namespace Draft

variable {draft draft' draft'' : Draft} {member : Member} {members : List Member}

/-- The draft after some more members. -/
structure Takes (draft : Draft) (members : List Member) (draft' : Draft) : Prop where
  /-- The choices are the ones before and theirs. -/
  choices : draft'.onDuplicate.toList = draft.onDuplicate.toList ++ Member.choices members
  /-- The truth values are the ones before and theirs. -/
  values : draft'.strictCatchAll.toList = draft.strictCatchAll.toList ++ Member.values members

/-- With some more members the draft has nothing twice. -/
structure HasRoom (draft : Draft) (members : List Member) : Prop where
  /-- There is one choice at most. -/
  choices : (draft.onDuplicate.toList ++ Member.choices members).length ≤ 1
  /-- There is one truth value at most. -/
  values : (draft.strictCatchAll.toList ++ Member.values members).length ≤ 1

/-- Where a value has room, there was none. -/
theorem eq_none_of_length_le {β : Type} {found : Option β} {b : β}
    (h : (found.toList ++ [b]).length ≤ 1) : found = none := by
  cases found with
  | none => rfl
  | some _ => simp at h

theorem Takes.onDuplicate (h : draft.onDuplicate = none) (choice : OnDuplicate) :
    draft.Takes [.onDuplicate choice] { draft with onDuplicate := some choice } := by
  constructor <;> simp [h, Member.choices, Member.values]

theorem Takes.strictCatchAll (h : draft.strictCatchAll = none) (value : Bool) :
    draft.Takes [.strictCatchAll value] { draft with strictCatchAll := some value } := by
  constructor <;> simp [h, Member.choices, Member.values]

theorem Takes.other (draft : Draft) {key : String} (hkey : key ∉ knownKeys) :
    draft.Takes [.other key hkey] draft := by
  constructor <;> simp [Member.choices, Member.values]

theorem Takes.cons (h : draft.Takes [member] draft') (h' : draft'.Takes members draft'') :
    draft.Takes (member :: members) draft'' := by
  constructor
  · rw [h'.choices, h.choices, Member.choices_cons member members, List.append_assoc]
  · rw [h'.values, h.values, Member.values_cons member members, List.append_assoc]

theorem HasRoom.head (h : draft.HasRoom (member :: members)) : draft.HasRoom [member] := by
  obtain ⟨hchoices, hvalues⟩ := h
  rw [Member.choices_cons, ← List.append_assoc, List.length_append] at hchoices
  rw [Member.values_cons, ← List.append_assoc, List.length_append] at hvalues
  exact ⟨by omega, by omega⟩

/-- When a member is taken, the room for those behind it is left, and no other. -/
theorem Takes.hasRoom_iff (htakes : draft.Takes [member] draft') :
    draft'.HasRoom members ↔ draft.HasRoom (member :: members) := by
  have hchoices : draft'.onDuplicate.toList ++ Member.choices members =
      draft.onDuplicate.toList ++ Member.choices (member :: members) := by
    rw [htakes.choices, List.append_assoc, ← Member.choices_cons]
  have hvalues : draft'.strictCatchAll.toList ++ Member.values members =
      draft.strictCatchAll.toList ++ Member.values (member :: members) := by
    rw [htakes.values, List.append_assoc, ← Member.values_cons]
  constructor
  · intro h
    exact ⟨hchoices ▸ h.choices, hvalues ▸ h.values⟩
  · intro h
    exact ⟨hchoices.symm ▸ h.choices, hvalues.symm ▸ h.values⟩

/-! ### Members -/

/-- A member is read from what follows its key. -/
theorem readMember_append {back blanks value : List Char}
    (hcolon : ∀ rest, readColon (back ++ rest) = .ok (blanks ++ rest)) (hblanks : IsBlanks blanks)
    (hvalue : member.IsText value) (hroom : draft.HasRoom [member]) (hrest : MayFollow rest) :
    ∃ draft', draft.readMember member.key (back ++ (value ++ rest)) = .ok (draft', rest) ∧
      draft.Takes [member] draft' := by
  cases member with
  | onDuplicate choice =>
    have hnone : draft.onDuplicate = none := eq_none_of_length_le hroom.choices
    refine ⟨{ draft with onDuplicate := some choice }, ?_, .onDuplicate hnone choice⟩
    rw [readMember, Member.key, if_pos rfl, hnone, if_neg (by simp), hcolon, ok_bind,
      readChoice_append hblanks hvalue]
    rfl
  | strictCatchAll flag =>
    have hnone : draft.strictCatchAll = none := eq_none_of_length_le hroom.values
    refine ⟨{ draft with strictCatchAll := some flag }, ?_, .strictCatchAll hnone flag⟩
    rw [readMember, Member.key, if_neg (by decide), if_pos rfl, hnone, if_neg (by simp), hcolon,
      ok_bind, readBool_append hblanks hvalue]
    rfl
  | other key hkey =>
    simp only [knownKeys, List.mem_cons, List.not_mem_nil, or_false, not_or] at hkey
    refine ⟨draft, ?_, .other draft _⟩
    rw [readMember, Member.key, if_neg hkey.1, if_neg hkey.2, hcolon, ok_bind,
      skipValue_append hblanks hvalue hrest]
    rfl

/-- A member is read up to the blanks behind it. -/
theorem readKeyed_text {item : Item} (h : Writes .object member item)
    (hroom : draft.HasRoom [member]) (hrest : MayFollow rest) :
    ∃ text draft', skipBlanks (item.text ++ rest) = '"' :: text ∧
      draft.readKeyed text = .ok (draft', item.after ++ rest) ∧
      draft.Takes [member] draft' := by
  obtain ⟨raw, back, blanks, hraw, hblanks, hskip, hcolon⟩ := IsKey.exists_read h.lead
  obtain ⟨draft', hread, htakes⟩ :=
    readMember_append hcolon hblanks h.value hroom (h.after.mayFollow_append hrest)
  refine ⟨raw ++ '"' :: (back ++ (item.value ++ (item.after ++ rest))), draft', ?_, ?_, htakes⟩
  · rw [Item.text, List.append_assoc, List.append_assoc, hskip]
  · rw [readKeyed, readString_append hraw, ok_bind]
    dsimp only
    rw [String.ofList_toList, hread]

/-! ### Objects -/

theorem readMembers_last {text left after : List Char}
    (hread : draft.readKeyed text = .ok (draft', left))
    (hclose : skipBlanks left = '\x7d' :: after) :
    draft.readMembers text = .ok (draft', after) := by
  rw [readMembers]
  split <;> rename_i hkeyed <;> rw [hread] at hkeyed <;> cases hkeyed
  split <;> rename_i hblank <;> rw [hclose] at hblank <;> cases hblank
  rw [if_pos rfl]

theorem readMembers_more {text left next after : List Char}
    (hread : draft.readKeyed text = .ok (draft', left)) (hcomma : skipBlanks left = ',' :: next)
    (hquote : skipBlanks next = '"' :: after) :
    draft.readMembers text = draft'.readMembers after := by
  rw [readMembers]
  split <;> rename_i hkeyed <;> rw [hread] at hkeyed <;> cases hkeyed
  split <;> rename_i hblank <;> rw [hcomma] at hblank <;> cases hblank
  rw [if_neg (by decide), if_pos rfl]
  split <;> rename_i hnext <;> rw [hquote] at hnext <;> cases hnext
  rw [if_pos rfl]

/-- Members are read up to the bracket that closes the object. -/
theorem readMembers_joined {items : List Item}
    (hitems : List.Forall₂ (Writes .object) members items) (hne : items ≠ [])
    (hroom : draft.HasRoom members) (rest : List Char) :
    ∃ text draft', skipBlanks (Item.joined items ++ '\x7d' :: rest) = '"' :: text ∧
      draft.readMembers text = .ok (draft', rest) ∧ draft.Takes members draft' := by
  induction hitems generalizing draft with
  | nil => exact absurd rfl hne
  | @cons member item members items hitem hitems ih =>
    cases hitems with
    | nil =>
      obtain ⟨text, draft', hskip, hread, htakes⟩ :=
        readKeyed_text hitem hroom.head (mayFollow_closing .object rest)
      rw [Item.joined_singleton]
      exact ⟨text, draft', hskip,
        readMembers_last hread (hitem.after.skipBlanks_append_cons rfl rest), htakes⟩
    | @cons _ next _ more hnext hmore =>
      -- Behind the comma the other members have room in the draft that has taken this one.
      obtain ⟨text, draft', hskip, hread, htakes⟩ := readKeyed_text hitem hroom.head
        (mayFollow_comma (Item.joined (next :: more) ++ '\x7d' :: rest))
      obtain ⟨text', draft'', hskip', hread', htakes'⟩ :=
        ih (by simp) (htakes.hasRoom_iff.mpr hroom)
      rw [Item.joined_cons_cons, List.append_assoc, List.cons_append]
      refine ⟨text, draft'', hskip, ?_, htakes.cons htakes'⟩
      rw [readMembers_more hread (hitem.after.skipBlanks_append_cons rfl _) hskip', hread']

/-- The account of a draft settles its policy. -/
theorem Takes.policy_eq (h : Takes {} members draft) : draft.policy = Member.policy members := by
  obtain ⟨hchoices, hvalues⟩ := h
  rw [Member.policy, ← List.nil_append (Member.choices members),
    ← List.nil_append (Member.values members)]
  change draft.onDuplicate.toList = [] ++ _ at hchoices
  change draft.strictCatchAll.toList = [] ++ _ at hvalues
  rw [← hchoices, ← hvalues, Draft.policy]
  cases draft.onDuplicate <;> cases draft.strictCatchAll <;> rfl

end Draft

theorem readObject_inside {members : List Member} {items : List Item} {inner : List Char}
    (hitems : List.Forall₂ (Writes .object) members items) (hinside : Inside items inner)
    (hroom : Draft.HasRoom {} members) (rest : List Char) :
    readObject (inner ++ '\x7d' :: rest) = .ok (Member.policy members, rest) := by
  cases hinside with
  | blanks hblanks =>
    cases hitems
    rw [readObject, hblanks.skipBlanks_append_cons rfl]
    rfl
  | items hne =>
    obtain ⟨text, draft, hskip, hread, htakes⟩ :=
      Draft.readMembers_joined hitems hne hroom rest
    rw [readObject, hskip]
    dsimp only
    rw [if_neg (by decide), if_pos rfl, hread, ok_bind, ← htakes.policy_eq]

/-! ### Lists -/

theorem IsChoice.beginsValue {choice : OnDuplicate} {text : List Char} (h : IsChoice choice text) :
    BeginsValue text := by
  cases h with
  | name => exact ⟨'"', _, rfl, by decide⟩
  | object => exact ⟨'\x7b', _, rfl, by decide⟩

theorem beginsValue_of_isText {value : Bool} {text : List Char}
    (h : (Member.strictCatchAll value).IsText text) : BeginsValue text := by
  cases value with
  | true =>
    obtain rfl : text = ['t', 'r', 'u', 'e'] := h
    exact ⟨_, _, rfl, by decide⟩
  | false =>
    obtain rfl : text = ['f', 'a', 'l', 's', 'e'] := h
    exact ⟨_, _, rfl, by decide⟩

theorem readSecond_closing {choice : OnDuplicate} {blanks : List Char} (h : IsBlanks blanks)
    (rest : List Char) :
    readSecond choice (blanks ++ ']' :: rest) = .ok ({ onDuplicate := choice }, rest) := by
  rw [readSecond, h.skipBlanks_append_cons rfl]
  rfl

theorem readSecond_comma {choice : OnDuplicate} {value : Bool} {blanks : List Char} {item : Item}
    (hblanks : IsBlanks blanks) (hitem : Writes .list (.strictCatchAll value) item)
    (rest : List Char) :
    readSecond choice (blanks ++ ',' :: (item.text ++ ']' :: rest))
      = .ok (⟨choice, value⟩, rest) := by
  obtain ⟨hlead, hvalue, hafter⟩ := hitem
  obtain ⟨c, left, hcons, hskip, hc⟩ :=
    ((beginsValue_of_isText hvalue).append (item.after ++ ']' :: rest)).exists_cons
  have hclosing : c ≠ ']' := hc .list
  have hread : readBool (c :: left) = .ok (value, item.after ++ ']' :: rest) := by
    rw [← hcons]
    exact readBool_append IsBlanks.nil hvalue _
  rw [readSecond, hblanks.skipBlanks_append_cons rfl]
  dsimp only
  rw [if_neg (by decide), if_pos rfl, Item.text, List.append_assoc, List.append_assoc,
    IsBlanks.skipBlanks_append hlead, hskip]
  dsimp only
  rw [if_neg hclosing, hread, ok_bind]
  dsimp only
  rw [readListEnd, hafter.skipBlanks_append_cons rfl]
  rfl

theorem readList_text {choice : OnDuplicate} {item : Item}
    (hitem : Writes .list (.onDuplicate choice) item) (rest : List Char) :
    readList (item.text ++ rest) = readSecond choice (item.after ++ rest) := by
  obtain ⟨hlead, hvalue, hafter⟩ := hitem
  obtain ⟨c, left, hcons, hskip, hc⟩ :=
    ((IsChoice.beginsValue hvalue).append (item.after ++ rest)).exists_cons
  have hclosing : c ≠ ']' := hc .list
  have hread : readChoice (c :: left) = .ok (choice, item.after ++ rest) := by
    rw [← hcons]
    exact readChoice_append IsBlanks.nil hvalue _
  rw [readList, Item.text, List.append_assoc, List.append_assoc,
    IsBlanks.skipBlanks_append hlead, hskip]
  dsimp only
  rw [if_neg hclosing, hread, ok_bind]

theorem readList_inside {choice : OnDuplicate} {value : Bool} {members : List Member}
    {items : List Item} {inner : List Char}
    (hplace : members <+: [.onDuplicate choice, .strictCatchAll value])
    (hitems : List.Forall₂ (Writes .list) members items) (hinside : Inside items inner)
    (rest : List Char) :
    readList (inner ++ ']' :: rest) = .ok (Member.policy members, rest) := by
  cases hinside with
  | blanks hblanks =>
    cases hitems
    rw [readList, hblanks.skipBlanks_append_cons rfl]
    rfl
  | items hne =>
    cases hitems with
    | nil => exact absurd rfl hne
    | cons hfirst hitems =>
      obtain ⟨rfl, hafter⟩ := List.cons_prefix_cons.mp hplace
      cases hitems with
      | nil =>
        rw [Item.joined_singleton, readList_text hfirst, readSecond_closing hfirst.after]
        rfl
      | cons hsecond hitems =>
        obtain ⟨rfl, hnone⟩ := List.cons_prefix_cons.mp hafter
        obtain rfl := List.prefix_nil.mp hnone
        cases hitems
        rw [Item.joined_cons_cons, Item.joined_singleton, List.append_assoc, List.cons_append,
          readList_text hfirst, readSecond_comma hfirst.after hsecond]
        rfl

/-! ### Documents -/

/-- The policy of a document, whatever follows it. -/
theorem readPolicy_append {members : List Member} {document : List Char}
    (h : IsDocument members document) (hroom : Draft.HasRoom {} members) (rest : List Char) :
    ∃ back, IsBlanks back ∧
      readPolicy (document ++ rest) = .ok (Member.policy members, back ++ rest) := by
  cases h with
  | @object items front inner back hfront hitems hinside hback =>
    refine ⟨back, hback, ?_⟩
    rw [readPolicy]
    simp only [List.append_assoc, List.cons_append]
    rw [hfront.skipBlanks_append_cons rfl]
    exact readObject_inside hitems hinside hroom (back ++ rest)
  | @list choice value items front inner back hfront hplace hitems hinside hback =>
    refine ⟨back, hback, ?_⟩
    rw [readPolicy]
    simp only [List.append_assoc, List.cons_append]
    rw [hfront.skipBlanks_append_cons rfl]
    exact readList_inside hplace hitems hinside (back ++ rest)

theorem readDocument_isDocument {members : List Member} {document : List Char}
    (h : IsDocument members document) (hroom : Draft.HasRoom {} members) :
    readDocument document = .ok (Member.policy members) := by
  obtain ⟨back, hback, hread⟩ := readPolicy_append h hroom []
  rw [List.append_nil, List.append_nil] at hread
  rw [readDocument, hread, ok_bind]
  dsimp only
  rw [hback.skipBlanks_eq_nil]

theorem ofJson_eq_policy {members : List Member} {document : String}
    (h : IsDocument members document.toList) (hchoices : (Member.choices members).length ≤ 1)
    (hvalues : (Member.values members).length ≤ 1) :
    ofJson document = .ok (Member.policy members) := by
  rw [ofJson, parse, readDocument_isDocument h ⟨hchoices, hvalues⟩]
  rfl

/-- A document that gives each member at most once is read to the policy that its members
describe. So any other document that gives the same is read to the same policy. -/
theorem ofJson_of_isDocument {members : List Member} {document : String}
    (h : IsDocument members document.toList) (hchoices : (Member.choices members).length ≤ 1)
    (hvalues : (Member.values members).length ≤ 1) :
    ofJson document = .ok (Member.policy members) ∧
      ∀ others document', IsDocument others document'.toList →
        Member.choices others = Member.choices members →
        Member.values others = Member.values members →
        ofJson document' = ofJson document := by
  refine ⟨ofJson_eq_policy h hchoices hvalues, fun others document' h' hsame hsame' => ?_⟩
  have hpolicy : Member.policy others = Member.policy members := by
    rw [Member.policy, Member.policy, hsame, hsame']
  rw [ofJson_eq_policy h hchoices hvalues,
    ofJson_eq_policy h' (hsame ▸ hchoices) (hsame' ▸ hvalues), hpolicy]

/-- An object with a member that means nothing, an escaped key and a choice written as an object
gives the same as a list. -/
theorem ofJson_of_isDocument_forms :
    ofJson "\x7b\"x\":[\"]\\ud800\",null] ,\"on_\\u0064uplicate\":\x7b\"reject\":null\x7d\x7d"
        = .ok ⟨.reject, false⟩ ∧
      ofJson "[\"reject\"] " = .ok ⟨.reject, false⟩ := by
  have hbody : IsBody [']', '\\', 'u', 'd', '8', '0', '0'] :=
    .plain (by decide) (.unit (.intro (a := 13) (b := 8) (c := 0) (d := 0) (by decide) (by decide)
      (by decide) (by decide)) .nil)
  have hvalue : IsValue (Frame.list.opening :: (Item.joined
      [⟨[], '"' :: ([']', '\\', 'u', 'd', '8', '0', '0'] ++ ['"']), []⟩,
        ⟨[], ['n', 'u', 'l', 'l'], []⟩] ++ [Frame.list.closing])) := by
    refine .enclosed (.items (by decide)) ?_ ?_ ?_
    · simp [Frame.IsLead, IsBlanks.nil]
    · simp only [List.forall_mem_cons]
      exact ⟨.string hbody, .word (by decide), by simp⟩
    · simp [IsBlanks.nil]
  have hplain : ∀ text : List Char, text.all (fun c => decide (IsPlain c)) = true →
      Spells text text :=
    fun text h => .of_isPlain (by simpa using h)
  have hx : IsKey (Spells ['x']) _ :=
    .intro IsBlanks.nil (hplain _ (by decide)) IsBlanks.nil IsBlanks.nil
  have hother : Writes .object (.other "x" (by decide))
      ⟨"\"x\":".toList, "[\"]\\ud800\",null]".toList, [' ']⟩ :=
    ⟨hx, hvalue, by decide⟩
  have hescaped : Spells "on_duplicate".toList "on_\\u0064uplicate".toList :=
    (hplain ['o', 'n', '_'] (by decide)).append (.escaped (.unit (c := 'd')
      (.intro (a := 0) (b := 0) (c := 6) (d := 4) (by decide) (by decide) (by decide)
        (by decide))) (hplain "uplicate".toList (by decide)))
  have hname : Spells OnDuplicate.reject.name.toList "reject".toList := hplain _ (by decide)
  have hlead := IsKey.intro IsBlanks.nil hname IsBlanks.nil IsBlanks.nil
  have hkey := IsKey.intro IsBlanks.nil hescaped IsBlanks.nil IsBlanks.nil
  have hchoice : IsChoice .reject "\x7b\"reject\":null\x7d".toList :=
    .object hlead IsBlanks.nil
  have hnamed : Writes .object (.onDuplicate .reject)
      ⟨"\"on_\\u0064uplicate\":".toList, "\x7b\"reject\":null\x7d".toList, []⟩ :=
    ⟨hkey, hchoice, by decide⟩
  have hobject := IsDocument.object IsBlanks.nil (.cons hother (.cons hnamed .nil))
    (.items (by decide)) IsBlanks.nil
  have hfirst : Writes .list (.onDuplicate .reject) ⟨[], "\"reject\"".toList, []⟩ :=
    ⟨IsBlanks.nil, .name hname, by decide⟩
  have hblank : IsBlanks [' '] := by decide
  have hlist := IsDocument.list IsBlanks.nil (List.prefix_append [_] [Member.strictCatchAll true])
    (.cons hfirst .nil) (.items (by decide)) hblank
  obtain ⟨hread, hsame⟩ := @ofJson_of_isDocument _
    "\x7b\"x\":[\"]\\ud800\",null] ,\"on_\\u0064uplicate\":\x7b\"reject\":null\x7d\x7d"
    hobject (by decide) (by decide)
  exact ⟨hread, (hsame _ "[\"reject\"] " hlist rfl rfl).trans hread⟩

end Policy

end PathRouting
