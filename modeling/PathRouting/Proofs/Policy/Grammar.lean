import Mathlib.Data.List.Forall2
import PathRouting.Policy.Document
import PathRouting.Proofs.Json.Grammar

/-!
# The grammar of policy documents

Which documents give which members, whatever a reader does with them. An object gives its
members under their keys, a list gives them by their place. The key of a member and the name of
a choice may be spelled with escapes, and blanks may stand between all tokens.

## Main definitions

* `Policy.Member` — a member of a policy object
* `Policy.IsChoice` — a way to write a choice
* `Policy.Writes` — a way to write a member
* `Policy.IsDocument` — a document with the given members
* `Policy.Member.choices` / `Policy.Member.values` — what members give
* `Policy.Member.policy` — the policy that members describe
-/

namespace PathRouting.Policy

open Json

/-- The keys of the members that mean something. -/
def knownKeys : List String :=
  ["on_duplicate", "strict_catch_all"]

/-- A member of a policy object. -/
inductive Member where
  /-- The choice what a second registration does. -/
  | onDuplicate (choice : OnDuplicate)
  /-- The truth value whether segments after a catch-all are invalid. -/
  | strictCatchAll (value : Bool)
  /-- A member that means nothing. -/
  | other (key : String) (h : key ∉ knownKeys)

/-- A way to write a choice: its name, or an object whose only member has that name and the
value `null`. -/
inductive IsChoice (choice : OnDuplicate) : List Char → Prop
  | name {raw : List Char} (h : Spells choice.name.toList raw) :
    IsChoice choice ('"' :: (raw ++ ['"']))
  | object {lead after : List Char} (hlead : IsKey (Spells choice.name.toList) lead)
    (hafter : IsBlanks after) :
    IsChoice choice ('\x7b' :: (lead ++ (['n', 'u', 'l', 'l'] ++ (after ++ ['\x7d']))))

namespace Member

/-- The key of a member. -/
def key : Member → String
  | onDuplicate _ => "on_duplicate"
  | strictCatchAll _ => "strict_catch_all"
  | other key _ => key

/-- A way to write the value of a member. -/
def IsText : Member → List Char → Prop
  | onDuplicate choice => IsChoice choice
  | strictCatchAll true => (· = ['t', 'r', 'u', 'e'])
  | strictCatchAll false => (· = ['f', 'a', 'l', 's', 'e'])
  | other _ _ => IsValue

/-- The choices among some members. -/
def choices (members : List Member) : List OnDuplicate :=
  members.filterMap fun
    | onDuplicate choice => some choice
    | _ => none

/-- The truth values among some members. -/
def values (members : List Member) : List Bool :=
  members.filterMap fun
    | strictCatchAll value => some value
    | _ => none

theorem choices_cons (member : Member) (members : List Member) :
    choices (member :: members) = choices [member] ++ choices members :=
  List.filterMap_append (l := [member])

theorem values_cons (member : Member) (members : List Member) :
    values (member :: members) = values [member] ++ values members :=
  List.filterMap_append (l := [member])

/-- The policy that some members describe. What they do not give is lenient. -/
def policy (members : List Member) : Policy :=
  ⟨(choices members).headD .overwrite, (values members).headD false⟩

end Member

/-- A way to write a member in an object or in a list. -/
structure Writes (frame : Frame) (member : Member) (item : Item) : Prop where
  /-- In an object its key comes first. -/
  lead : frame.IsLead (Spells member.key.toList) item.lead
  /-- Its value follows. -/
  value : member.IsText item.value
  /-- Blanks may follow. -/
  after : IsBlanks item.after

/-- A document with the given members: an object that has them in this order, or a list of at
most two values, the choice before the truth value. -/
inductive IsDocument (members : List Member) : List Char → Prop
  | object {items : List Item} {front inner back : List Char} (hfront : IsBlanks front)
    (hitems : List.Forall₂ (Writes .object) members items) (hinside : Inside items inner)
    (hback : IsBlanks back) :
    IsDocument members (front ++ '\x7b' :: (inner ++ '\x7d' :: back))
  | list {choice : OnDuplicate} {value : Bool} {items : List Item}
    {front inner back : List Char} (hfront : IsBlanks front)
    (hplace : members <+: [.onDuplicate choice, .strictCatchAll value])
    (hitems : List.Forall₂ (Writes .list) members items) (hinside : Inside items inner)
    (hback : IsBlanks back) :
    IsDocument members (front ++ '[' :: (inner ++ ']' :: back))

end PathRouting.Policy
