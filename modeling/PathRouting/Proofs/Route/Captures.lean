import PathRouting.Proofs.Route.Normal

/-!
# Routes and paths

A route matches a path part by part. Literal text meets the same part, a parameter meets a
part that is not empty, and a catch-all at the end takes all parts that are left, one at
least. Without a catch-all there are as many parts as segments.

## Main definitions

* `Route.captures?` — the raw texts that a route captures on the parts of a path, from left
  to right, if it matches them
* `Route.capturesOn?` — the same for a path, which has to begin with a slash
* `Route.Matches` — a route matches a path
-/

namespace PathRouting.Route

/-- What a route captures on the parts of a path, or `none` if it does not match them. -/
def captures? : Route → List (List Char) → Option (List (String × String))
  | [], [] => some []
  | .literal text :: route, part :: parts =>
    if part = text.toList then captures? route parts else none
  | .param name :: route, part :: parts =>
    if part = [] then none
    else (captures? route parts).map ((name, String.ofList part) :: ·)
  | [.catchAll name], part :: parts => some [(name, String.ofList (part ++ Path.join parts))]
  | _, _ => none

/-- What a route captures on a path, or `none` if it does not match the path. -/
def capturesOn? (route : Route) (path : String) : Option (List (String × String)) :=
  match path.toList with
  | '/' :: text => route.captures? (Path.parts text)
  | _ => none

/-- Whether a route matches a path. -/
def Matches (route : Route) (path : String) : Prop :=
  (route.capturesOn? path).isSome

instance (route : Route) (path : String) : Decidable (route.Matches path) :=
  inferInstanceAs (Decidable ((route.capturesOn? path).isSome = true))

example : capturesOn? [.literal "users", .param "id", .catchAll "rest"] "/users/42/a/b" =
    some [("id", "42"), ("rest", "a/b")] := by decide

@[simp] theorem captures?_nil_nil : captures? [] [] = some [] := rfl

@[simp] theorem captures?_nil_cons (part : List Char) (parts : List (List Char)) :
    captures? [] (part :: parts) = none := rfl

@[simp] theorem captures?_cons_nil (segment : Segment) (route : Route) :
    captures? (segment :: route) [] = none := by
  cases segment with
  | literal text => rfl
  | param name => rfl
  | catchAll name => cases route <;> rfl

@[simp] theorem captures?_literal (text : String) (route : Route) (part : List Char)
    (parts : List (List Char)) :
    captures? (.literal text :: route) (part :: parts) =
      if part = text.toList then captures? route parts else none := by
  rw [captures?]

@[simp] theorem captures?_param (name : String) (route : Route) (part : List Char)
    (parts : List (List Char)) :
    captures? (.param name :: route) (part :: parts) =
      if part = [] then none
      else (captures? route parts).map ((name, String.ofList part) :: ·) := by
  rw [captures?]

@[simp] theorem captures?_catchAll (name : String) (part : List Char)
    (parts : List (List Char)) :
    captures? [.catchAll name] (part :: parts) =
      some [(name, String.ofList (part ++ Path.join parts))] := rfl

end PathRouting.Route
