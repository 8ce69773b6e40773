import PathRouting.Proofs.Route.Depth

/-!
# Precedence among routes

Where several routes match a path, one of them takes it. Two routes are compared at the
place where they first differ. What decides there is how deep the routes go that continue
in the same way, whether or not they match the path; among equally deep ones it is what
stands first, literal text before parameters, and otherwise what was used first. Catch-alls
come last.

The order depends on all routes that are registered, so it is stated for their history.

## Main definitions

* `History.Prefers` — which of two segments comes first where they compete
* `History.Precedes` — which of two routes comes first

## Main results

* `History.Precedes.asymm` — of two routes at most one comes before the other
-/

namespace PathRouting

namespace History

variable {history : History Segment}

/-- Which of two segments comes first where routes differ. -/
inductive Prefers (history : History Segment) : Segment → Segment → Prop
  /-- A catch-all comes after everything else. -/
  | catchAllLast {segment : Segment} {name : String} (h : segment.isCatchAll = false) :
    Prefers history segment (.catchAll name)
  /-- The deeper one comes first. -/
  | deeper {a b : Segment} (ha : a.isCatchAll = false) (hb : b.isCatchAll = false)
    (hlt : history.reach b < history.reach a) : Prefers history a b
  /-- Of equally deep ones, literal text comes before a parameter. -/
  | literalFirst {text name : String}
    (heq : history.reach (.literal text) = history.reach (.param name)) :
    Prefers history (.literal text) (.param name)
  /-- Equally deep parameters come in the order of their first use. -/
  | earlierParam {a b : String} (heq : history.reach (.param a) = history.reach (.param b))
    (hlt : history.firstUse (.param a) < history.firstUse (.param b)) :
    Prefers history (.param a) (.param b)
  /-- Catch-alls come in the order of their first use. -/
  | earlierCatchAll {a b : String}
    (hlt : history.firstUse (.catchAll a) < history.firstUse (.catchAll b)) :
    Prefers history (.catchAll a) (.catchAll b)

/-- Which of two routes comes first: they are compared where they first differ, among the
routes that agree with both up to there. -/
def Precedes : History Segment → Route → Route → Prop
  | history, a :: p, b :: q =>
    if a = b then Precedes (history.behind a) p q else history.Prefers a b
  | _, _, _ => False

theorem precedes_cons_self {segment : Segment} {p q : Route} :
    history.Precedes (segment :: p) (segment :: q) ↔
      Precedes (history.behind segment) p q := by
  rw [Precedes, if_pos rfl]

theorem precedes_cons_of_ne {a b : Segment} (h : a ≠ b) {p q : Route} :
    history.Precedes (a :: p) (b :: q) ↔ history.Prefers a b := by
  rw [Precedes, if_neg h]

theorem Prefers.asymm {a b : Segment} (h : history.Prefers a b) : ¬ history.Prefers b a := by
  intro h'
  cases h with
  | catchAllLast ha =>
    -- The other order would need the first segment to be a catch-all too.
    cases h' with
    | catchAllLast hb => simp [Segment.isCatchAll] at hb
    | deeper hb => simp [Segment.isCatchAll] at hb
    | earlierCatchAll => simp [Segment.isCatchAll] at ha
  | deeper ha hb hlt =>
    cases h' with
    | catchAllLast => simp [Segment.isCatchAll] at ha
    | deeper _ _ hlt' => omega
    | literalFirst heq => omega
    | earlierParam heq => omega
    | earlierCatchAll => simp [Segment.isCatchAll] at ha
  | literalFirst heq =>
    cases h' with
    | deeper _ _ hlt' => omega
  | earlierParam heq hlt =>
    cases h' with
    | deeper _ _ hlt' => omega
    | earlierParam _ hlt' => omega
  | earlierCatchAll hlt =>
    cases h' with
    | catchAllLast hb => simp [Segment.isCatchAll] at hb
    | deeper hb => simp [Segment.isCatchAll] at hb
    | earlierCatchAll hlt' => omega

theorem Precedes.asymm {p q : Route} (h : history.Precedes p q) : ¬ history.Precedes q p := by
  induction p generalizing history q with
  | nil => cases q <;> exact absurd h id
  | cons a p ih =>
    cases q with
    | nil => exact absurd h id
    | cons b q =>
      by_cases hab : a = b
      · subst hab
        rw [precedes_cons_self] at h ⊢
        exact ih h
      · rw [precedes_cons_of_ne hab] at h
        rw [precedes_cons_of_ne (Ne.symm hab)]
        exact h.asymm

end History

end PathRouting
