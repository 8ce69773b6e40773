import PathRouting.Matcher.Word
import PathRouting.Registry

/-!
# The matcher of a registry

A node of the trie stands for the place after a part of a path, so what follows there is
either nothing or a slash. The children of a node are hence reached through the literal
`"/"`, which is folded into the literal text that follows it.

At a node stand, in this order, a dispatch on the literal children, a matcher for each
parameter and the catch-alls; their ranks decide which is tried first, and this order
decides among equal ranks.

Depths are exact. `Registry.compileIn` counts them in machine words instead, at the same steps.

## Main definitions

* `Branch` — the matchers of a node's children, by kind
* `Registry.compile` — the matcher of a registry
* `Registry.compileLogged` — the same, with its notice
* `Registry.compileIn` — the same, with depths counted in machine words
-/

namespace PathRouting

universe u

variable {α : Type u}

/-- The matchers of a node's children. -/
structure Branch (α : Type u) where
  /-- The literal children, by text. -/
  literals : List (String × Matcher α)
  /-- The parameters. -/
  wilds : List (Matcher α)
  /-- The catch-alls. -/
  catchAlls : List (Matcher α)

namespace Branch

/-- No children. -/
def empty : Branch α := ⟨[], [], []⟩

/-- Adds a child in front of the others, by its payload and the matcher of what lies behind
it. A catch-all has nothing behind it, and a child without patterns is left out. -/
def add (segment : Segment) (payload : Option α) (behind : Option (Matcher α))
    (branch : Branch α) : Branch α :=
  match segment with
  | .literal text =>
    { branch with literals := behind.toList.map (text, ·) ++ branch.literals }
  | .param name =>
    { branch with wilds := behind.toList.map (.wild name ·) ++ branch.wilds }
  | .catchAll name =>
    { branch with catchAlls := payload.toList.map (.catchAll name ·) ++ branch.catchAlls }

/-- The matchers that dispatch on the literal children: one literal needs no table. -/
def dispatchers (branch : Branch α) : List (Matcher α) :=
  match branch.literals with
  | [] => []
  | [(text, child)] => [.prefixed text child]
  | entries => [.table entries]

/-- The matchers that compete for the next part of a path. -/
def candidates (branch : Branch α) : List (Matcher α) :=
  branch.dispatchers ++ branch.wilds ++ branch.catchAlls

/-- The matchers that dispatch on the literal children, with depths counted in a word. -/
def dispatchersIn (word : Word) (branch : Branch α) : Except Overflow (List (Matcher α)) :=
  match branch.literals with
  | [] => .ok []
  | [(text, child)] => (Matcher.prefixedIn word text child).map ([·])
  | entries => .ok [.table entries]

/-- The matchers that compete for the next part of a path, with depths counted in a word. -/
def candidatesIn (word : Word) (branch : Branch α) : Except Overflow (List (Matcher α)) :=
  (branch.dispatchersIn word).map (· ++ branch.wilds ++ branch.catchAlls)

end Branch

/-- The matcher that tries the candidates by rank, if there are any. -/
def Matcher.ofCandidates? : List (Matcher α) → Option (Matcher α)
  | [] => none
  | candidates => some (.alternatives candidates)

/-- The matcher that tries the candidates by counted ranks, if there are any. -/
def Matcher.ofCandidatesIn? (word : Word) :
    List (Matcher α) → Except Overflow (Option (Matcher α))
  | [] => .ok none
  | candidates => (Matcher.alternativesIn word candidates).map some

namespace Trie

mutual

/-- The matcher of a node, or `none` if no pattern ends at it or below it. -/
def matcher? : Trie Segment α → Option (Matcher α)
  | ⟨payload, children⟩ =>
    -- What goes on behind a slash stands before what ends here.
    Matcher.ofCandidates?
      ((Matcher.ofCandidates? (branch children).candidates).toList.map (.prefixed "/")
        ++ payload.toList.map .data)

/-- The matchers of a node's children. -/
def branch : List (Segment × Trie Segment α) → Branch α
  | [] => .empty
  | (segment, child) :: rest => (branch rest).add segment child.payload (matcher? child)

end

mutual

/-- The matcher of a node, with depths counted in a word. -/
def matcherIn? (word : Word) : Trie Segment α → Except Overflow (Option (Matcher α))
  | ⟨payload, children⟩ => do
    let branch ← branchIn word children
    let inner ← Matcher.ofCandidatesIn? word (← branch.candidatesIn word)
    let behind ← inner.toList.mapM (Matcher.prefixedIn word "/")
    Matcher.ofCandidatesIn? word (behind ++ payload.toList.map .data)

/-- The matchers of a node's children, with depths counted in a word. -/
def branchIn (word : Word) : List (Segment × Trie Segment α) → Except Overflow (Branch α)
  | [] => .ok .empty
  | (segment, child) :: rest => do
    return (← branchIn word rest).add segment child.payload (← matcherIn? word child)

end

end Trie

namespace Registry

/-- The matcher of a registry. Without patterns it never matches. -/
def compile (registry : Registry α) : Matcher α :=
  registry.routes.matcher?.getD (.leaf none)

/-- The matcher of a registry, with depths counted in a word. -/
def compileIn (word : Word) (registry : Registry α) : Except Overflow (Matcher α) :=
  (registry.routes.matcherIn? word).map (·.getD (.leaf none))

/-- The matcher of a registry, with what is reported. -/
def compileLogged (registry : Registry α) : Matcher α × List Notice :=
  let m := registry.compile
  (m, [.compiled registry.size m.depth])

end Registry

end PathRouting
