import Mathlib.Data.List.Basic
import PathRouting.Path

/-!
# Parts of a path

A path is the parts that its slashes make. The walk along a path sees the same parts from
the front: what it takes off is the next part, and what remains is the path of the parts
that follow.

## Main results

* `Path.slash_notMem_of_mem_parts` — a part has no slash
* `Path.frontPart_append_join` — the front part of a path is its first part
* `Path.scanPart_eq` — one pass finds the front part and whether it has a percent sign
-/

namespace PathRouting.Path

theorem slash_notMem_of_mem_parts {text part : List Char} (h : part ∈ parts text) :
    '/' ∉ part := by
  induction text generalizing part with
  | nil =>
    obtain rfl : part = [] := by simpa [parts] using h
    simp
  | cons c rest ih =>
    rw [parts] at h
    split at h
    · rcases List.mem_cons.mp h with rfl | h
      · simp
      · exact ih h
    · rename_i hc
      -- A character that is no slash joins the first part of the rest.
      split at h
      · rename_i hnil
        exact absurd hnil (parts_ne_nil rest)
      · rename_i first more hparts
        rw [hparts] at ih
        rcases List.mem_cons.mp h with rfl | h
        · have hfirst := ih List.mem_cons_self
          simp [hfirst, Ne.symm hc]
        · exact ih (List.mem_cons_of_mem _ h)

@[simp] theorem join_nil : join [] = [] := rfl

@[simp] theorem join_cons (part : List Char) (more : List (List Char)) :
    join (part :: more) = '/' :: (part ++ join more) := rfl

/-- A path that is left after a part is at its end or goes on with a slash. -/
theorem join_eq_nil_or_slash (ps : List (List Char)) :
    join ps = [] ∨ ∃ rest, join ps = '/' :: rest := by
  cases ps with
  | nil => exact .inl rfl
  | cons part more => exact .inr ⟨part ++ join more, rfl⟩

theorem frontPart_append_join {part : List Char} (h : '/' ∉ part) (more : List (List Char)) :
    frontPart (part ++ join more) = (part, join more) := by
  have hpart : ∀ c ∈ part, (c != '/') = true := by
    intro c hc
    rw [bne_iff_ne]
    rintro rfl
    exact h hc
  rw [frontPart, List.takeWhile_append_of_pos hpart, List.dropWhile_append_of_pos hpart]
  rcases join_eq_nil_or_slash more with hmore | ⟨rest, hmore⟩ <;> rw [hmore] <;> simp

/-- Every path is its front part and the path of the parts that follow. -/
theorem exists_frontPart_eq (path : List Char) :
    ∃ part more, path = part ++ join more ∧ '/' ∉ part ∧ frontPart path = (part, join more) := by
  have hjoin := join_parts path
  cases hparts : parts path with
  | nil => exact absurd hparts (parts_ne_nil path)
  | cons part more =>
    have hpart : '/' ∉ part := by
      apply slash_notMem_of_mem_parts
      rw [hparts]
      exact List.mem_cons_self
    rw [hparts, join_cons] at hjoin
    obtain rfl := (List.cons.inj hjoin).2
    exact ⟨part, more, rfl, hpart, frontPart_append_join hpart more⟩

theorem scanPart_eq (path : List Char) :
    scanPart path =
      ((frontPart path).1, (frontPart path).2, (frontPart path).1.contains '%') := by
  induction path with
  | nil => rfl
  | cons c rest ih =>
    rw [scanPart]
    split
    · rename_i hc
      subst hc
      rfl
    · rename_i hc
      have hc' : (c != '/') = true := bne_iff_ne.mpr hc
      rw [ih]
      simp only [frontPart, List.takeWhile_cons, List.dropWhile_cons, hc', if_true,
        List.contains_cons]
      rw [Bool.beq_comm]

end PathRouting.Path
