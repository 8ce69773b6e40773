import PathRouting.Proofs.Path.Parts
import PathRouting.Proofs.Text.Boundaries

/-!
# Where a part ends

A table takes the bytes up to the next slash and searches for it. A parameter takes the same
bytes, and whether there is a percent sign among them decides how its value is read. Both can be
found in one loop over the bytes ahead, which stops at the slash. Until then the end is that of
the path, and the flag is that of the bytes so far. From a cursor on, the search and the loop
both find the end of the next part: there is a slash, which is a byte of its own.

## Main definitions

* `Matcher.segmentEnd` — the end of a part, by a search for the slash
* `Matcher.scanLoop` — the end of a part and the flag, by one loop

## Main results

* `Matcher.scanLoop_eq` — the loop is the recursion over the bytes ahead
* `Matcher.segmentEnd_eq`, `Matcher.scanLoop_part` — both find the next part
-/

namespace PathRouting

namespace Matcher

open Text

/-- The slash. -/
def slash : UInt8 := 0x2F

/-- The offset of the next slash from another offset on, or that of the end. -/
def segmentEnd (bytes : List UInt8) (i : Nat) : Except SliceFault Nat :=
  (sliceBytes bytes i bytes.length).map fun ahead => i + ahead.findIdx (· == slash)

/-! ### The loop -/

/-- The number of bytes up to the first slash or the end, and whether there is a percent sign
among them. -/
def scanBytes : List UInt8 → Nat × Bool
  | [] => (0, false)
  | b :: rest =>
    if b = slash then (0, false)
    else
      let (n, hasPercent) := scanBytes rest
      (n + 1, b == Percent.sign || hasPercent)

/-- The offset of the next slash from another offset on, or that of the end, and whether there is
a percent sign before it, by one loop over the bytes ahead. -/
def scanLoop (bytes : List UInt8) (i : Nat) : Nat × Bool := Id.run do
  let mut stop := bytes.length
  let mut hasPercent := false
  for (b, j) in (bytes.drop i).zipIdx do
    if b = slash then
      stop := i + j
      break
    if b = Percent.sign then
      hasPercent := true
  return (stop, hasPercent)

/-- One round of the loop. -/
def scanRound (i : Nat) (round : UInt8 × Nat) (found : Nat × Bool) :
    Id (ForInStep (Nat × Bool)) :=
  if round.1 = slash then pure (.done (i + round.2, found.2))
  else if round.1 = Percent.sign then pure (.yield (found.1, true))
  else pure (.yield found)

theorem scanLoop_eq_forIn (bytes : List UInt8) (i : Nat) :
    scanLoop bytes i = forIn (bytes.drop i).zipIdx (bytes.length, false) (scanRound i) := by
  rfl

/-- From every round on, the loop finds the next slash, or it keeps the end, which is as far away
as there are bytes left. It adds the percent signs that it comes to. -/
theorem forIn_scanRound {i j stop : Nat} {rest : List UInt8} (hstop : stop = i + j + rest.length)
    (hasPercent : Bool) :
    forIn (rest.zipIdx j) (stop, hasPercent) (scanRound i) =
      (i + j + (scanBytes rest).1, hasPercent || (scanBytes rest).2) := by
  induction rest generalizing j hasPercent with
  | nil =>
    rw [List.zipIdx_nil, List.forIn_nil, scanBytes, Bool.or_false, hstop]
    rfl
  | cons b rest ih =>
    have hnext : stop = i + (j + 1) + rest.length := by
      rw [hstop, List.length_cons]
      omega
    rw [List.zipIdx_cons, List.forIn_cons, scanRound, scanBytes]
    -- A slash ends the loop, so what it keeps as the end does not count then.
    by_cases hslash : b = slash
    · rw [if_pos hslash, if_pos hslash, Bool.or_false]
      rfl
    rw [if_neg hslash, if_neg hslash]
    have hfar : i + (j + 1) + (scanBytes rest).1 = i + j + ((scanBytes rest).1 + 1) := by omega
    by_cases hsign : b = Percent.sign
    · rw [if_pos hsign, pure_bind]
      dsimp only
      rw [ih hnext, hfar, beq_iff_eq.mpr hsign, Bool.true_or, Bool.or_true]
    · rw [if_neg hsign, pure_bind]
      dsimp only
      rw [ih hnext, hfar, beq_eq_false_iff_ne.mpr hsign, Bool.false_or]

/-- The loop is the recursion over the bytes ahead. -/
theorem scanLoop_eq {bytes : List UInt8} {i : Nat} (h : i ≤ bytes.length) :
    scanLoop bytes i = (i + (scanBytes (bytes.drop i)).1, (scanBytes (bytes.drop i)).2) := by
  have hstop : bytes.length = i + 0 + (bytes.drop i).length := by
    rw [List.length_drop]
    omega
  rw [scanLoop_eq_forIn, forIn_scanRound hstop, Bool.false_or, Nat.add_zero]

/-! ### Parts -/

section Scan

variable {front rest : List UInt8} (hfront : slash ∉ front)
  (hrest : rest = [] ∨ ∃ more, rest = slash :: more)

include hfront hrest

theorem findIdx_slash : (front ++ rest).findIdx (· == slash) = front.length := by
  have hnone : front.findIdx (· == slash) = front.length := by
    apply List.findIdx_eq_length_of_false
    intro b hb
    rw [beq_eq_false_iff_ne]
    rintro rfl
    exact hfront hb
  have hzero : rest.findIdx (· == slash) = 0 := by
    rcases hrest with rfl | ⟨more, rfl⟩
    · rfl
    · exact List.findIdx_cons ..
  rw [List.findIdx_append, if_neg (by rw [hnone]; exact Nat.lt_irrefl _), hzero, Nat.zero_add]

theorem scanBytes_append :
    scanBytes (front ++ rest) = (front.length, front.contains Percent.sign) := by
  induction front with
  | nil =>
    rcases hrest with rfl | ⟨more, rfl⟩
    · rfl
    · exact if_pos rfl
  | cons b front ih =>
    rw [List.mem_cons, not_or] at hfront
    rw [List.cons_append, scanBytes, if_neg (Ne.symm hfront.1), ih hfront.2, List.contains_cons,
      Bool.beq_comm]
    rfl

end Scan

section Parts

variable {text : String} {i : Nat} {part : List Char} {more : List (List Char)}

theorem slash_notMem_encode (hpart : '/' ∉ part) : slash ∉ Utf8.encode part := by
  rw [Utf8.mem_encode_iff (c := '/') rfl (by decide)]
  exact hpart

theorem encode_join_eq (more : List (List Char)) :
    Utf8.encode (Path.join more) = [] ∨
      ∃ bytes, Utf8.encode (Path.join more) = slash :: bytes := by
  rcases Path.join_eq_nil_or_slash more with hjoin | ⟨rest, hjoin⟩
  · exact .inl (by rw [hjoin]; rfl)
  · exact .inr ⟨Utf8.encode rest, by rw [hjoin]; rfl⟩

/-- What is ahead of a cursor can be cut out to its end. -/
theorem sliceBytes_ahead {ahead : List Char} (h : Cursor text i ahead) :
    sliceBytes (Utf8.encode text.toList) i text.utf8ByteSize =
      .ok (Utf8.encode ahead) := by
  have hsize := h.size_eq
  rw [hsize, h.sliceBytes_eq (Nat.le_of_eq hsize.symm), Utf8.size, List.take_length]

/-- The next slash stands behind the next part. -/
theorem segmentEnd_eq (hpart : '/' ∉ part) (h : Cursor text i (part ++ Path.join more)) :
    segmentEnd (Utf8.encode text.toList) i = .ok (i + Utf8.size part) := by
  have hlength : (Utf8.encode text.toList).length = text.utf8ByteSize :=
    Utf8.size_toList text
  rw [segmentEnd, hlength, sliceBytes_ahead h, Except.map, Utf8.encode_append,
    findIdx_slash (slash_notMem_encode hpart) (encode_join_eq more), Utf8.size]

/-- One pass over the bytes finds the next part, and whether it has a percent sign. -/
theorem scanBytes_eq (hpart : '/' ∉ part) (more : List (List Char)) :
    scanBytes (Utf8.encode (part ++ Path.join more)) =
      (Utf8.size part, part.contains '%') := by
  have hpercent : (Utf8.encode part).contains Percent.sign = part.contains '%' := by
    rw [Bool.eq_iff_iff, List.contains_iff_mem, List.contains_iff_mem]
    exact Utf8.mem_encode_iff rfl (by decide)
  rw [Utf8.encode_append, scanBytes_append (slash_notMem_encode hpart) (encode_join_eq more),
    hpercent, Utf8.size]

/-- From a cursor on, the loop finds the next part. -/
theorem scanLoop_part (hpart : '/' ∉ part) (h : Cursor text i (part ++ Path.join more)) :
    scanLoop (Utf8.encode text.toList) i = (i + Utf8.size part, part.contains '%') := by
  have hlength : (Utf8.encode text.toList).length = text.utf8ByteSize :=
    Utf8.size_toList text
  have hahead : (Utf8.encode text.toList).drop i = Utf8.encode (part ++ Path.join more) := by
    obtain ⟨before, htext, rfl⟩ := h.exists_front
    rw [htext, Utf8.encode_append, Utf8.size, List.drop_left]
  rw [scanLoop_eq (hlength ▸ h.le_size), hahead, scanBytes_eq hpart]

end Parts

end Matcher

end PathRouting
