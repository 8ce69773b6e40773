import Mathlib.Order.Bounds.Defs
import PathRouting.Proofs.Text.Boundaries
import PathRouting.Proofs.Text.Escaping

/-!
# Prefixes that encode a text

Bytes that are no UTF-8 have a longest prefix that is, and a fault points behind it: what
stands there begins no character, so no text goes on past it. Bytes that are UTF-8 can be cut
at every ASCII byte, since such a byte is never part of a longer sequence.

## Main results

* `Utf8.isGreatest_of_decode_eq_error` — a fault points behind the longest prefix that encodes
  a text
* `Utf8.exists_of_encode_eq_append_cons` — both sides of an ASCII byte encode a text
-/

namespace PathRouting.Text.Utf8

/-! ### The place of a fault -/

/-- Before a fault there is a text, and what begins there is no character. -/
theorem exists_of_decodeFrom_eq_error {index : Nat} {bytes : List UInt8} {fault : Fault}
    (h : decodeFrom index bytes = .error fault) :
    ∃ text first rest, bytes = encode text ++ first :: rest ∧
      front first rest = .broken fault.invalidLength? ∧ fault.validUpTo = index + size text := by
  fun_induction decodeFrom index bytes generalizing fault with
  | case1 => cases h
  | case2 index first rest n hfront =>
    obtain rfl := Except.error.inj h
    exact ⟨[], first, rest, rfl, hfront, rfl⟩
  | case3 index first rest c after hfront ih =>
    cases hafter : decodeFrom (index + c.utf8Size) after with
    | ok text =>
      rw [hafter] at h
      cases h
    | error fault' =>
      rw [hafter] at h
      obtain rfl := Except.error.inj h
      obtain ⟨text, first', rest', rfl, hbroken, hvalid⟩ := ih hafter
      refine ⟨c :: text, first', rest', ?_, hbroken, ?_⟩
      · rw [encodeChar_of_front hfront, encode_cons, List.append_assoc]
      · rw [hvalid, size_cons, Nat.add_assoc]

/-- No text goes on past a place where no character begins. -/
theorem isPrefix_of_broken {text other : List Char} {first : UInt8} {rest : List UInt8}
    {n : Option Nat} (hbroken : front first rest = .broken n)
    (h : encode other <+: encode text ++ first :: rest) : other <+: text := by
  -- Both texts are read character by character, until the longer one has to begin at the place.
  induction other generalizing text with
  | nil => exact List.nil_prefix
  | cons c other ih =>
    obtain ⟨after, hafter⟩ := h
    rw [encode_cons, List.append_assoc] at hafter
    cases text with
    | nil =>
      obtain ⟨first', tail, hbytes, hfront⟩ := front_encodeChar c (encode other ++ after)
      rw [hbytes, encode_nil, List.nil_append, List.cons_append] at hafter
      obtain ⟨rfl, rfl⟩ := List.cons.inj hafter
      rw [hbroken] at hfront
      cases hfront
    | cons d text =>
      rw [encode_cons, List.append_assoc] at hafter
      obtain ⟨rfl, hrest⟩ := encodeChar_append_inj hafter
      rw [List.cons_prefix_cons]
      exact ⟨rfl, ih ⟨after, hrest⟩⟩

theorem size_le_of_prefix {other text : List Char} (h : other <+: text) :
    size other ≤ size text := by
  obtain ⟨rest, rfl⟩ := h
  rw [size_append]
  exact Nat.le_add_right _ _

/-- A fault points behind the longest prefix of the bytes that encodes a text. -/
theorem isGreatest_of_decode_eq_error {bytes : List UInt8} {fault : Fault}
    (h : decode bytes = .error fault) :
    IsGreatest {n | ∃ text, encode text <+: bytes ∧ n = (encode text).length}
      fault.validUpTo := by
  obtain ⟨text, first, rest, rfl, hbroken, hvalid⟩ := exists_of_decodeFrom_eq_error h
  rw [Nat.zero_add] at hvalid
  rw [hvalid]
  constructor
  · exact ⟨text, List.prefix_append _ _, rfl⟩
  · rintro _ ⟨other, hother, rfl⟩
    exact size_le_of_prefix (isPrefix_of_broken hbroken hother)

/-! ### ASCII bytes -/

/-- A text can be cut at an ASCII byte: the byte is a character of its own, and a text stands
on either side. -/
theorem exists_of_encode_eq_append_cons {text : List Char} {a b : List UInt8} {x : UInt8}
    (hx : x.toNat < 0x80) (h : encode text = a ++ x :: b) :
    ∃ front c back, text = front ++ c :: back ∧ a = encode front ∧
      String.utf8EncodeChar c = [x] ∧ b = encode back := by
  induction text generalizing a with
  | nil =>
    rw [encode_nil, eq_comm, List.append_eq_nil_iff] at h
    cases h.2
  | cons c text ih =>
    rw [encode_cons, List.append_eq_append_iff] at h
    rcases h with ⟨a', rfl, htext⟩ | ⟨tail, hc, htail⟩
    · -- The byte stands behind the first character.
      obtain ⟨front, d, back, rfl, rfl, hd, rfl⟩ := ih htext
      exact ⟨c :: front, d, back, rfl, rfl, hd, rfl⟩
    · cases tail with
      | nil =>
        rw [List.append_nil] at hc
        obtain ⟨front, d, back, rfl, hfront, hd, rfl⟩ := ih (a := []) htail.symm
        refine ⟨c :: front, d, back, rfl, ?_, hd, rfl⟩
        rw [encode_cons, ← hfront, List.append_nil, hc]
      | cons y tail =>
        -- It is one of the bytes of the first character, which hence is ASCII.
        obtain ⟨rfl, rfl⟩ := List.cons.inj htail
        have hmem : x ∈ String.utf8EncodeChar c := by rw [hc]; simp
        have hval := (mem_encodeChar_iff hx).mp hmem
        have hone : String.utf8EncodeChar c = [x] := by
          rw [encodeChar_of_lt (by omega), hval, UInt8.ofNat_toNat]
        rw [hone] at hc
        obtain ⟨rfl, rfl⟩ : a = [] ∧ tail = [] := by
          cases a with
          | nil => exact ⟨rfl, (List.cons.inj hc).2.symm⟩
          | cons z a => simp at hc
        exact ⟨[], c, text, rfl, rfl, hone, rfl⟩

end PathRouting.Text.Utf8
