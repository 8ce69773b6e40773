/-!
# Reading UTF-8

Bytes are read as text, or the first place where they stop being UTF-8 is reported.

## Main definitions

* `Utf8.encode` — the bytes of a text
* `Utf8.decode` — the text of some bytes, or the first fault
* `Utf8.Fault` — how many bytes were right, and how many are wrong there
-/

namespace PathRouting.Text.Utf8

/-- The bytes of a text. -/
def encode (text : List Char) : List UInt8 :=
  text.flatMap String.utf8EncodeChar

/-- The first place where bytes stop being UTF-8. -/
structure Fault where
  /-- The number of bytes before it, which encode a text. -/
  validUpTo : Nat
  /-- The number of bytes that begin a sequence and then break off, at least one; `none` if
  the input ends inside a sequence that is right so far. -/
  invalidLength? : Option Nat
deriving DecidableEq

/-- The wording of a fault. -/
def Fault.message (fault : Fault) : String :=
  match fault.invalidLength? with
  | some n =>
    "invalid utf-8 sequence of " ++ toString n ++ " bytes from index " ++ toString fault.validUpTo
  | none => "incomplete utf-8 byte sequence from index " ++ toString fault.validUpTo

/-- The number of bytes of the sequence that a first byte announces; zero for a byte that
begins none. -/
def width (lead : UInt8) : Nat :=
  if lead.toNat < 0x80 then 1
  else if lead.toNat < 0xC2 then 0
  else if lead.toNat < 0xE0 then 2
  else if lead.toNat < 0xF0 then 3
  else if lead.toNat < 0xF5 then 4
  else 0

/-- A byte that goes on with a sequence. -/
def isTail (b : UInt8) : Bool :=
  0x80 ≤ b.toNat && b.toNat ≤ 0xBF

/-- Whether a second byte may follow a first one: the ranges after `E0`, `ED`, `F0` and `F4`
are narrower, to leave out long forms, surrogates and what lies beyond the last code
point. -/
def isSecond (lead b : UInt8) : Bool :=
  if lead.toNat = 0xE0 then 0xA0 ≤ b.toNat && b.toNat ≤ 0xBF
  else if lead.toNat = 0xED then 0x80 ≤ b.toNat && b.toNat ≤ 0x9F
  else if lead.toNat = 0xF0 then 0x90 ≤ b.toNat && b.toNat ≤ 0xBF
  else if lead.toNat = 0xF4 then 0x80 ≤ b.toNat && b.toNat ≤ 0x8F
  else isTail b

/-- What stands at the front of some bytes. -/
inductive Front where
  /-- A character, and the bytes after it. -/
  | char (c : Char) (rest : List UInt8)
  /-- No character; the number of bytes is that of `Fault.invalidLength?`. -/
  | broken (invalidLength? : Option Nat)

/-- What stands at the front of bytes that begin with a sequence of two. -/
def front₂ (a : UInt8) : List UInt8 → Front
  | [] => .broken none
  | b :: rest =>
    if isSecond a b then .char (Char.ofNat (a.toNat % 32 * 64 + b.toNat % 64)) rest
    else .broken (some 1)

/-- What stands at the front of bytes that begin with a sequence of three. -/
def front₃ (a : UInt8) : List UInt8 → Front
  | [] => .broken none
  | [b] => if isSecond a b then .broken none else .broken (some 1)
  | b :: c :: rest =>
    if !isSecond a b then .broken (some 1)
    else if !isTail c then .broken (some 2)
    else .char (Char.ofNat (a.toNat % 16 * 4096 + b.toNat % 64 * 64 + c.toNat % 64)) rest

/-- What stands at the front of bytes that begin with a sequence of four. -/
def front₄ (a : UInt8) : List UInt8 → Front
  | [] => .broken none
  | [b] => if isSecond a b then .broken none else .broken (some 1)
  | [b, c] =>
    if !isSecond a b then .broken (some 1)
    else if isTail c then .broken none else .broken (some 2)
  | b :: c :: d :: rest =>
    if !isSecond a b then .broken (some 1)
    else if !isTail c then .broken (some 2)
    else if !isTail d then .broken (some 3)
    else
      .char (Char.ofNat (a.toNat % 8 * 262144 + b.toNat % 64 * 4096 + c.toNat % 64 * 64
        + d.toNat % 64)) rest

/-- What stands at the front of the bytes that begin with `a`. -/
def front (a : UInt8) (rest : List UInt8) : Front :=
  if width a = 1 then .char (Char.ofNat a.toNat) rest
  else if width a = 2 then front₂ a rest
  else if width a = 3 then front₃ a rest
  else if width a = 4 then front₄ a rest
  else .broken (some 1)

/-- A character takes its first byte off at least. -/
theorem front_le {a : UInt8} {rest after : List UInt8} {c : Char}
    (h : front a rest = .char c after) : after.length ≤ rest.length := by
  unfold front at h
  split at h
  · simp_all
  split at h
  · unfold front₂ at h
    repeat' split at h
    all_goals simp_all
  split at h
  · unfold front₃ at h
    repeat' split at h
    all_goals simp_all
    omega
  split at h
  · unfold front₄ at h
    repeat' split at h
    all_goals simp_all
    omega
  · simp at h

/-- The text of the bytes from `index` on. -/
def decodeFrom (index : Nat) (bytes : List UInt8) : Except Fault (List Char) :=
  match bytes with
  | [] => .ok []
  | a :: rest =>
    match _h : front a rest with
    | .broken n => .error ⟨index, n⟩
    | .char c after => (decodeFrom (index + c.utf8Size) after).map (c :: ·)
termination_by bytes.length
decreasing_by exact Nat.lt_succ_of_le (front_le _h)

/-- The text of some bytes, or the first fault in them. -/
def decode (bytes : List UInt8) : Except Fault (List Char) :=
  decodeFrom 0 bytes

end PathRouting.Text.Utf8
