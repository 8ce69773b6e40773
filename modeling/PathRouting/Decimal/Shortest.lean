/-!
# The shortest decimal of a floating-point number

A floating-point number stands for all reals that round to it. Its shortest decimal is the
multiple of the greatest power of ten among them, and of several the one nearest to the
number; of two equally near ones, the even one. All is done in exact arithmetic on natural
numbers.

## Main definitions

* `Binary` — a positive floating-point number in binary, with its neighbours' distance
* `Decimal` — digits and a power of ten
* `Binary.onGrid?` — the nearest multiple of a power of ten that rounds to a number
* `Binary.shortest` — the shortest decimal of a number
-/

namespace PathRouting

/-- Digits and a power of ten: the number `digits * 10 ^ exponent`. -/
structure Decimal where
  /-- The digits, read as one number. -/
  digits : Nat
  /-- The power of ten. -/
  exponent : Int
deriving DecidableEq

/-- A positive number `mantissa * 2 ^ exponent` of a floating-point format. -/
structure Binary where
  /-- The mantissa. -/
  mantissa : Nat
  /-- The power of two. -/
  exponent : Int
  /-- Whether the next smaller number is only half as far away as the next larger one. -/
  narrowBelow : Bool
deriving DecidableEq

namespace Binary

/-- The magnitude of a finite double that is not zero, from the bits of the double. -/
def ofBits (bits : UInt64) : Binary :=
  let fraction := bits.toNat % Nat.pow 2 52
  let power : Nat := bits.toNat / Nat.pow 2 52 % Nat.pow 2 11
  if power = 0 then ⟨fraction, -1074, false⟩
  else ⟨Nat.pow 2 52 + fraction, (power : Int) - 1075, fraction == 0 && power != 1⟩

/-- A multiple of `10 ^ k` that rounds to the number, if there is one: the nearest of them,
and of two equally near ones the even one.

In units of a quarter of the last binary place, the number is `4 * mantissa`, and the reals
that round to it reach half a place up and half a place, or a quarter, down. The ends
belong to them if the mantissa is even. A real `x` in those units is compared with a
multiple `n` of the power of ten by comparing `n * ten` with `x * two`. -/
def onGrid? (b : Binary) (k : Int) : Option Decimal :=
  let unit := b.exponent - 2
  let ten := Nat.pow 10 k.toNat * Nat.pow 2 (-unit).toNat
  let two := Nat.pow 10 (-k).toNat * Nat.pow 2 unit.toNat
  let value := 4 * b.mantissa * two
  let low := (4 * b.mantissa - if b.narrowBelow then 1 else 2) * two
  let high := (4 * b.mantissa + 2) * two
  let rounds (n : Nat) : Bool :=
    if b.mantissa % 2 = 0 then low ≤ n * ten && n * ten ≤ high
    else low < n * ten && n * ten < high
  let below := value / ten
  let above := below + 1
  let down := value - below * ten
  let up := above * ten - value
  match rounds below, rounds above with
  | true, true =>
    if down < up || (down == up && below % 2 == 0) then some ⟨below, k⟩ else some ⟨above, k⟩
  | true, false => some ⟨below, k⟩
  | false, true => some ⟨above, k⟩
  | false, false => none

/-- The shortest decimal of a number: a multiple of the greatest power of ten that has one
among the reals that round to the number. The largest double is below `10 ^ 309`, and even
the smallest ones lie further apart than `10 ^ -324`. -/
def shortest (b : Binary) : Decimal :=
  ((List.range 634).findSome? fun (i : Nat) => b.onGrid? (309 - (i : Int))).getD ⟨0, 0⟩

end Binary

end PathRouting
