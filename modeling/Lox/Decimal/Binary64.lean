/-!
# The numbers that doubles denote

A finite double is a whole number of units `2 ^ exponent`. Everything that is written about a
number is decided on that exact value, in natural-number arithmetic, and never on a rounded one.
-/

set_option autoImplicit false

namespace Lox

/-- What the 64 bits of a double say. -/
inductive Binary64 where
  | nan
  | infinity (negative : Bool)
  /-- The number `± mantissa * 2 ^ exponent`; both signs of zero have mantissa `0`. -/
  | finite (negative : Bool) (mantissa : Nat) (exponent : Int)
  deriving DecidableEq, Repr

namespace Binary64

/-- A power of two. -/
def twoTo (n : Nat) : Nat :=
  Nat.pow 2 n

/-- The first mantissa that takes all 53 bits: every number but the subnormal ones has one from
here on. -/
def leastNormal : Nat :=
  twoTo 52

/-- Splits the bits into sign, exponent and fraction; a subnormal number has no hidden bit. -/
def ofBits (bits : UInt64) : Binary64 :=
  let word := bits.toNat
  let negative : Bool := word / twoTo 63 == 1
  let exponent : Nat := word / leastNormal % 2048
  let fraction := word % leastNormal
  if exponent = 2047 then
    if fraction = 0 then infinity negative else nan
  else if exponent = 0 then
    finite negative fraction (-1074)
  else
    finite negative (leastNormal + fraction) ((exponent : Int) - 1075)

/-- What a double denotes. -/
def ofFloat (x : Float) : Binary64 :=
  ofBits x.toBits

/-- The natural number `m * 2 ^ q`, where it is one. -/
def whole? (m : Nat) (q : Int) : Option Nat :=
  if 0 ≤ q then
    some (m * twoTo q.toNat)
  else
    let unit := twoTo (-q).toNat
    if m % unit = 0 then some (m / unit) else none

end Binary64

end Lox
