import Lox.Decimal.Binary64

/-!
# The shortest decimal that reads back

The reals that round to the double `m * 2 ^ q` form an interval around it, whose ends belong to it
exactly when `m` is even. `shortest` looks on coarser decimal grids first: on each grid only the two
neighbours of the value can lie in the interval and be nearest to it, so the first grid with a hit
gives the fewest digits, and of two hits the nearer one is taken. How an exact tie goes is a choice
of the format that is written.
-/

set_option autoImplicit false

namespace Lox

/-- The number `digits * 10 ^ exponent`. -/
structure Decimal where
  digits : Nat
  exponent : Int
  deriving DecidableEq, Repr

namespace Decimal

/-- A power of ten. -/
def tenTo (n : Nat) : Nat :=
  Nat.pow 10 n

/-- Where an exact tie between two neighbours goes. -/
inductive Tie where
  | up
  | even
  deriving DecidableEq, Repr

/-- The reals that round to one double: from `low / unit` to `high / unit` around `value / unit`. -/
structure Neighbourhood where
  low : Nat
  value : Nat
  high : Nat
  unit : Nat
  /-- Whether both ends round to the double too. -/
  closed : Bool

namespace Neighbourhood

/-- The neighbourhood of `m * 2 ^ q`. Below a power of two the doubles lie twice as dense. -/
def ofDouble (m : Nat) (q : Int) : Neighbourhood :=
  let below := if m = Binary64.leastNormal ∧ -1074 < q then 1 else 2
  let scale := Binary64.twoTo (q - 2).toNat
  { low := (4 * m - below) * scale
    value := 4 * m * scale
    high := (4 * m + 2) * scale
    unit := Binary64.twoTo (2 - q).toNat
    closed := m % 2 == 0 }

/-- Whether the decimal `d * 10 ^ k` lies in the neighbourhood. -/
def contains (near : Neighbourhood) (d : Nat) (k : Int) : Bool :=
  let point := d * tenTo k.toNat * near.unit
  let low := near.low * tenTo (-k).toNat
  let high := near.high * tenTo (-k).toNat
  if near.closed then decide (low ≤ point ∧ point ≤ high)
  else decide (low < point ∧ point < high)

/-- The value counted in steps of `10 ^ k`, rounded down. -/
def steps (near : Neighbourhood) (k : Int) : Nat :=
  near.value * tenTo (-k).toNat / (near.unit * tenTo k.toNat)

/-- The better of the two neighbours of the value on the grid `10 ^ k`, if one reads back. -/
def pick? (near : Neighbourhood) (tie : Tie) (k : Int) : Option Nat :=
  let d := near.steps k
  match near.contains d k, near.contains (d + 1) k with
  | false, false => none
  | true, false => some d
  | false, true => some (d + 1)
  | true, true =>
    let step := near.unit * tenTo k.toNat
    let excess := near.value * tenTo (-k).toNat - d * step
    if 2 * excess < step then some d
    else if step < 2 * excess then some (d + 1)
    else
      match tie with
      | .up => some (d + 1)
      | .even => some (if d % 2 = 0 then d else d + 1)

/-- The exponent of the leading decimal digit of the value. -/
def leading (near : Neighbourhood) : Int :=
  if near.unit ≤ near.value then
    ((Nat.toDigits 10 (near.value / near.unit)).length : Int) - 1
  else
    -((Nat.toDigits 10 ((near.unit - 1) / near.value)).length : Int)

/-- Tries ever finer grids from `10 ^ k` on; the last one is taken as it is. -/
def search (near : Neighbourhood) (tie : Tie) : Nat → Int → Decimal
  | 0, k => ⟨near.steps k, k⟩
  | finer + 1, k =>
    match near.pick? tie k with
    | some d => ⟨d, k⟩
    | none => near.search tie finer (k - 1)

end Neighbourhood

/-- The decimal with the fewest digits that reads back as the double `m * 2 ^ q`, where `0 < m`;
seventeen digits always do. -/
def shortest (tie : Tie) (m : Nat) (q : Int) : Decimal :=
  let near := Neighbourhood.ofDouble m q
  near.search tie 17 near.leading

end Decimal

end Lox
