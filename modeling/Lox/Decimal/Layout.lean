import Lox.Decimal.Shortest

/-!
# Layouts of decimals

A decimal is written in positional or in scientific notation. Zeros at the end of its digits say
nothing, so they are first moved into the exponent.
-/

set_option autoImplicit false

namespace Lox.Decimal

/-- The digits without the zeros at their end, and the exponent of the last digit kept. -/
def significant (d : Decimal) : List Char × Int :=
  let written := Nat.toDigits 10 d.digits
  let kept := (written.reverse.dropWhile (· == '0')).reverse
  (kept, d.exponent + (written.length - kept.length : Nat))

/-- So many zeros. -/
def zeros (n : Nat) : List Char :=
  List.replicate n '0'

/-- Positional notation of a number that has the given digits up to the place `10 ^ e`. -/
def place (digits : List Char) (e : Int) : List Char :=
  if 0 ≤ e then
    digits ++ zeros e.toNat
  else
    let places := (-e).toNat
    if places < digits.length then
      digits.take (digits.length - places) ++ '.' :: digits.drop (digits.length - places)
    else
      '0' :: '.' :: (zeros (places - digits.length) ++ digits)

/-- Positional notation, with a point only where there are decimal places. -/
def positional (d : Decimal) : String :=
  let (digits, e) := d.significant
  String.ofList (place digits e)

/-- So many zeros as they are written, at most 64 at once. -/
def zeroRuns (n : Nat) : List String :=
  let runs := (n - 1) / 64
  List.replicate runs (String.ofList (zeros 64)) ++ [String.ofList (zeros (n - 64 * runs))]

/-- Positional notation in the pieces that are written one after another: digits, the point, and
runs of zeros. -/
def pieces (d : Decimal) : List String :=
  let (digits, e) := d.significant
  if 0 ≤ e then
    String.ofList digits :: zeroRuns e.toNat
  else
    let places := (-e).toNat
    if places < digits.length then
      [String.ofList (digits.take (digits.length - places)), ".",
        String.ofList (digits.drop (digits.length - places))]
    else
      "0." :: zeroRuns (places - digits.length) ++ [String.ofList digits]

/-- Positional notation with a point in any case for numbers from `10 ^ -5` up to below `10 ^ 16`,
scientific notation with a signed exponent outside. -/
def compact (d : Decimal) : String :=
  let (digits, e) := d.significant
  let point := (digits.length : Int) + e
  if 0 ≤ e ∧ point ≤ 16 then
    String.ofList (place digits e) ++ ".0"
  else if -5 < point ∧ point ≤ 16 then
    String.ofList (place digits e)
  else
    let head := digits.take 1
    let tail := digits.drop 1
    let body := if tail.isEmpty then head else head ++ '.' :: tail
    let power := point - 1
    String.ofList body ++ (if 0 ≤ power then "e+" else "e-") ++ toString power.natAbs

end Lox.Decimal
