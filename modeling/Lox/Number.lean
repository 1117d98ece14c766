import Lox.Decimal.Layout

/-!
# Numbers in writing

The same double is written in four ways: as a value that a program prints, in the listing of
tokens, in the tree of an expression, and in JSON. They agree on numbers with decimal places, which
get the fewest digits that read back, and differ on whole numbers, zeros and infinities.
-/

set_option autoImplicit false

namespace Lox.Number

/-- Writes a minus sign before a negative number. -/
def signed (negative : Bool) (text : String) : String :=
  if negative then "-" ++ text else text

/-- The fewest digits that read back, in positional notation. -/
def plain (x : Float) : String :=
  match Binary64.ofFloat x with
  | .nan => "NaN"
  | .infinity negative => signed negative "inf"
  | .finite negative m q =>
    if m = 0 then signed negative "0"
    else signed negative (Decimal.shortest .up m q).positional

/-- The form in which a program prints a number: whole numbers have all their digits and no point,
and zero has no sign. -/
def printed (x : Float) : String :=
  match Binary64.ofFloat x with
  | .nan => "NaN"
  | .infinity negative => signed negative "Infinity"
  | .finite negative m q =>
    match Binary64.whole? m q with
    | some 0 => "0"
    | some n => signed negative (toString n)
    | none => plain x

/-- The form in which a program prints a number, in the pieces that are written one after another. A
minus sign is a piece of its own. -/
def parts (x : Float) : List String :=
  let signed (negative : Bool) (pieces : List String) :=
    if negative then "-" :: pieces else pieces
  match Binary64.ofFloat x with
  | .nan => ["NaN"]
  | .infinity negative => signed negative ["Infinity"]
  | .finite negative m q =>
    match Binary64.whole? m q with
    | some 0 => ["0"]
    | some n => signed negative [toString n]
    | none => signed negative (Decimal.shortest .up m q).pieces

/-- The form in a listing of tokens: whole numbers below `10 ^ 15` end in a zero after the
point. -/
def listed (x : Float) : String :=
  match Binary64.ofFloat x with
  | .finite negative m q =>
    match Binary64.whole? m q with
    | some 0 => "0.0"
    | some n => if n < Decimal.tenTo 15 then signed negative (toString n ++ ".0") else plain x
    | none => plain x
  | _ => plain x

/-- The form in the tree of an expression: every whole number ends in a zero after the point and has
all its digits. -/
def inTree (x : Float) : String :=
  match Binary64.ofFloat x with
  | .finite negative m q =>
    match Binary64.whole? m q with
    | some n => signed negative (toString n ++ ".0")
    | none => plain x
  | _ => plain x

/-- The form in JSON, which has no infinities. -/
def json (x : Float) : String :=
  match Binary64.ofFloat x with
  | .finite negative m q =>
    if m = 0 then signed negative "0.0"
    else signed negative (Decimal.shortest .even m q).compact
  | _ => "null"

end Lox.Number
