import Lox.RuntimeError

/-!
# Operators on values

What the operators make of values that are already computed, and for which they are an error.
-/

set_option autoImplicit false

namespace Lox

/-- Applies a prefix operator. -/
def UnaryOp.apply (op : UnaryOp) (right : Value) : Except RuntimeError.Cause Value :=
  match op, right with
  | .not, right => .ok (.bool !right.isTruthy)
  | .negate, .number x => .ok (.number (-x))
  | .negate, right => .error (.operandNotNumber right.type)

/-- Applies an operator that takes two numbers only. -/
def BinaryOp.applyNumbers (op : BinaryOp) (left right : Value) (f : Float → Float → Value) :
    Except RuntimeError.Cause Value :=
  match left, right with
  | .number x, .number y => .ok (f x y)
  | left, right => .error (.operandsNotNumbers op left.type right.type)

/-- Applies an infix operator. Equality takes any values, addition two numbers or two strings, and
all others two numbers. -/
def BinaryOp.apply (op : BinaryOp) (left right : Value) : Except RuntimeError.Cause Value :=
  match op with
  | .equal => .ok (.bool (left.equals right))
  | .notEqual => .ok (.bool !left.equals right)
  | .add =>
    match left, right with
    | .number x, .number y => .ok (.number (x + y))
    | .string s, .string t => .ok (.string (s ++ t))
    | left, right => .error (.operandsNotAddable left.type right.type)
  | .subtract => op.applyNumbers left right fun x y => .number (x - y)
  | .multiply => op.applyNumbers left right fun x y => .number (x * y)
  | .divide => op.applyNumbers left right fun x y => .number (x / y)
  | .less => op.applyNumbers left right fun x y => .bool (x < y)
  | .lessEqual => op.applyNumbers left right fun x y => .bool (x ≤ y)
  | .greater => op.applyNumbers left right fun x y => .bool (y < x)
  | .greaterEqual => op.applyNumbers left right fun x y => .bool (y ≤ x)

/-- Whether a logical operator gives its left operand and leaves the right one unevaluated. -/
def LogicalOp.stopsAt (op : LogicalOp) (left : Value) : Bool :=
  match op with
  | .or => left.isTruthy
  | .and => !left.isTruthy

/-- A clock: the times it shows, in seconds since the epoch, one reading after another, and the
number of readings taken. -/
structure Clock where
  shows : Nat → Float
  taken : Nat

namespace Clock

/-- The clock that shows one time only. -/
def steady (time : Float) : Clock := ⟨fun _ => time, 0⟩

instance : Coe Float Clock := ⟨steady⟩

/-- What the next reading gives. -/
def reading (clock : Clock) : Float := clock.shows clock.taken

/-- The clock after a call of a function of the host, which takes a reading if it asks for the
time. -/
def after (clock : Clock) (f : Native) : Clock :=
  match f.action with
  | .clock => { clock with taken := clock.taken + 1 }
  | .first | .count | .refuse => clock

end Clock

/-- Calls a function of the host, for which the clock gives a reading. -/
def Native.call (f : Native) (reading : Float) (arguments : List Value) :
    Except RuntimeError.Cause Value :=
  match f.action with
  | .clock => .ok (.number reading)
  | .first => .ok (arguments.headD .nil)
  | .count => .ok (.number arguments.length.toFloat)
  | .refuse => .error (.native (String.intercalate "|" (arguments.map Value.printed)))

end Lox
