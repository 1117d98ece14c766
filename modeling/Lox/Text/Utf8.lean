/-!
# Reading UTF-8

A sequence of bytes is read as text or refused at its first fault. A fault is placed at the start of
the sequence that is ill-formed, and its length is the number of bytes that can begin no character
together; it has no length where the input ends inside a character that could still be completed.
-/

set_option autoImplicit false

namespace Lox.Utf8

/-- The first fault of an input that is not UTF-8. -/
structure Malformed where
  /-- The number of bytes before the fault. -/
  start : Nat
  /-- The number of bytes at fault, or `none` where the input ends too early. -/
  length : Option Nat
  deriving DecidableEq, Repr

/-- The wording of a fault. -/
def Malformed.message (fault : Malformed) : String :=
  match fault.length with
  | some n => "invalid utf-8 sequence of " ++ toString n ++ " bytes from index "
      ++ toString fault.start
  | none => "incomplete utf-8 byte sequence from index " ++ toString fault.start

/-- Whether a byte can only continue a character. -/
def isContinuation (b : UInt8) : Bool :=
  0x80 ≤ b && b ≤ 0xBF

/-- The number of bytes of a character that begins with `b`, or `0` where none does. -/
def width (b : UInt8) : Nat :=
  if b ≤ 0x7F then 1
  else if 0xC2 ≤ b && b ≤ 0xDF then 2
  else if 0xE0 ≤ b && b ≤ 0xEF then 3
  else if 0xF0 ≤ b && b ≤ 0xF4 then 4
  else 0

/-- Whether `second` may follow `first`: overlong forms, surrogates and numbers beyond the last
code point are ruled out by the second byte alone. -/
def mayFollow (first second : UInt8) : Bool :=
  if first = 0xE0 then 0xA0 ≤ second && second ≤ 0xBF
  else if first = 0xED then 0x80 ≤ second && second ≤ 0x9F
  else if first = 0xF0 then 0x90 ≤ second && second ≤ 0xBF
  else if first = 0xF4 then 0x80 ≤ second && second ≤ 0x8F
  else isContinuation second

/-- The six bits that a continuation byte carries. -/
def payload (b : UInt8) : Nat :=
  b.toNat % 64

/-- What stands at the start of a sequence of bytes. -/
inductive Head where
  | character (c : Char) (rest : List UInt8)
  | fault (length : Option Nat)

/-- Reads one character from a first byte and the bytes after it. -/
def head (first : UInt8) (rest : List UInt8) : Head :=
  match width first with
  | 1 => .character (Char.ofNat first.toNat) rest
  | 2 =>
    match rest with
    | [] => .fault none
    | second :: rest =>
      if mayFollow first second then
        .character (Char.ofNat (first.toNat % 32 * 64 + payload second)) rest
      else .fault (some 1)
  | 3 =>
    match rest with
    | [] => .fault none
    | second :: rest =>
      if mayFollow first second then
        match rest with
        | [] => .fault none
        | third :: rest =>
          if isContinuation third then
            .character (Char.ofNat
              ((first.toNat % 16 * 64 + payload second) * 64 + payload third)) rest
          else .fault (some 2)
      else .fault (some 1)
  | 4 =>
    match rest with
    | [] => .fault none
    | second :: rest =>
      if mayFollow first second then
        match rest with
        | [] => .fault none
        | third :: rest =>
          if isContinuation third then
            match rest with
            | [] => .fault none
            | fourth :: rest =>
              if isContinuation fourth then
                .character (Char.ofNat
                  (((first.toNat % 8 * 64 + payload second) * 64 + payload third) * 64
                    + payload fourth)) rest
              else .fault (some 3)
          else .fault (some 2)
      else .fault (some 1)
  | _ => .fault (some 1)

/-- A character leaves fewer bytes to read. -/
theorem length_lt_of_head {first : UInt8} {bytes rest : List UInt8} {c : Char}
    (h : head first bytes = .character c rest) : rest.length < bytes.length + 1 := by
  unfold head at h
  split at h
  · cases h
    omega
  all_goals
    (repeat' split at h) <;> simp_all <;> omega

/-- Reads on after the characters `done` (the latest first), which took `start` bytes. -/
def decodeAfter (done : List Char) (start : Nat) (bytes : List UInt8) :
    Except Malformed (List Char) :=
  match bytes with
  | [] => .ok done.reverse
  | first :: rest =>
    match _h : head first rest with
    | .character c rest' => decodeAfter (c :: done) (start + width first) rest'
    | .fault length => .error ⟨start, length⟩
termination_by bytes.length
decreasing_by
  simpa using length_lt_of_head _h

/-- Reads bytes as text. -/
def decode (bytes : List UInt8) : Except Malformed String :=
  (decodeAfter [] 0 bytes).map String.ofList

end Lox.Utf8
