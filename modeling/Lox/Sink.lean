/-!
# Where output goes

A sink takes pieces of text and may refuse any of them, or a flush, depending on how much it was
asked to do before. What was accepted before a refusal stays.
-/

set_option autoImplicit false

namespace Lox

/-- How much a sink was asked to do and has taken so far. -/
structure Sink.Tally where
  /-- The pieces of text offered. -/
  writes : Nat
  /-- The line breaks accepted. -/
  lines : Nat
  /-- The flushes asked for. -/
  flushes : Nat
  deriving DecidableEq, Repr

/-- What a sink refuses, and with which words. -/
structure Sink.Policy where
  refusesWrite : Sink.Tally → Option String
  refusesFlush : Sink.Tally → Option String

/-- A sink: its policy, what it was asked so far, and the pieces it holds, the latest first. -/
structure Sink where
  policy : Sink.Policy
  tally : Sink.Tally
  pieces : List String

namespace Sink

/-- The policy that accepts everything. -/
def Policy.accepting : Policy :=
  ⟨fun _ => none, fun _ => none⟩

/-- The policy that takes no text after `limit` lines, and no flush if `flushFails`. -/
def Policy.limited (limit : Option Nat) (flushFails : Bool) : Policy :=
  { refusesWrite := fun tally =>
      match limit with
      | some n => if n ≤ tally.lines then some "sink full" else none
      | none => none
    refusesFlush := fun _ => if flushFails then some "flush failed" else none }

/-- A sink that holds nothing yet. -/
def new (policy : Policy) : Sink :=
  ⟨policy, ⟨0, 0, 0⟩, []⟩

/-- Offers a piece of text: the refusal, if there is one, and the sink afterwards. There is nothing
to refuse about an empty piece. -/
def write (sink : Sink) (text : String) : Option String × Sink :=
  if text.isEmpty then
    (none, sink)
  else
    let tally := { sink.tally with writes := sink.tally.writes + 1 }
    match sink.policy.refusesWrite sink.tally with
    | some reason => (some reason, { sink with tally := tally })
    | none =>
      let tally := { tally with lines := tally.lines + text.toList.count '\n' }
      (none, { sink with tally := tally, pieces := text :: sink.pieces })

/-- Asks for a flush: the refusal, if there is one, and the sink afterwards. -/
def flush (sink : Sink) : Option String × Sink :=
  let tally := { sink.tally with flushes := sink.tally.flushes + 1 }
  (sink.policy.refusesFlush sink.tally, { sink with tally := tally })

/-- All text accepted so far. -/
def text (sink : Sink) : String :=
  String.join sink.pieces.reverse

/-- The sink after its text was taken away; what it was asked stays counted. -/
def drained (sink : Sink) : Sink :=
  { sink with pieces := [] }

/-- Text that is accepted is put behind what the sink holds. -/
theorem text_write (sink : Sink) (text : String) (accepted : (sink.write text).1 = none) :
    (sink.write text).2.text = sink.text ++ text := by
  unfold write at accepted ⊢
  split
  · next nothing => rw [String.isEmpty_iff.mp nothing, String.append_empty]
  · next something =>
    rw [if_neg something] at accepted
    dsimp only at accepted ⊢
    split at accepted
    · exact nomatch accepted
    · simp only [Sink.text, List.reverse_cons, String.join_append, String.join_cons,
        String.join_nil, String.append_empty]

/-- A flush changes no text. -/
theorem text_flush (sink : Sink) : sink.flush.2.text = sink.text := rfl

end Sink

end Lox
