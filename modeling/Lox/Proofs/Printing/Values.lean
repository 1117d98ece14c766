import Mathlib
import Lox.Proofs.History
import Lox.Proofs.Holdings
import Lox.Proofs.Printing.Sources

/-!
# Printing a value

A new machine holds no code but that of the host, and an expression brings none. So the evaluation of
an expression calls no function of a program and writes nothing: this is `Eval.Quiet`, which is closed
under sequencing and holds of all expressions by induction on the bound. A program that prints the
expression therefore writes the text of its value and a line break, or stops with the error that the
expression stops with.
-/

set_option autoImplicit false

namespace Lox

/-! ## Numbers in pieces -/

/-- Zeros that are written in runs are as many. -/
theorem Decimal.join_zeroRuns (n : Nat) : String.join (zeroRuns n) = String.ofList (zeros n) := by
  have runs : 64 * ((n - 1) / 64) ≤ n := by omega
  rw [← String.toList_inj, String.toList_join, String.toList_ofList]
  unfold zeroRuns zeros
  dsimp only
  rw [List.flatMap_append, List.flatMap_replicate, List.flatMap_singleton, String.toList_ofList,
    String.toList_ofList, List.flatten_replicate_replicate, List.replicate_append_replicate,
    Nat.mul_comm, Nat.add_sub_cancel' runs]

/-- The pieces of a number in positional notation make up its text. -/
theorem Decimal.join_pieces (d : Decimal) : String.join d.pieces = d.positional := by
  unfold pieces positional place
  dsimp only
  split
  · rw [String.join_cons, join_zeroRuns, String.ofList_append]
  · split
    · rw [← String.toList_inj]
      simp
    · rw [String.join_append, String.join_cons, join_zeroRuns, ← String.toList_inj]
      simp

/-- What is printed of a number, piece by piece, is its printed form. -/
theorem Number.join_parts (x : Float) : String.join (parts x) = printed x := by
  have signed_ (negative : Bool) (pieces : List String) :
      String.join (if negative then "-" :: pieces else pieces)
        = signed negative (String.join pieces) := by
    cases negative with
    | true => exact String.join_cons
    | false => rfl
  unfold parts printed plain
  dsimp only
  cases Binary64.ofFloat x with
  | nan => rfl
  | infinity negative => exact signed_ negative ["Infinity"]
  | finite negative m q =>
    dsimp only
    cases whole : Binary64.whole? m q with
    | none =>
      -- Zero is a whole number, so it does not come here.
      have other : m ≠ 0 := by
        rintro rfl
        unfold Binary64.whole? at whole
        split at whole <;> simp at whole
      rw [if_neg other]
      exact (signed_ negative _).trans (congrArg _ (Decimal.join_pieces _))
    | some n =>
      cases n with
      | zero => rfl
      | succ n => exact (signed_ negative _).trans (congrArg _ rfl)

/-- What is printed of a value, part by part, is its text. -/
theorem Value.join_parts (value : Value) : String.join value.parts = value.printed := by
  cases value with
  | number x => exact Number.join_parts x
  | nil | bool | string | native | closure | «class» | «instance» => rfl

/-! ## Evaluation without code -/

/-- A machine that holds no code of a program, and knows no distances. -/
structure Machine.Blank (m : Machine) : Prop where
  distances : m.distances = ∅
  data : m.heap.All Value.IsData

theorem Machine.blank_new (policy : Sink.Policy) (maxDepth : Nat) (clock : Clock) :
    (new .empty policy maxDepth clock).Blank :=
  ⟨rfl, all_new (P := Value.IsData) trivial policy maxDepth clock⟩

namespace Eval

variable {α β : Type} {fine : α → Prop} {good : β → Prop} {m : Machine}

/-- A result that leaves a blank machine whose output is that of an earlier one. -/
def Silent (fine : α → Prop) (m : Machine) : EStateM.Result Stop Machine α → Prop
  | .ok a m' => m'.Blank ∧ m'.sink = m.sink ∧ fine a
  | .error _ m' => m'.Blank ∧ m'.sink = m.sink

/-- On a blank machine the computation writes nothing, takes no code into the heap and gives only
values of some kind. -/
def Quiet (fine : α → Prop) (x : Eval α) : Prop :=
  ∀ m : Machine, m.Blank → Silent fine m (x m)

theorem quiet_pure {a : α} (holds : fine a) : Quiet fine (pure a) :=
  fun _ blank => ⟨blank, rfl, holds⟩

theorem quiet_exhausted : Quiet fine (throw .exhausted : Eval α) :=
  fun _ blank => ⟨blank, rfl⟩

theorem quiet_fail (cause : RuntimeError.Cause) (line : Nat) : Quiet fine (fail cause line) :=
  fun _ blank => ⟨blank, rfl⟩

theorem Quiet.bind {x : Eval α} {f : α → Eval β} (first : Quiet fine x)
    (second : ∀ a, fine a → Quiet good (f a)) : Quiet good (x >>= f) := by
  intro m blank
  rw [bind_eq]
  have silent := first m blank
  cases ran : x m with
  | error stop m' =>
    rw [ran] at silent
    exact silent
  | ok a m' =>
    rw [ran] at silent
    obtain ⟨blank', same, holds⟩ := silent
    have later := second a holds m' blank'
    dsimp only
    cases ran' : f a m' with
    | error stop m'' =>
      rw [ran'] at later
      exact ⟨later.1, later.2.trans same⟩
    | ok b m'' =>
      rw [ran'] at later
      exact ⟨later.1, later.2.1.trans same, later.2.2⟩

theorem quiet_orFail {result : Except RuntimeError.Cause α} (line : Nat)
    (holds : ∀ a, result = .ok a → fine a) : Quiet fine (orFail line result) := by
  cases result with
  | ok a => exact quiet_pure (holds a rfl)
  | error cause => exact quiet_fail cause line

theorem quiet_lookUp (id : NodeId) (name : String) (line : Nat) :
    Quiet Value.IsData (lookUp id name line) := by
  intro m blank
  rcases lookUp_cases id name line m with ⟨frame, value, -, found, same⟩ | same
  · rw [same]
    exact ⟨blank, rfl, blank.data.read? found⟩
  · rw [same]
    exact ⟨blank, rfl⟩

theorem quiet_assign (id : NodeId) (name : Name) {value : Value} (data : value.IsData) :
    Quiet (fun _ => True) (assign id name value) := by
  intro m blank
  rcases assign_cases id name value m with ⟨frame, -, same⟩ | ⟨-, same⟩
  · rw [same]
    exact ⟨⟨blank.distances, blank.data.define frame name.lexeme data⟩, rfl, trivial⟩
  · rw [same]
    exact ⟨blank, rfl⟩

/-- Data has no properties. -/
theorem quiet_property {object : Value} (data : object.IsData) (name : Name) :
    Quiet Value.IsData (property object name) := by
  cases object with
  | nil | bool | number | string | native => exact fun _ blank => ⟨blank, rfl⟩
  | closure | «class» | «instance» => exact data.elim

theorem quiet_superMethod (id : NodeId) (line : Nat) (method : String) :
    Quiet Value.IsData (superMethod id line method) := by
  intro m blank
  rcases superMethod_cases id line method m with ⟨distance, _, _, known, -⟩ | ⟨cause, same⟩
  · rw [blank.distances] at known
    cases known
  · rw [same]
    exact ⟨blank, rfl⟩

theorem quiet_checkCall (callee : Value) (count line : Nat) :
    Quiet (fun _ => True) (checkCall callee count line) := by
  unfold checkCall
  split
  · exact quiet_fail _ line
  · split
    · exact quiet_pure trivial
    · exact quiet_fail _ line

/-- Of the data only the functions of the host can be called. -/
theorem quiet_call (bound : Nat) {callee : Value} (data : callee.IsData) {arguments : List Value}
    (given : ∀ value ∈ arguments, value.IsData) (line : Nat) :
    Quiet Value.IsData (call bound callee arguments line) := by
  cases bound with
  | zero => exact quiet_exhausted
  | succ n =>
    cases callee with
    | nil | bool | number | string => exact quiet_fail .notCallable line
    | native f =>
      have looked : Quiet (fun _ => True) (readClock f) :=
        fun _ blank => ⟨⟨blank.distances, blank.data⟩, rfl, trivial⟩
      exact looked.bind fun reading _ => quiet_orFail line fun value ok =>
        (Native.call_cases ok).elim id (given value)
    | closure | «class» | «instance» => exact data.elim

/-- **Expressions are quiet.** -/
theorem quiet_evaluate (bound : Nat) :
    (∀ e, Quiet Value.IsData (evaluate bound e)) ∧
      ∀ es, Quiet (fun values => ∀ value ∈ values, value.IsData) (evaluateAll bound es) := by
  induction bound with
  | zero => exact ⟨fun _ => quiet_exhausted, fun _ => quiet_exhausted⟩
  | succ n ih =>
    obtain ⟨one, all⟩ := ih
    constructor
    · intro e
      cases e with
      | literal value => exact quiet_pure (Value.isData_ofLiteral value)
      | grouping inner => exact one inner
      | unary op right line =>
        exact (one right).bind fun _ _ => quiet_orFail line fun _ ok => UnaryOp.isData_apply ok
      | binary left op right line =>
        refine (one left).bind fun _ _ => (one right).bind fun _ _ => ?_
        exact quiet_orFail line fun _ ok => BinaryOp.isData_apply ok
      | logical left op right =>
        refine (one left).bind fun value data => ?_
        split
        · exact quiet_pure data
        · exact one right
      | «variable» id name => exact quiet_lookUp id name.lexeme name.line
      | assign id name value =>
        refine (one value).bind fun value data => ?_
        exact (quiet_assign id name data).bind fun _ _ => quiet_pure data
      | call callee arguments line =>
        refine (one callee).bind fun callee data => (all arguments).bind fun values given => ?_
        exact (quiet_checkCall callee values.length line).bind fun _ _ =>
          quiet_call n data given line
      | get object name =>
        exact (one object).bind fun object data => quiet_property data name
      | set object name value =>
        refine (one object).bind fun object data => ?_
        -- No instance is at hand whose field could be set.
        cases object with
        | nil | bool | number | string | native => exact quiet_fail _ name.line
        | closure | «class» | «instance» => exact data.elim
      | this id line => exact quiet_lookUp id "this" line
      | super id line method => exact quiet_superMethod id line method.lexeme
    · intro es
      cases es with
      | nil => exact quiet_pure nofun
      | cons e es =>
        refine (one e).bind fun value data => (all es).bind fun values given => ?_
        exact quiet_pure (List.forall_mem_cons.mpr ⟨data, given⟩)

/-! ## Output -/

/-- Where everything is accepted, all pieces of text are written. -/
theorem writeAll_accepting (line : Nat) (texts : List String)
    (accepts : m.sink.policy = .accepting) :
    ∃ sink, writeAll line texts m = .ok () { m with sink := sink } ∧
      sink.policy = .accepting ∧ sink.text = m.sink.text ++ String.join texts := by
  induction texts generalizing m with
  | nil => exact ⟨m.sink, rfl, accepts, (String.append_empty).symm⟩
  | cons text texts ih =>
    have accepted : (m.sink.write text).1 = none := by
      unfold Sink.write
      rw [accepts]
      split <;> rfl
    have policy := (Sink.policy_write m.sink text).trans accepts
    obtain ⟨sink, rest, accepts', written⟩ :=
      ih (m := { m with sink := (m.sink.write text).2 }) policy
    have here : write text line m = .ok () { m with sink := (m.sink.write text).2 } := by
      unfold write
      rw [← Prod.eta (m.sink.write text), accepted]
    refine ⟨sink, ?_, accepts', ?_⟩
    · rw [writeAll, bind_eq, here]
      exact rest
    · rw [written, Sink.text_write m.sink text accepted, String.join_cons, String.append_assoc]

theorem print_accepting (value : Value) (line : Nat) (accepts : m.sink.policy = .accepting) :
    ∃ sink, print value line m = .ok () { m with sink := sink } ∧
      sink.policy = .accepting ∧ sink.text = m.sink.text ++ (value.printed ++ "\n") := by
  obtain ⟨sink, ran, accepts', text⟩ := writeAll_accepting line (value.parts ++ ["\n"]) accepts
  rw [String.join_append, Value.join_parts, String.join_cons, String.join_nil,
    String.append_empty] at text
  exact ⟨sink, ran, accepts', text⟩

/-- A blank machine that accepts everything prints the value of an expression, or stops as the
expression does. -/
theorem interpret_print (bound : Nat) (e : Expr) (blank : m.Blank)
    (accepts : m.sink.policy = .accepting) :
    match evaluate bound e m with
    | .ok value _ => ∃ after, interpret (bound + 1) [.print e] m = .ok () after ∧
        after.sink.text = m.sink.text ++ (value.printed ++ "\n")
    | .error stop _ => ∃ after, interpret (bound + 1) [.print e] m = .error stop after ∧
        after.sink.text = m.sink.text := by
  -- The expression itself prints nothing, so the text is that of its value or none.
  have silent := (quiet_evaluate bound).1 e m blank
  have whole : executeProgram (bound + 1) [.print e] m = (evaluate bound e >>= fun value =>
      print value e.line >>= fun _ => pure ()) m := by
    rw [executeProgram, execute, bind_eq, bind_eq, bind_eq]
    cases evaluate bound e m with
    | error stop m' => rfl
    | ok value m' =>
      dsimp only
      rw [bind_eq, bind_eq]
      cases print value e.line m' <;> rfl
  unfold interpret
  rw [whole, bind_eq]
  cases ran : evaluate bound e m with
  | error stop m' =>
    rw [ran] at silent
    -- After an error the output is flushed, which adds no text.
    cases stop with
    | exhausted => exact ⟨m', rfl, congrArg Sink.text silent.2⟩
    | error err =>
      exact ⟨_, rfl, (Sink.text_flush m'.sink).trans (congrArg Sink.text silent.2)⟩
  | ok value m' =>
    rw [ran] at silent
    obtain ⟨-, same, -⟩ := silent
    have accepts' : m'.sink.policy = .accepting := same ▸ accepts
    obtain ⟨sink, printed, policy, text⟩ := print_accepting value e.line accepts'
    have flushed : sink.flush = (none, sink.flush.2) := by
      unfold Sink.flush
      rw [policy]
      rfl
    dsimp only
    rw [bind_eq, printed]
    simp only [pure, EStateM.pure]
    rw [flushed]
    exact ⟨_, rfl, (Sink.text_flush sink).trans (text.trans (same ▸ rfl))⟩

end Eval

namespace Session

variable {source : String} {firstId : NodeId} {e : Expr}

theorem runWithin_printing (scanned : (scan source).2 = [])
    (parsed : (Parser.parseExpression (scan source).1 firstId).outcome = .ok e)
    (plain : ∀ access ∈ e.accesses, access.isVariable = true) (maxDepth : Nat) (clock : Clock)
    (bound : Nat) :
    let machine := Machine.new .empty .accepting maxDepth clock
    let ran := (Session.mk machine firstId).runWithin (bound + 1) (printing source)
    match evaluate bound e machine with
    | .ok value _ => ran.1 = .finished ∧ ran.2.machine.sink.text = value.printed ++ "\n"
    | .error (.error error) _ => ran.1 = .failed [.runtime error] ∧ ran.2.machine.sink.text = ""
    | .error .exhausted _ => ran.1 = .exhausted ∧ ran.2.machine.sink.text = "" := by
  intro machine ran
  let session : Session := ⟨machine, firstId⟩
  have checked : (checkSource (printing source) session.nextId).outcome = .ok ⟨[.print e], ∅⟩ := by
    show (checkSource (printing source) firstId).outcome = _
    rw [checkSource, parseSource_printing scanned parsed]
    show checkStatements [.print e] = _
    rw [checkStatements, resolve_print plain]
    rfl
  have printed := Eval.interpret_print bound e (Machine.blank_new .accepting maxDepth clock) rfl
  have outcome : ran.1 = .of (interpret (bound + 1) [.print e] machine) :=
    runWithin_fst checked
  have left : ran.2.machine = (interpret (bound + 1) [.print e]).leaves machine :=
    congrArg Session.machine (runWithin_of_ok checked)
  rw [outcome, left]
  cases evaluated : evaluate bound e machine with
  | ok value _ =>
    rw [evaluated] at printed
    obtain ⟨after, result, text⟩ := printed
    rw [Eval.leaves, result]
    exact ⟨rfl, text.trans String.empty_append⟩
  | error stop _ =>
    rw [evaluated] at printed
    obtain ⟨after, result, text⟩ := printed
    rw [Eval.leaves, result]
    cases stop with
    | exhausted => exact ⟨rfl, text⟩
    | error error => exact ⟨rfl, text⟩

end Session

/-- **An expression is evaluated as it is printed.** If a source is read as an expression in which
neither `this` nor `super` occurs, then the source that prints it is read as that one statement, with
the same tree and the same ids taken; it has no distances and breaks no rule. On a new machine whose
output is accepted, it prints a text and a line break if and only if the expression has a value of
that text; it fails with an error if and only if the expression does, and then nothing is printed.

Values may share their text, so a text is all that the output tells of a value. The program takes one
step more than the expression, hence the bounds. -/
theorem evaluated_as_printed {source : String} {firstId : NodeId} {e : Expr}
    (scanned : (scan source).2 = [])
    (parsed : (Parser.parseExpression (scan source).1 firstId).outcome = .ok e)
    (plain : ∀ access ∈ e.accesses, access.isVariable = true) :
    parseSource ("print " ++ source ++ "\n" ++ ";") firstId
        = ⟨.ok [.print e], (Parser.parseExpression (scan source).1 firstId).nextId⟩ ∧
      resolve [.print e] = ⟨∅, []⟩ ∧
      ∀ (maxDepth : Nat) (clock : Clock) (bound : Nat),
        let machine := Machine.new .empty .accepting maxDepth clock
        let ran := (Session.mk machine firstId).runWithin (bound + 1)
          ("print " ++ source ++ "\n" ++ ";")
        (∀ text, (∃ value after, evaluate bound e machine = .ok value after ∧ value.printed = text)
          ↔ ran.1 = .finished ∧ ran.2.machine.sink.text = text ++ "\n") ∧
        (∀ error, (∃ after, evaluate bound e machine = .error (.error error) after)
          ↔ ran.1 = .failed [.runtime error]) ∧
        ((∃ after, evaluate bound e machine = .error .exhausted after) ↔ ran.1 = .exhausted) ∧
        (ran.1 ≠ .finished → ran.2.machine.sink.text = "") := by
  refine ⟨parseSource_printing scanned parsed, resolve_print plain, ?_⟩
  intro maxDepth clock bound machine ran
  have whole := Session.runWithin_printing scanned parsed plain maxDepth clock bound
  change match evaluate bound e machine with
    | .ok value _ => ran.1 = .finished ∧ ran.2.machine.sink.text = value.printed ++ "\n"
    | .error (.error error) _ => ran.1 = .failed [.runtime error] ∧ ran.2.machine.sink.text = ""
    | .error .exhausted _ => ran.1 = .exhausted ∧ ran.2.machine.sink.text = "" at whole
  -- The three ways to end exclude each other, so each equivalence follows from how this one ends.
  cases evaluated : evaluate bound e machine with
  | ok value after =>
    rw [evaluated] at whole
    obtain ⟨finished, printed⟩ := whole
    rw [finished, printed]
    refine ⟨fun text => ⟨?_, fun ⟨_, same⟩ => ?_⟩, fun error => ⟨nofun, nofun⟩, ⟨nofun, nofun⟩,
      fun unfinished => absurd rfl unfinished⟩
    · rintro ⟨_, _, ⟨⟩, rfl⟩
      exact ⟨rfl, rfl⟩
    · exact ⟨value, after, rfl, (String.append_left_inj "\n").mp same⟩
  | error stop after =>
    rw [evaluated] at whole
    cases stop with
    | error error =>
      obtain ⟨failed, printed⟩ := whole
      rw [failed, printed]
      refine ⟨fun text => ⟨nofun, nofun⟩, fun error' => ⟨?_, ?_⟩, ⟨nofun, nofun⟩, fun _ => rfl⟩
      · rintro ⟨_, ⟨⟩⟩
        rfl
      · rintro ⟨⟩
        exact ⟨after, rfl⟩
    | exhausted =>
      obtain ⟨exhausted, printed⟩ := whole
      rw [exhausted, printed]
      exact ⟨fun text => ⟨nofun, nofun⟩, fun error => ⟨nofun, nofun⟩,
        ⟨fun _ => rfl, fun _ => ⟨after, rfl⟩⟩, fun _ => rfl⟩

/-- A comment behind the expression ends with its line, and an assignment to a name of the host is
one to a global variable. -/
theorem assignment_as_printed :
    let source := "clock = nil or \"a\" // last"
    let e := Expr.assign 7 ⟨"clock", 1⟩ (.logical (.literal .nil) .or (.literal (.string "a")))
    (scan source).2 = [] ∧
      (Parser.parseExpression (scan source).1 7).outcome = .ok e ∧
      (parseSource ("print " ++ source ++ "\n" ++ ";") 7).outcome = .ok [.print e] ∧
      ∃ after, evaluate 9 e (.new .empty .accepting 5 (.steady 0)) = .ok (.string "a") after ∧
        (Session.runWithin 10 ⟨.new .empty .accepting 5 (.steady 0), 7⟩
          ("print " ++ source ++ "\n" ++ ";")).2.machine.sink.text = "a\n" := by
  intro source e
  have scanned : (scan source).2 = [] := by decide +kernel
  have parsed : (Parser.parseExpression (scan source).1 7).outcome = .ok e := by cbv
  have plain : ∀ access ∈ e.accesses, access.isVariable = true := by decide
  obtain ⟨same, -, runs⟩ := evaluated_as_printed scanned parsed plain
  refine ⟨scanned, parsed, congrArg Parsed.outcome same, _, rfl, ?_⟩
  exact (((runs 5 (.steady 0) 9).1 "a").mp ⟨.string "a", _, rfl, rfl⟩).2

end Lox
