import Lox.Proofs.Pieces
import Lox.Proofs.Origin.Runs

/-!
# Where the code of a session comes from

The programs that a session accepts are made of the tokens of the sources that it is given, and the
code in its heap is that of programs that it has accepted. So at any time all code of a session,
whether it is about to run or was left behind by an earlier input, comes from these tokens
(`Session.origin`).
-/

set_option autoImplicit false

namespace Lox

/-- The tokens of some sources. -/
def Lexicon.ofSources (sources : List String) : Lexicon where
  tokens t := ∃ source ∈ sources, t ∈ (scan source).1
  spelt := by
    rintro t ⟨source, -, member⟩
    exact spelt_scan source t member

/-- What is read as a program is made of the tokens of its source, whether or not it is accepted. -/
theorem Parser.from_of_scan {o : Origin} {source : String} {firstId : NodeId} {program : List Stmt}
    (tokens : ∀ t ∈ (scan source).1, o.tokens t)
    (read : (parse (scan source).1 firstId).outcome = .ok program)
    (bare : ∀ s ∈ program, ∀ e ∈ s.printed, e.isBare = true → o.bare) :
    ∀ s ∈ program, s.From o := by
  rw [scan_fst] at tokens read
  exact from_of_parse (Tokens.ofSource source)
    (fun t inside => tokens t (List.mem_append_left _ inside)) read bare

/-- A program and the flush that follows it lead where its statements lead. -/
theorem interpret_leads {o : Origin} (bound : Nat) {program : List Stmt}
    (from_ : ∀ s ∈ program, s.From o) {m : Machine} (code : m.heap.From o) :
    m.Leads o none (fun _ => True) ((interpret bound program).leaves m) := by
  have led := (traces_executeProgram bound from_).leads code
  obtain ⟨sink, same⟩ := leaves_interpret bound program m
  rw [same]
  exact ⟨led.code, led.current, led.declares⟩

/-- Whether one of some programs prints an expression that begins with a constant. -/
def PrintsBare (programs : List Program) : Prop :=
  ∃ program ∈ programs, ∃ s ∈ program.statements, ∃ e ∈ s.printed, e.isBare = true

theorem PrintsBare.mono {programs more : List Program} (prints : PrintsBare programs)
    (le : ∀ program ∈ programs, program ∈ more) : PrintsBare more := by
  obtain ⟨program, member, prints⟩ := prints
  exact ⟨program, le program member, prints⟩

namespace Session

/-- Where the trees come from of a session that is given some inputs. -/
def origin (session : Session) (inputs : List Input) : Origin where
  toLexicon := .ofSources (inputs.map Input.source)
  bare := PrintsBare (session.programs inputs)

theorem programs_concat (session : Session) (inputs : List Input) (input : Input) :
    session.programs (inputs ++ [input])
      = session.programs inputs ++ (session.after inputs).accepted input := by
  induction inputs generalizing session with
  | nil => exact List.append_nil _
  | cons first inputs ih =>
    show session.accepted first ++ (session.receive first).2.programs (inputs ++ [input]) = _
    rw [ih, ← List.append_assoc]
    rfl

variable {o : Origin} {session : Session} {input : Input}

/-- A program is made of the tokens of its source. -/
theorem from_accepted (tokens : ∀ t ∈ (scan input.source).1, o.tokens t)
    (bare : PrintsBare (session.accepted input) → o.bare) :
    ∀ program ∈ session.accepted input, ∀ s ∈ program.statements, s.From o := by
  intro program member
  have printed : ∀ s ∈ program.statements, ∀ e ∈ s.printed, e.isBare = true → o.bare :=
    fun s inside e prints begins => bare ⟨program, member, s, inside, e, prints, begins⟩
  unfold accepted at member
  split at member
  · exact absurd member List.not_mem_nil
  · next checked =>
    obtain rfl := List.mem_singleton.mp member
    have read := ((checkSource_ok_iff _ _ _).mp checked).2.1
    rw [← scan_fst] at read
    exact Parser.from_of_scan tokens read printed

/-- All programs of a session are made of the tokens of its sources. -/
theorem from_programs {inputs : List Input}
    (tokens : ∀ input ∈ inputs, ∀ t ∈ (scan input.source).1, o.tokens t)
    (bare : PrintsBare (session.programs inputs) → o.bare) :
    ∀ program ∈ session.programs inputs, ∀ s ∈ program.statements, s.From o := by
  induction inputs generalizing session with
  | nil => exact fun _ member => absurd member List.not_mem_nil
  | cons input inputs ih =>
    obtain ⟨first, rest⟩ := List.forall_mem_cons.mp tokens
    intro program member
    rcases List.mem_append.mp member with here | later
    · exact from_accepted first (fun prints =>
        bare (prints.mono fun _ => List.mem_append_left _)) program here
    · exact ih rest (fun prints => bare (prints.mono fun _ => List.mem_append_right _)) program later

theorem from_receive (code : session.machine.heap.From o)
    (known : ∀ program ∈ session.accepted input, ∀ s ∈ program.statements, s.From o) :
    (session.receive input).2.machine.heap.From o := by
  unfold accepted at known
  cases checked : (checkSource input.source session.nextId).outcome with
  | error faults =>
    rw [receive_of_error checked]
    exact code
  | ok program =>
    rw [checked] at known
    have code' : (session.prepared program).heap.From o := code
    rw [receive_of_ok checked]
    exact (interpret_leads input.bound (known program List.mem_cons_self) code').code

theorem from_after {inputs : List Input} (code : session.machine.heap.From o)
    (tokens : ∀ input ∈ inputs, ∀ t ∈ (scan input.source).1, o.tokens t)
    (bare : PrintsBare (session.programs inputs) → o.bare) :
    (session.after inputs).machine.heap.From o := by
  induction inputs generalizing session with
  | nil => exact code
  | cons input inputs ih =>
    obtain ⟨first, rest⟩ := List.forall_mem_cons.mp tokens
    have here := from_receive code (from_accepted first fun prints =>
      bare (prints.mono fun _ => List.mem_append_left _))
    exact ih here rest fun prints => bare (prints.mono fun _ => List.mem_append_right _)

/-- At first the heap holds no code. -/
theorem from_fresh (o : Origin) (policy : Sink.Policy) (maxDepth : Nat) (clock : Clock) :
    (fresh policy maxDepth clock).machine.heap.From o :=
  Machine.all_new (P := Value.From o) trivial policy maxDepth clock

/-- **All code of a session comes from its sources**: that in the heap, and the program that is
accepted next. -/
theorem from_origin (policy : Sink.Policy) (maxDepth : Nat) (clock : Clock)
    (inputs : List Input) (input : Input) :
    ((fresh policy maxDepth clock).after inputs).machine.heap.From
      ((fresh policy maxDepth clock).origin (inputs ++ [input])) ∧
    ∀ program ∈ ((fresh policy maxDepth clock).after inputs).accepted input,
      ∀ s ∈ program.statements, s.From ((fresh policy maxDepth clock).origin (inputs ++ [input])) := by
  have tokens : ∀ i ∈ inputs ++ [input], ∀ t ∈ (scan i.source).1,
      ((fresh policy maxDepth clock).origin (inputs ++ [input])).tokens t :=
    fun i member t inside => ⟨i.source, List.mem_map_of_mem member, inside⟩
  have programs := programs_concat (fresh policy maxDepth clock) inputs input
  obtain ⟨earlier, last⟩ := List.forall_mem_append.mp tokens
  constructor
  · exact from_after (from_fresh _ policy maxDepth clock) earlier fun prints =>
      prints.mono fun _ member => programs ▸ List.mem_append_left _ member
  · exact from_accepted (last input List.mem_cons_self) fun prints =>
      prints.mono fun _ member => programs ▸ List.mem_append_right _ member

end Session

end Lox
