import Mathlib
import Lox.Proofs.Scoping.Sessions

/-!
# Where names are found

Whenever a program of a session uses a name, the frames from the current one outwards are those that
were opened for the parts of the program around the use. The distance of the use leads to the frame
of the scope that declares the name, and a use without a distance leads to the globals.

What is read is always bound there. What is assigned is not if the assignment stands in the
initializer of the variable itself: the scope declares the name before the initializer, and the
frame binds it only afterwards. Only what is read in an initializer is checked for this.

The table of a session holds the distances of all programs that it has accepted by the ids of their
uses. Ids start over after the last one, and what a program learns then hides entries of earlier
programs. So the table can be relied on until all ids have been given out.
-/

set_option autoImplicit false

namespace Lox

/-- Whether the frames from the current one outwards were opened for the sites, each inside the
next one, and the outermost inside the globals. -/
def Machine.Framed (m : Machine) (sites : List Site) (earlier : List Event) : Prop :=
  (∀ (i : Nat) (site : Site), sites[i]? = some site →
    ∃ frame around, m.heap.outer? m.current i = some frame ∧
      m.heap.outer? m.current (i + 1) = some around ∧ .opened site frame around ∈ earlier) ∧
    m.heap.outer? m.current sites.length = some m.globals

/-- Whether a use leads where it should: as many links out as its distance says, where what is read
is bound, or to the globals. -/
def Machine.Addresses (m : Machine) (u : Use) : Prop :=
  match u.distance with
  | some distance =>
    ∃ frame, m.heap.outer? m.current distance = some frame ∧
      m.heap.ancestor m.current distance = frame ∧
      (u.access.assigns = false →
        (m.heap.getAt? m.current distance u.access.name).isSome = true)
  | none => ∀ frame, m.place? u.access.id u.access.name = some frame → frame = m.globals

/-! ## Uses that are placed -/

namespace UsedIn

variable {session : Session} {inputs : List Input} {u : Use}

/-- The name that is just being declared stands in the innermost scope. -/
theorem pending (used : UsedIn (session.programs inputs) u) (inside : u.around.scopes ≠ [])
    (declaring : u.around.declaring = some u.access.name) : u.distance = some 0 := by
  obtain ⟨program, member, mem⟩ := used
  obtain ⟨lo, hi, accepted⟩ := Session.accepted_of_mem member
  exact accepted.walk.pending u mem inside declaring

/-- What is read is not the name that is just being declared. -/
theorem bound (used : UsedIn (session.programs inputs) u) (inside : u.around.scopes ≠ [])
    (reads : u.access.assigns = false) : u.around.declaring ≠ some u.access.name := by
  obtain ⟨program, member, mem⟩ := used
  obtain ⟨lo, hi, accepted⟩ := Session.accepted_of_mem member
  exact accepted.walk.bound accepted.silent u mem inside reads

theorem inside {distance : Nat} (declared : u.distance = some distance) :
    u.around.scopes ≠ [] := by
  intro outside
  unfold Use.distance at declared
  rw [outside] at declared
  cases declared

end UsedIn

section

variable {session : Session} {inputs : List Input} {u : Use} {m : Machine} {earlier : List Event}

theorem Placed.framed (placed : Placed (m.scene earlier) u.around.declaring u.around.sites
    u.around.scopes m.current) : m.Framed u.around.sites earlier := by
  obtain ⟨scopes, -, layout⟩ := placed.links
  refine ⟨fun i site at_ => layout.outer? at_, ?_⟩
  rw [layout.length_eq]
  exact layout.outer?_globals

/-- The frame at the distance of a use, and whether it binds the name. -/
theorem Placed.owner (placed : Placed (m.scene earlier) u.around.declaring u.around.sites
    u.around.scopes m.current) (used : UsedIn (session.programs inputs) u) {distance : Nat}
    (declared : u.distance = some distance) :
    ∃ frame, m.heap.outer? m.current distance = some frame ∧
      m.heap.binds frame u.access.name = (u.around.declaring != some u.access.name) := by
  refine placed.binds_outer? declared fun declaring => ?_
  have first := used.pending (UsedIn.inside declared) declaring
  exact Option.some.inj (declared.symm.trans first)

/-- A use without a distance is looked up among the globals. -/
theorem place?_of_none {id : NodeId} {name : String} (rooted : m.Rooted)
    (unknown : m.distances[id]? = none) :
    m.place? id name = if m.heap.binds m.globals name then some m.globals else none := by
  obtain ⟨bindings, root⟩ := rooted
  unfold Machine.place?
  rw [unknown]
  exact Heap.owner?_root name root

theorem Placed.addresses (placed : Placed (m.scene earlier) u.around.declaring u.around.sites
    u.around.scopes m.current) (rooted : m.Rooted) (used : UsedIn (session.programs inputs) u)
    (known : m.distances[u.access.id]? = u.distance) : m.Addresses u := by
  unfold Machine.Addresses
  cases declared : u.distance with
  | some distance =>
    obtain ⟨frame, reached, binds⟩ := placed.owner used declared
    refine ⟨frame, reached, Heap.ancestor_eq reached, fun reads => ?_⟩
    have there : m.heap.binds frame u.access.name = true := by
      rw [binds]
      exact bne_iff_ne.mpr (used.bound (UsedIn.inside declared) reads)
    obtain ⟨value, found⟩ := Heap.exists_read? there
    unfold Heap.getAt?
    rw [Heap.ownerAt?_eq _ reached, if_pos there, Option.bind_some, found]
    rfl
  | none =>
    intro frame found
    rw [place?_of_none rooted (known.trans declared)] at found
    split at found
    · exact (Option.some.inj found).symm
    · cases found

/-- An assignment that is found some links out misses its name only where that is being declared. -/
theorem Placed.misses_iff (placed : Placed (m.scene earlier) u.around.declaring u.around.sites
    u.around.scopes m.current) (used : UsedIn (session.programs inputs) u) {id : NodeId}
    {name : Name} (same : u.access = .assign id name) {distance : Nat}
    (known : m.distances[id]? = some distance) (declared : u.distance = some distance)
    (value : Value) :
    Eval.assign id name value m = Eval.fail (.undefinedVariable name.lexeme) name.line m ↔
      u.around.declaring = some name.lexeme := by
  obtain ⟨frame, reached, binds⟩ := placed.owner used declared
  rw [same] at binds
  change m.heap.binds frame name.lexeme = (u.around.declaring != some name.lexeme) at binds
  have place : m.place? id name.lexeme
      = if u.around.declaring != some name.lexeme then some frame else none := by
    unfold Machine.place?
    rw [known]
    dsimp only
    rw [Heap.ownerAt?_eq _ reached, binds]
  by_cases declaring : u.around.declaring = some name.lexeme
  · rw [declaring, bne_self_eq_false, if_neg Bool.false_ne_true] at place
    refine iff_of_true ?_ declaring
    unfold Eval.assign
    rw [place]
    rfl
  · rw [bne_iff_ne.mpr declaring, if_pos rfl] at place
    refine iff_of_false ?_ declaring
    unfold Eval.assign
    rw [place]
    exact nofun

end

/-! ## Uses in a session -/

/-- What was found out about a use that a session met: it is one of an accepted program, the frames
around it are those of its surroundings, and while ids last the table has its distance. -/
theorem located_trace (policy : Sink.Policy) (maxDepth : Nat) (clock : Clock) (inputs : List Input) :
    EveryUse (Located (UsedIn ((Session.fresh policy maxDepth clock).programs inputs))
        (Recorded ((Session.fresh policy maxDepth clock).idsTaken inputs ≤ Parser.idCount)))
      ((Session.fresh policy maxDepth clock).trace [] inputs) := by
  have start := consistent_fresh
    ((Session.fresh policy maxDepth clock).idsTaken inputs ≤ Parser.idCount) policy maxDepth clock
  have end_ := start.after inputs fun plenty => by rwa [Nat.zero_add]
  rw [List.nil_append, Nat.zero_add] at end_
  exact end_.sound.noted

/-- **Lexical addressing.** Whenever a session uses a name, whatever its inputs are and however they
end, the frames from the current one outwards were opened for the sites around the use. While ids
last, the table has the distance that the analysis found; and where it has, the frame so many links
out is that of the scope that declares the name, what is read is bound there, and without a distance
the name is one of the globals. -/
theorem lexical_addressing (policy : Sink.Policy) (maxDepth : Nat) (clock : Clock)
    (inputs : List Input) :
    EveryUse
      (fun access m earlier => ∃ u, UsedIn ((Session.fresh policy maxDepth clock).programs inputs) u ∧
        u.access = access ∧ m.Framed u.around.sites earlier ∧
        ((Session.fresh policy maxDepth clock).idsTaken inputs ≤ Parser.idCount →
          m.distances[access.id]? = u.distance) ∧
        (m.distances[access.id]? = u.distance → m.Addresses u))
      ((Session.fresh policy maxDepth clock).trace [] inputs) := by
  refine (located_trace policy maxDepth clock inputs).mono fun access m earlier located => ?_
  obtain ⟨u, used, rfl, recorded, rooted, placed⟩ := located
  exact ⟨u, used, rfl, placed.framed, recorded, placed.addresses rooted used⟩

/-- An input that is refused, for which one id is given out. -/
def Input.refused : Input := ⟨"f", 0⟩

theorem Session.receive_refused (session : Session) :
    (session.receive .refused).2 = ⟨session.machine, (session.nextId + 1) % Parser.idCount⟩ := by
  have outcome : (checkSource "f" session.nextId).outcome
      = .error [.source ⟨.syntactic, 1, "Expected ';' after expression"⟩] := by cbv
  have nextId : (checkSource "f" session.nextId).nextId
      = (session.nextId + 1) % Parser.idCount := by cbv
  unfold Session.receive Input.refused
  rw [Session.runWithin_of_error outcome, nextId]

theorem Session.after_refused (session : Session)
    (small : session.nextId < Parser.idCount) (n : Nat) :
    session.after (List.replicate n .refused)
      = ⟨session.machine, (session.nextId + n) % Parser.idCount⟩ := by
  induction n with
  | zero =>
    show session = ⟨session.machine, session.nextId % Parser.idCount⟩
    rw [Nat.mod_eq_of_lt small]
  | succ n ih =>
    rw [List.replicate_succ', Session.after_concat, ih]
    rw [Session.receive_refused]
    rw [Nat.mod_add_mod, Nat.add_assoc]

/-- What a program brings for a use is what the table has for it afterwards. -/
theorem Session.distances_of_entry {session : Session} {input : Input} {id : NodeId}
    {distance : Nat}
    (entry : (checkSource input.source session.nextId).outcome.toOption.bind
      (·.distances[id]?) = some distance) :
    (session.receive input).2.machine.distances[id]? = some distance := by
  cases accepted : (checkSource input.source session.nextId).outcome with
  | error faults =>
    rw [accepted] at entry
    cases entry
  | ok program =>
    rw [accepted] at entry
    have own : program.distances[id]? = some distance := entry
    rw [Session.distances_receive accepted, own, Option.some_or]

/-- An input that keeps a function which reads a variable around it; the read is numbered 0. -/
def Input.keeping : Input := ⟨"var f; \x7b var a; fun g() \x7b print a; \x7d f = g; \x7d", 20⟩

/-- An input whose second use is numbered 0 once all ids but one were given out. -/
def Input.renumbering : Input := ⟨"\x7b var x; x; \x7b \x7b x; \x7d \x7d \x7d", 20⟩

/-- Once ids start over, another program's distance may replace that of a use: the variable is still
one frame out, but it is looked up two frames out. -/
theorem renumbering_replaces_distance :
    ((Session.fresh .accepting 5 (.steady 0)).after [.keeping]).machine.distances[(0 : NodeId)]?
      = some 1 ∧
    ((Session.fresh .accepting 5 (.steady 0)).after
        (.keeping :: (List.replicate (Parser.idCount - 4) .refused ++ [.renumbering]))
      ).machine.distances[(0 : NodeId)]? = some 2 := by
  have first : (checkSource Input.keeping.source 0).outcome.toOption.bind
      (·.distances[(0 : NodeId)]?) = some 1 := by cbv
  have nextId : ((Session.fresh .accepting 5 (.steady 0)).receive .keeping).2.nextId = 3 := by
    rw [Session.nextId_receive]
    cbv
  have second : (checkSource Input.renumbering.source 4294967295).outcome.toOption.bind
      (·.distances[(0 : NodeId)]?) = some 2 := by cbv
  have refused := Session.after_refused _
    (by rw [nextId]; decide) (Parser.idCount - 4)
  rw [nextId] at refused
  have last : (3 + (Parser.idCount - 4)) % Parser.idCount = 4294967295 := by decide
  rw [last] at refused
  constructor
  · rw [Session.after_cons]
    exact Session.distances_of_entry first
  · rw [Session.after_cons, Session.after_concat, refused]
    exact Session.distances_of_entry second

/-- **Where assignments miss.** An assignment with the distance that the analysis found misses its
variable if and only if it stands in the initializer of that variable. -/
theorem assignment_misses_iff (policy : Sink.Policy) (maxDepth : Nat) (clock : Clock)
    (inputs : List Input) :
    EveryUse
      (fun access m _ => ∀ id name, access = .assign id name →
        ∃ u, UsedIn ((Session.fresh policy maxDepth clock).programs inputs) u ∧ u.access = access ∧
          ((Session.fresh policy maxDepth clock).idsTaken inputs ≤ Parser.idCount →
            m.distances[id]? = u.distance) ∧
          ∀ distance, m.distances[id]? = some distance → u.distance = some distance →
            ∀ value,
              Eval.assign id name value m
                  = Eval.fail (.undefinedVariable name.lexeme) name.line m ↔
                u.around.declaring = some name.lexeme)
      ((Session.fresh policy maxDepth clock).trace [] inputs) := by
  refine (located_trace policy maxDepth clock inputs).mono fun access m earlier located => ?_
  rintro id name rfl
  obtain ⟨u, used, same, recorded, -, placed⟩ := located
  refine ⟨u, used, same, fun plenty => ?_, fun distance known declared value => ?_⟩
  · have found := recorded plenty
    rwa [same] at found
  · exact placed.misses_iff used same known declared value

/-- An assignment in the initializer of its own variable is accepted, and misses. -/
theorem assignment_in_initializer_misses :
    ((Session.fresh .accepting 5 (.steady 0)).receive ⟨"\x7b var a = a = nil; \x7d", 20⟩).1
      = .failed [.runtime ⟨.undefinedVariable "a", 1⟩] := by
  cbv

end Lox
