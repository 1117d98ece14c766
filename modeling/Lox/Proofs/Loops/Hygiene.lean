import Lox.Proofs.Loops.Closures
import Lox.Proofs.Origin.Sessions
import Lox.Proofs.Scoping.Dispatch

/-!
# Loops are hygienic

What begins with `for` is read as the statement of a loop, and that statement does what the loop is
said to do (`ForLoop.gives_iff_runs`). A variable of its initializer lies in a frame of its own. The
analysis counts the blocks that the statement is made of and the evaluator opens a frame for each,
so the condition and the increment find the variable there in every round (`ForLoop.Hygienic`).

The two counts are those of the same tree: the analysis meets a loop wherever it stands in a program
(`Stmt.Occurs.uses`), and the scopes that it has around the condition and the increment are the
scope of the initializer and the blocks of the round.
-/

set_option autoImplicit false

namespace Lox

open Eval

/-! ## Loops in a program -/

/-- Whether a statement stands in another one, at any depth. -/
inductive Stmt.Occurs (t : Stmt) : Stmt → Prop
  | here : Occurs t t
  | block {body : List Stmt} {s : Stmt} (member : s ∈ body) (inner : Occurs t s) :
      Occurs t (.block body)
  | thenBranch {condition : Expr} {thenBranch : Stmt} {elseBranch : Option Stmt}
      (inner : Occurs t thenBranch) : Occurs t (.if condition thenBranch elseBranch)
  | elseBranch {condition : Expr} {thenBranch elseBranch : Stmt} (inner : Occurs t elseBranch) :
      Occurs t (.if condition thenBranch (some elseBranch))
  | body {condition : Expr} {body : Stmt} (inner : Occurs t body) : Occurs t (.while condition body)
  | function {declaration : FunctionDecl} {s : Stmt} (member : s ∈ declaration.body)
      (inner : Occurs t s) : Occurs t (.function declaration)
  | method {name : Name} {parent : Option Superclass} {methods : List FunctionDecl}
      {f : FunctionDecl} {s : Stmt} (of : f ∈ methods) (member : s ∈ f.body) (inner : Occurs t s) :
      Occurs t (.class name parent methods)

theorem Stmt.AllFormed.mem {ss : List Stmt} (formed : Stmt.AllFormed ss) {s : Stmt}
    (member : s ∈ ss) : s.Formed := by
  induction ss with
  | nil => exact absurd member List.not_mem_nil
  | cons first ss ih =>
    rcases List.mem_cons.mp member with rfl | later
    · exact formed.1
    · exact ih formed.2 later

theorem FunctionDecl.AllFormed.mem {fs : List FunctionDecl} (formed : FunctionDecl.AllFormed fs)
    {f : FunctionDecl} (member : f ∈ fs) : f.Formed := by
  induction fs with
  | nil => exact absurd member List.not_mem_nil
  | cons first fs ih =>
    rcases List.mem_cons.mp member with rfl | later
    · exact formed.1
    · exact ih formed.2 later

theorem FunctionDecl.Formed.body {f : FunctionDecl} (formed : f.Formed) : Stmt.AllFormed f.body := by
  cases f
  exact formed.2.2

/-- The uses of a member of a list are among those of the list. -/
theorem Stmt.uses_of_mem {s : Stmt} {ss : List Stmt} (member : s ∈ ss) (sites : List Site)
    (r : Resolver) : ∃ r', ∀ u ∈ s.uses sites r', u ∈ Stmt.usesOfAll sites ss r := by
  induction ss generalizing r with
  | nil => exact absurd member List.not_mem_nil
  | cons first ss ih =>
    rcases List.mem_cons.mp member with rfl | later
    · exact ⟨r, fun u used => List.mem_append_left _ used⟩
    · obtain ⟨r', inside⟩ := ih later (Resolver.statement first r)
      exact ⟨r', fun u used => List.mem_append_right _ (inside u used)⟩

theorem FunctionDecl.uses_of_mem {f : FunctionDecl} {fs : List FunctionDecl} (member : f ∈ fs)
    (sites : List Site) (r : Resolver) : ∃ context r',
      ∀ u ∈ f.uses (.receiver f :: sites) context r', u ∈ FunctionDecl.usesOfMethods sites fs r := by
  induction fs generalizing r with
  | nil => exact absurd member List.not_mem_nil
  | cons first fs ih =>
    rcases List.mem_cons.mp member with rfl | later
    · exact ⟨_, r, fun u used => List.mem_append_left _ used⟩
    · obtain ⟨context, r', inside⟩ := ih later _
      exact ⟨context, r', fun u used => List.mem_append_right _ (inside u used)⟩

theorem FunctionDecl.uses_of_body {f : FunctionDecl} {s : Stmt} (member : s ∈ f.body)
    (sites : List Site) (context : FunctionContext) (r : Resolver) :
    ∃ r', ∀ u ∈ s.uses (.function f :: sites) r', u ∈ f.uses sites context r := by
  cases f
  exact Stmt.uses_of_mem member _ _

/-- What occurs in a statement is met by the analysis there, in some state. -/
theorem Stmt.Occurs.uses {s t : Stmt} (occurs : t.Occurs s) (formed : s.Formed)
    (sites : List Site) (r : Resolver) :
    t.Formed ∧ ∃ sites' r', ∀ u ∈ t.uses sites' r', u ∈ s.uses sites r := by
  -- Along the way down, each layer adds its own surroundings to those of what it contains.
  induction occurs generalizing sites r with
  | here => exact ⟨formed, sites, r, fun _ => id⟩
  | block member inner ih =>
    obtain ⟨r₁, inside⟩ := Stmt.uses_of_mem member (.block _ :: sites) r.enter
    obtain ⟨formed, sites', r', nested⟩ := ih (Stmt.AllFormed.mem formed member) _ r₁
    exact ⟨formed, sites', r', fun u used => inside u (nested u used)⟩
  | thenBranch inner ih =>
    obtain ⟨formed, sites', r', nested⟩ := ih formed.1.1 sites (Resolver.expression _ r)
    exact ⟨formed, sites', r', fun u used =>
      List.mem_append_left _ (List.mem_append_right _ (nested u used))⟩
  | elseBranch inner ih =>
    obtain ⟨formed, sites', r', nested⟩ := ih formed.2.1 sites _
    exact ⟨formed, sites', r', fun u used => List.mem_append_right _ (nested u used)⟩
  | body inner ih =>
    obtain ⟨formed, sites', r', nested⟩ := ih formed.1 sites _
    exact ⟨formed, sites', r', fun u used => List.mem_append_right _ (nested u used)⟩
  | function member inner ih =>
    obtain ⟨r₁, inside⟩ := FunctionDecl.uses_of_body member sites .function _
    obtain ⟨formed, sites', r', nested⟩ := ih
      ((FunctionDecl.Formed.body formed).mem member) _ r₁
    exact ⟨formed, sites', r', fun u used => inside u (nested u used)⟩
  | @method name parent methods f s of member inner ih =>
    have body := (FunctionDecl.Formed.body (formed.2.mem of)).mem member
    cases parent with
    | none =>
      obtain ⟨context, r₁, methods⟩ := FunctionDecl.uses_of_mem of sites (r.enterClass name none)
      obtain ⟨r₂, inside⟩ := FunctionDecl.uses_of_body member (.receiver f :: sites) context r₁
      obtain ⟨formed, sites', r', nested⟩ := ih body _ r₂
      exact ⟨formed, sites', r', fun u used => methods u (inside u (nested u used))⟩
    | some above =>
      obtain ⟨context, r₁, methods⟩ := FunctionDecl.uses_of_mem of
        (.superclass name above methods :: sites) (r.enterClass name (some above))
      obtain ⟨r₂, inside⟩ := FunctionDecl.uses_of_body member _ context r₁
      obtain ⟨formed, sites', r', nested⟩ := ih body _ r₂
      exact ⟨formed, sites', r', fun u used =>
        List.mem_cons_of_mem _ (methods u (inside u (nested u used)))⟩

/-- What occurs in code that is made of certain tokens is made of them. -/
theorem Stmt.Occurs.from {o : Origin} {s t : Stmt} (occurs : t.Occurs s) (from_ : s.From o) :
    t.From o := by
  induction occurs with
  | here => exact from_
  | block member inner ih => exact ih (Stmt.allFrom_iff.mp from_ _ member)
  | thenBranch inner ih => exact ih from_.2.1.1
  | elseBranch inner ih => exact ih from_.2.2.1
  | body inner ih => exact ih from_.2.1
  | function member inner ih =>
    exact ih (Stmt.allFrom_iff.mp (FunctionDecl.From.body from_) _ member)
  | method of member inner ih =>
    have method := FunctionDecl.allFrom_iff.mp from_.2.2 _ of
    exact ih (Stmt.allFrom_iff.mp method.body _ member)

/-! ## The distances of a loop -/

namespace ForLoop

/-- What is evaluated at a moment of a round. -/
def expression? (l : ForLoop) : Moment → Option Expr
  | .test => some l.test
  | .body => none
  | .increment => l.increment

/-- A variable that the initializer declares is as many scopes out of the condition and the increment
as the round has opened frames. -/
theorem distance_of_initialized {l : ForLoop} {name : Name} {initializer : Option Expr}
    (init : l.initializer = some (.var name initializer)) (formed : l.statement.Formed)
    (sites : List Site) (r : Resolver) {moment : Moment} {e : Expr}
    (evaluated : l.expression? moment = some e) {access : Access} (member : access ∈ e.accesses)
    (named : access.name = name.lexeme) :
    ∃ u ∈ l.statement.uses sites r, u.access = access ∧ u.distance = some (l.depth moment) := by
  have whole : l.statement = .block [.var name initializer, .while l.test l.round] := by
    rw [statement_eq, init]
    rfl
  rw [whole] at formed ⊢
  obtain ⟨variable_, ⟨round_, -⟩, -⟩ := formed
  let inside := Resolver.statement (.var name initializer) r.enter
  have scopes : inside.scopes = [(name.lexeme, true), (name.lexeme, false)] :: r.scopes :=
    Resolver.scopes_statement (.var name initializer) variable_ r.enter
  have declares : Scope.declares [(name.lexeme, true), (name.lexeme, false)] access.name = true := by
    rw [named]
    simp [Scope.declares, Scope.ready?]
  cases moment with
  | body => cases evaluated
  | test =>
    -- The condition stands in the scope of the loop itself.
    obtain rfl := Option.some.inj evaluated
    let around : List Site := .block [.var name initializer, .while l.test l.round] :: sites
    refine ⟨⟨access, around, inside.scopes, none⟩, ?_, rfl, ?_⟩
    · exact List.mem_append_right _ (List.mem_append_left _ (List.mem_append_left _
        (List.mem_map_of_mem member)))
    · unfold Use.distance
      rw [scopes, List.findIdx?_cons, if_pos declares]
      rfl
  | increment =>
    have present : l.increment = some e := evaluated
    -- The increment stands in the block of the round, whose scope declares nothing.
    have block : l.round = .block [l.body, .expression e] := by
      unfold round
      rw [present]
    have depth : l.depth .increment = 1 := by
      unfold depth
      rw [present]
      rfl
    rw [block] at round_ ⊢
    obtain ⟨body, -⟩ := round_
    let inner := Resolver.statement l.body (Resolver.expression l.test inside).enter
    have scopes' : inner.scopes = [] :: inside.scopes := by
      rw [Resolver.scopes_statement l.body body, Resolver.scopesAfter_of_plain l.plain]
      exact congrArg ([] :: ·) (Resolver.scopes_expression l.test inside)
    let around : List Site := .block [l.body, .expression e] ::
      .block [.var name initializer, .while l.test (.block [l.body, .expression e])] :: sites
    refine ⟨⟨access, around, inner.scopes, none⟩, ?_, rfl, ?_⟩
    · refine List.mem_append_right _ (List.mem_append_left _ (List.mem_append_right _ ?_))
      exact List.mem_append_right _ (List.mem_append_left _ (List.mem_map_of_mem member))
    · unfold Use.distance
      rw [scopes', scopes, List.findIdx?_cons, if_neg (by simp [Scope.declares, Scope.ready?]),
        List.findIdx?_cons, if_pos declares, depth]
      rfl

/-! ## Loops of a source -/

/-- How the tokens of a loop divide into its parts. -/
inductive Derived (nearest : Prop) (isOpen : Bool) : Grammar.Rule ForLoop
  | intro {t p z r : Token} {us vs ws xs : List Token} {n n₁ n₂ n₃ n₄ : Nat} {l : ForLoop}
      (word : t.kind = .keyword .for) (opening : p.kind = .punctuation .leftParen)
      (first : Grammar.ForInitializer us n l.initializer n₁)
      (test : Grammar.Maybe Grammar.Expression vs n₁ l.condition n₂)
      (semicolon : z.kind = .punctuation .semicolon)
      (step : Grammar.Maybe Grammar.Expression ws n₂ l.increment n₃)
      (closing : r.kind = .punctuation .rightParen)
      (inner : Grammar.Statement nearest isOpen xs n₃ l.body n₄) :
      Derived nearest isOpen (t :: p :: (us ++ (vs ++ z :: (ws ++ r :: xs)))) n l n₄

theorem beginsLoop_of_derived {us : List Token} {n k : Nat} {initializer : Option Stmt}
    (it : Grammar.ForInitializer us n initializer k) : ∀ s ∈ initializer, s.beginsLoop = true := by
  rintro s present
  cases it with
  | none => cases present
  | var it =>
    cases present
    cases it
    rfl
  | expression it =>
    cases present
    cases it
    rfl

/-- A statement is no declaration. -/
theorem plain_of_derived {nearest : Prop} {isOpen : Bool} {us : List Token} {n k : Nat} {s : Stmt}
    (it : Grammar.Statement nearest isOpen us n s k) : s.isPlain = true := by
  cases it with
  | expression it =>
    cases it
    rfl
  | @«for» _ _ _ _ _ _ _ _ _ _ _ _ _ _ initializer =>
    cases initializer <;> rfl
  | _ => rfl

/-- What begins with the word `for` is read as the statement of a loop. -/
theorem exists_derived {nearest : Prop} {isOpen : Bool} {t : Token} {ts : List Token} {n k : Nat}
    {s : Stmt} (word : t.kind = .keyword .for)
    (it : Grammar.Statement nearest isOpen (t :: ts) n s k) :
    ∃ l : ForLoop, l.statement = s ∧ Derived nearest isOpen (t :: ts) n l k := by
  generalize same : t :: ts = us at it ⊢
  cases it with
  | «for» word opening first test semicolon step closing inner =>
    exact ⟨⟨_, _, _, _, beginsLoop_of_derived first, plain_of_derived inner⟩, rfl,
      .intro word opening first test semicolon step closing inner⟩
  | expression it =>
    obtain ⟨t', rest, split, begins⟩ := it.first
    obtain ⟨rfl, -⟩ := List.cons.inj (same.trans split)
    rw [word] at begins
    cases begins
  | print word' | «while» word' | «if» word' | ifElse word' | block word' | «return» word' =>
    obtain ⟨rfl, -⟩ := List.cons.inj same
    rw [word] at word'
    cases word'

end ForLoop

namespace Session

/-- While ids last, the table has the distance of every use that was read so far. -/
theorem distances_of_used (policy : Sink.Policy) (maxDepth : Nat) (clock : Clock) (inputs : List Input)
    (plenty : (fresh policy maxDepth clock).idsTaken inputs ≤ Parser.idCount) {u : Use}
    (used : UsedIn ((fresh policy maxDepth clock).programs inputs) u) :
    ((fresh policy maxDepth clock).after inputs).machine.distances[u.access.id]? = u.distance := by
  have start := consistent_fresh True policy maxDepth clock
  have end_ := start.after inputs fun _ => by rwa [Nat.zero_add]
  rw [List.nil_append] at end_
  exact end_.sound.learned u used trivial

end Session

/-- What holds of a loop whose initializer declares a variable, from where its rounds begin. -/
structure ForLoop.Hygienic (o : Origin) (l : ForLoop) (name : String) (start : Machine) : Prop where
  /-- At every moment of every round the same frame lies outside the blocks of the round, and binds
  that variable alone. -/
  frame {moment : Moment} {m m' : Machine} : l.Passes start moment m → m.Inside o 0 m' →
    start.Inside o (l.depth moment) m' ∧
      ∀ key, m'.heap.binds start.current key = (key == name)
  /-- A use as many links inside finds the variable there. -/
  place {moment : Moment} {m m' : Machine} {id : NodeId} : l.Passes start moment m →
    m.Inside o 0 m' → m'.distances[id]? = some (l.depth moment) →
      m'.place? id name = some start.current
  /-- The block of a round binds nothing, whatever names the body declares. -/
  blank {moment : Moment} {m : Machine} : l.Passes start moment m → l.depth moment = 1 →
    ∀ key, m.heap.binds m.current key = false
  /-- Functions and classes that the body declares, in whichever round, have that frame around them,
  then and later. -/
  shares {m m' m'' : Machine} {s : Stmt} {declared : Name} : l.Passes start .body m →
    l.body.Gets m s m' → s.callable? = some declared →
    Gives (execute · s) m' (.ok .normal m'') →
      ∃ value, m''.heap.read? m'.current declared.lexeme = some value ∧
        ∀ (growing : Address → Prop) (h : Heap), m''.heap.Grows growing h →
          value.LiesIn h start.current

/-- A loop runs its rounds in a new frame. -/
theorem ForLoop.hygienic {o : Origin} {l : ForLoop} {m start : Machine} {name : Name}
    {initializer : Option Expr} (from_ : l.statement.From o) (code : m.heap.From o)
    (init : l.initializer = some (.var name initializer))
    (ran : Gives (execute · (.var name initializer)) m.opened (.ok .normal start)) :
    m.heap.frame? start.current = none ∧ m.Inside o 1 start ∧
      l.Hygienic o name.lexeme start := by
  have parts := ForLoop.From.of_statement from_
  obtain ⟨inside, fresh, binds⟩ := initialized (parts.initializer _ init) code ran
  have bound : start.heap.binds start.current name.lexeme = true := by
    rw [binds]
    exact beq_self_eq_true _
  obtain ⟨frame, found, -⟩ := Heap.binds_eq_true.mp bound
  refine ⟨fresh ▸ Heap.frame?_size m.heap, inside, ?_, ?_, ?_, ?_⟩
  · intro moment m m' passes later
    have reached := (passes.inside parts inside.code).trans later
    rw [Nat.zero_add] at reached
    exact ⟨reached, fun key => (reached.grows.binds_eq found key).trans (binds key)⟩
  · intro moment m m' id passes later known
    have reached := (passes.inside parts inside.code).trans later
    rw [Nat.zero_add] at reached
    exact reached.place? bound known
  · intro moment m passes opened
    obtain ⟨-, -, blank⟩ := passes.blank parts inside.code opened
    exact blank
  · intro m m' m'' s declared passes gets callable gives
    exact passes.declares parts inside.code found gets callable gives

/-- While ids last, the table has one distance for all uses of an access. -/
theorem Session.distances_at_uses (policy : Sink.Policy) (maxDepth : Nat) (clock : Clock)
    (inputs : List Input) {u : Use}
    (used : UsedIn ((fresh policy maxDepth clock).programs inputs) u) :
    EveryUse (fun access m _ => access = u.access →
        (fresh policy maxDepth clock).idsTaken inputs ≤ Parser.idCount →
        m.distances[u.access.id]? = u.distance)
      ((fresh policy maxDepth clock).trace [] inputs) := by
  refine (located_trace policy maxDepth clock inputs).mono fun access m earlier located => ?_
  rintro rfl plenty
  obtain ⟨u', used', same, recorded, -⟩ := located
  -- The table that the session is left with has the same entry for both uses.
  have here := distances_of_used policy maxDepth clock inputs plenty used
  have there := distances_of_used policy maxDepth clock inputs plenty used'
  have found := recorded plenty
  rw [same] at there found
  exact found.trans (there.symm.trans here)

/-- **Loops are faithful and hygienic.** What begins with the word `for` is read as the statement of
a loop with the parts that the grammar has. That statement gives a result if and only if the loop
ends so: the initializer, if there is one, is executed once in a new frame; then the condition, or
`true`, is evaluated before each round, and behind the body the increment, but where the body returns
or fails, and this ends the loop at once. If the initializer declares a variable, the frame is the
same in all rounds, nothing else is declared there or in the block of a round, and whatever functions
and classes the body declares lie inside it. Wherever in a program such a loop stands, the analysis
finds the variable, where it occurs in the condition or in the increment, as many scopes out as the
frame lies, and while ids last this is what the table has whenever a session looks one up. -/
theorem for_loops_are_faithful_and_hygienic (policy : Sink.Policy) (maxDepth : Nat) (clock : Clock)
    (inputs : List Input) :
    (∀ (nearest : Prop) (isOpen : Bool) (t : Token) (ts : List Token) (n k : Nat) (s : Stmt),
      t.kind = .keyword .for → Grammar.Statement nearest isOpen (t :: ts) n s k →
        ∃ l : ForLoop, l.statement = s ∧ ForLoop.Derived nearest isOpen (t :: ts) n l k) ∧
    (∀ (l : ForLoop) (m : Machine) (result : EStateM.Result Stop Machine Completion),
      Gives (execute · l.statement) m result ↔ l.Runs m result) ∧
    (∀ (o : Origin) (l : ForLoop) (m start : Machine) (name : Name) (initializer : Option Expr),
      l.statement.From o → m.heap.From o → l.initializer = some (.var name initializer) →
      Gives (execute · (.var name initializer)) m.opened (.ok .normal start) →
        m.heap.frame? start.current = none ∧ m.Inside o 1 start ∧
          l.Hygienic o name.lexeme start) ∧
    (let session := Session.fresh policy maxDepth clock;
      (session.after inputs).machine.heap.From (session.origin inputs) ∧
      ∀ program ∈ session.programs inputs, ∀ s ∈ program.statements,
        ∀ l : ForLoop, l.statement.Occurs s → l.statement.From (session.origin inputs) ∧
          ∀ name initializer, l.initializer = some (.var name initializer) →
            ∀ moment e access, l.expression? moment = some e → access ∈ e.accesses →
              access.name = name.lexeme →
                (∃ u ∈ programUses program.statements,
                  u.access = access ∧ u.distance = some (l.depth moment)) ∧
                EveryUse (fun used m _ => used = access →
                    session.idsTaken inputs ≤ Parser.idCount →
                    m.distances[access.id]? = some (l.depth moment))
                  (session.trace [] inputs)) := by
  refine ⟨fun _ _ _ _ _ _ _ word it => ForLoop.exists_derived word it, ForLoop.gives_iff_runs,
    fun _ _ _ _ _ _ from_ code init ran => ForLoop.hygienic from_ code init ran, ?_⟩
  intro session
  have tokens : ∀ i ∈ inputs, ∀ t ∈ (scan i.source).1, (session.origin inputs).tokens t :=
    fun i member t inside => ⟨i.source, List.mem_map_of_mem member, inside⟩
  refine ⟨Session.from_after (Session.from_fresh _ policy maxDepth clock) tokens id, ?_⟩
  intro program member s inside l occurs
  refine ⟨occurs.from (Session.from_programs tokens id program member s inside), ?_⟩
  intro name initializer init moment e access evaluated used named
  -- The loop is met by the analysis somewhere in its program.
  obtain ⟨lo, hi, accepted⟩ := Session.accepted_of_mem member
  have formed := Stmt.AllFormed.mem (accepted.declared.formed trivial) inside
  obtain ⟨r, own⟩ := Stmt.uses_of_mem inside [] .initial
  obtain ⟨formed', sites, r', nested⟩ := occurs.uses formed [] r
  obtain ⟨u, here, rfl, distance⟩ :=
    ForLoop.distance_of_initialized init formed' sites r' evaluated used named
  have all : u ∈ programUses program.statements := own u (nested u here)
  refine ⟨⟨u, all, rfl, distance⟩, ?_⟩
  rw [← distance]
  exact Session.distances_at_uses policy maxDepth clock inputs ⟨program, member, all⟩

/-! ## When ids start over -/

/-- An input that declares a function with a loop; its condition is numbered 0. -/
def Input.looping : Input :=
  ⟨"fun g() \x7b for (var i = nil; !i; i = true) print \"kept\"; \x7d", 20⟩

/-- An input whose second use is numbered 0 once all ids but one were given out. -/
def Input.overtaking : Input := ⟨"\x7b var x; x; \x7b \x7b x; \x7d \x7d x; \x7d", 20⟩

/-- An input that calls the function with the loop. -/
def Input.running : Input := ⟨"g();", 20⟩

/-- Once ids start over, another program's distance may replace that of a condition: the frame of the
loop is the current one, but the variable is looked up two links further out. -/
theorem renumbering_misleads_condition :
    (((Session.fresh .accepting 5 (.steady 0)).after [.looping]).receive .running).1 = .finished ∧
    (((Session.fresh .accepting 5 (.steady 0)).after
        (.looping :: (List.replicate (Parser.idCount - 3) .refused ++ [.overtaking]))
      ).receive .running).1 = .failed [.runtime ⟨.undefinedVariable "i", 1⟩] := by
  -- Each refused input takes one id, so all ids but the last are gone when the next program comes.
  have nextId : ((Session.fresh .accepting 5 (.steady 0)).receive .looping).2.nextId = 2 := by
    decide +kernel
  have refused := Session.after_refused _
    (by rw [nextId]; decide) (Parser.idCount - 3)
  have last : (2 + (Parser.idCount - 3)) % Parser.idCount = 4294967295 := by decide
  rw [nextId, last] at refused
  constructor
  · decide +kernel
  · rw [Session.after_cons, Session.after_concat, refused]
    decide +kernel

end Lox
