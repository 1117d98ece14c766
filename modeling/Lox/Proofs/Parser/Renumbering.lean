import Lox.Proofs.Parser.Joining
import Lox.Proofs.Parser.Formation

/-!
# Parsing with other ids

Where the ids begin makes no difference to what is read: the same rules apply and the same faults
are found. Two cursors stand at the same place of their tokens, and each has given out as many ids
as the other, so the next id of the one stands for the next id of the other. Every rule moves both
alike, whether it succeeds or fails, and where it goes on after a fault.

The relation also allows for other lines, as relabelled tokens have them. It is closed under
sequencing, and there is one fact for each rule of the grammar.
-/

set_option autoImplicit false

namespace Lox

/-- A relabelling under which the ids from one count on stand for the ids from another. -/
structure Renumbering extends Relabelling where
  first : Nat
  second : Nat
  numbered : Cursor.Numbered toRelabelling first second

/-- An id moved by `k`, round the end of the ids. -/
def turned (k id : Nat) : Nat :=
  if id < Parser.idCount then (id + k) % Parser.idCount else id

theorem turned_injective (k a b : Nat) (same : turned k a = turned k b) : a = b := by
  unfold turned Parser.idCount at same
  split at same <;> split at same <;> omega

theorem turned_mod (k n j : Nat) :
    turned k ((n + j) % Parser.idCount) = ((n + k) % Parser.idCount + j) % Parser.idCount := by
  unfold turned Parser.idCount
  split <;> omega

/-- Moves all ids on by `k`, those at the end round to the beginning. -/
def Renumbering.rotation (first k : Nat) : Renumbering where
  toRelabelling := .ofIds (turned k) (turned_injective k)
  first := first
  second := (first + k) % Parser.idCount
  numbered := turned_mod k first

def SyntaxError.relabel (ρ : Relabelling) (e : SyntaxError) : SyntaxError :=
  { e with line := ρ.line e.line }

namespace Cursor

variable (σ : Renumbering)

/-- Two cursors stand at the same place, and as many ids were given out. -/
structure Renumbered (c c' : Cursor) : Prop where
  current : c'.current = c.current.relabel σ.toRelabelling
  rest : c'.rest = c.rest.map (Token.relabel σ.toRelabelling)
  taken : ∃ j, c.nextId = σ.first + j ∧ c'.nextId = σ.second + j

namespace Renumbered

variable {σ} {c c' : Cursor}

theorem kind (same : Renumbered σ c c') : c'.current.kind = c.current.kind := by
  rw [same.current]
  rfl

theorem atEnd (same : Renumbered σ c c') : c'.atEnd = c.atEnd := by
  unfold Cursor.atEnd
  rw [same.kind, same.rest, List.isEmpty_map]

theorem isAt (same : Renumbered σ c c') (kind : Kind) : c'.isAt kind = c.isAt kind := by
  unfold Cursor.isAt
  rw [same.atEnd, same.kind]

theorem moved (same : Renumbered σ c c') : Renumbered σ c.moved c'.moved := by
  have ahead := same.rest
  unfold Cursor.moved
  rw [same.kind]
  split
  · exact same
  · cases here : c.rest with
    | nil =>
      rw [here] at ahead
      rw [ahead]
      exact same
    | cons next rest =>
      rw [here] at ahead
      rw [ahead]
      exact ⟨rfl, rfl, same.taken⟩

/-- Which id comes next is relabelled. -/
theorem freshId (same : Renumbered σ c c') :
    c'.nextId % Parser.idCount = σ.id (c.nextId % Parser.idCount) ∧
      Renumbered σ { c with nextId := c.nextId + 1 } { c' with nextId := c'.nextId + 1 } := by
  obtain ⟨j, before, before'⟩ := same.taken
  constructor
  · rw [before, before', σ.numbered j]
  · exact ⟨same.current, same.rest, j + 1, congrArg (· + 1) before, congrArg (· + 1) before'⟩

theorem resume (ρ : Relabelling) (previous current : Token) (rest : List Token) :
    Cursor.resume (previous.relabel ρ) (current.relabel ρ) (rest.map (Token.relabel ρ))
      = ((Cursor.resume previous current rest).1.relabel ρ,
          (Cursor.resume previous current rest).2.map (Token.relabel ρ)) := by
  induction rest generalizing previous current with
  | nil => rfl
  | cons next rest ih =>
    have kinds : ∀ t : Token, (t.relabel ρ).kind = t.kind := fun _ => rfl
    rw [List.map_cons, Cursor.resume, Cursor.resume, kinds, kinds]
    split
    · rfl
    · exact ih current next

/-- After a fault both cursors go on at the same place. -/
theorem synchronized (same : Renumbered σ c c') :
    Renumbered σ c.synchronized c'.synchronized := by
  have next := same.moved
  unfold Cursor.synchronized
  dsimp only
  rw [same.atEnd]
  split
  · exact same
  · rw [same.current, next.current, next.rest, resume]
    exact ⟨rfl, rfl, same.taken⟩

end Renumbered

end Cursor

namespace Parser

variable {α β γ : Type} {σ : Renumbering} {g : α → α} {h : β → β} {p p' : Parser α}
  {f f' : α → Parser β}

/-- What `p` reads at one cursor, `p'` reads at the other, with the ids there. -/
def Renumbers (σ : Renumbering) (g : α → α) (p p' : Parser α) : Prop :=
  ∀ c c', c.Renumbered σ c' →
    match p c with
    | .ok a d => ∃ d', p' c' = .ok (g a) d' ∧ d.Renumbered σ d'
    | .error e d => ∃ d', p' c' = .error (e.relabel σ.toRelabelling) d' ∧ d.Renumbered σ d'

/-! ## Sequencing -/

theorem Renumbers.bind (first : Renumbers σ g p p')
    (second : ∀ a, Renumbers σ h (f a) (f' (g a))) : Renumbers σ h (p >>= f) (p' >>= f') := by
  intro c c' same
  have here := first c c' same
  rw [bind_eq, bind_eq]
  cases ends : p c with
  | ok a d =>
    rw [ends] at here
    obtain ⟨d', ends', same'⟩ := here
    rw [ends']
    exact second a d d' same'
  | error e d =>
    rw [ends] at here
    obtain ⟨d', ends', same'⟩ := here
    rw [ends']
    exact ⟨d', rfl, same'⟩

theorem renumbers_pure {a a' : α} (same : g a = a') : Renumbers σ g (pure a) (pure a') :=
  fun _ c' meets => ⟨c', by rw [same]; rfl, meets⟩

theorem renumbers_fail (cause : SyntaxError.Cause) : Renumbers σ g (fail cause) (fail cause) := by
  intro c c' same
  refine ⟨c', ?_, same⟩
  unfold fail
  rw [same.current]
  rfl

theorem renumbers_throw (e : SyntaxError) :
    Renumbers σ g (throw e) (throw (e.relabel σ.toRelabelling)) :=
  fun _ c' same => ⟨c', rfl, same⟩

/-! ## The moves of the cursor -/

theorem renumbers_peek : Renumbers σ (Token.relabel σ.toRelabelling) peek peek := by
  intro c c' same
  exact ⟨c', by rw [← same.current]; rfl, same⟩

theorem renumbers_atEnd : Renumbers σ id atEnd atEnd := by
  intro c c' same
  exact ⟨c', by rw [atEnd, same.atEnd]; rfl, same⟩

theorem renumbers_isAt (kind : Kind) : Renumbers σ id (isAt kind) (isAt kind) := by
  intro c c' same
  exact ⟨c', by rw [isAt, same.isAt]; rfl, same⟩

theorem renumbers_advance : Renumbers σ id advance advance :=
  fun _ c' same => ⟨c'.moved, rfl, same.moved⟩

theorem renumbers_accept (kind : Kind) : Renumbers σ id (accept kind) (accept kind) := by
  intro c c' same
  unfold accept
  rw [same.isAt]
  cases c.isAt kind with
  | true => exact ⟨c'.moved, rfl, same.moved⟩
  | false => exact ⟨c', rfl, same⟩

theorem renumbers_accept? (kind : Kind) :
    Renumbers σ (Option.map (Token.relabel σ.toRelabelling)) (accept? kind) (accept? kind) := by
  intro c c' same
  unfold accept?
  rw [same.isAt, same.current]
  cases c.isAt kind with
  | true => exact ⟨c'.moved, rfl, same.moved⟩
  | false => exact ⟨c', rfl, same⟩

theorem renumbers_acceptAs? (reading : Kind → Option γ) :
    Renumbers σ (Option.map (relabelSign σ.toRelabelling)) (acceptAs? reading)
      (acceptAs? reading) := by
  intro c c' same
  unfold acceptAs?
  rw [same.atEnd, same.kind, same.current]
  cases (if c.atEnd then none else reading c.current.kind) with
  | some a => exact ⟨c'.moved, rfl, same.moved⟩
  | none => exact ⟨c', rfl, same⟩

theorem renumbers_expect (kind : Kind) (what : String) :
    Renumbers σ (Token.relabel σ.toRelabelling) (expect kind what) (expect kind what) := by
  intro c c' same
  unfold expect
  rw [same.isAt, same.current]
  cases c.isAt kind with
  | true => exact ⟨c'.moved, rfl, same.moved⟩
  | false => exact ⟨c', rfl, same⟩

theorem renumbers_name (what : String) :
    Renumbers σ (Name.relabel σ.toRelabelling) (name what) (name what) :=
  (renumbers_expect _ _).bind fun _ => renumbers_pure rfl

theorem renumbers_freshId : Renumbers σ σ.id freshId freshId := by
  intro c c' same
  obtain ⟨next, same'⟩ := same.freshId
  refine ⟨{ c' with nextId := c'.nextId + 1 }, ?_, same'⟩
  rw [freshId, next]

theorem Renumbers.recovering (renumbers : Renumbers σ g p p') :
    Renumbers σ g (recovering p) (Parser.recovering p') := by
  intro c c' same
  have here := renumbers c c' same
  unfold Parser.recovering
  cases ends : p c with
  | ok a d =>
    rw [ends] at here
    obtain ⟨d', ends', same'⟩ := here
    rw [ends']
    exact ⟨d', rfl, same'⟩
  | error e d =>
    rw [ends] at here
    obtain ⟨d', ends', same'⟩ := here
    rw [ends']
    exact ⟨d'.synchronized, rfl, same'.synchronized⟩

/-! ## Expressions -/

section

variable {expr expr' : Parser Expr}

theorem renumbers_argumentsAfter (inner : Renumbers σ (Expr.relabel σ.toRelabelling) expr expr')
    (n : Nat) (read : List Expr) :
    Renumbers σ (List.map (Expr.relabel σ.toRelabelling)) (argumentsAfter expr n read)
      (argumentsAfter expr' n (read.map (Expr.relabel σ.toRelabelling))) := by
  induction n generalizing read with
  | zero => exact renumbers_pure List.map_reverse
  | succ n ih =>
    unfold argumentsAfter
    rw [List.length_map]
    split
    · exact renumbers_fail _
    · refine inner.bind fun argument => (renumbers_accept _).bind fun more => ?_
      cases more with
      | true => exact ih (argument :: read)
      | false => exact renumbers_pure (by rw [List.map_reverse, List.map_cons])

theorem renumbers_arguments (inner : Renumbers σ (Expr.relabel σ.toRelabelling) expr expr')
    (n : Nat) :
    Renumbers σ (List.map (Expr.relabel σ.toRelabelling)) (arguments expr n)
      (arguments expr' n) := by
  unfold arguments
  refine (renumbers_isAt _).bind fun none => ?_
  cases none with
  | true => exact renumbers_pure rfl
  | false => exact renumbers_argumentsAfter inner n []

theorem renumbers_primary (inner : Renumbers σ (Expr.relabel σ.toRelabelling) expr expr') :
    Renumbers σ (Expr.relabel σ.toRelabelling) (primary expr) (primary expr') := by
  unfold primary
  refine renumbers_peek.bind fun token => ?_
  obtain ⟨kind, lexeme, line⟩ := token
  cases kind with
  | number | string => exact renumbers_advance.bind fun _ => renumbers_pure rfl
  | identifier =>
    refine renumbers_atEnd.bind fun ended => ?_
    cases ended with
    | true => exact renumbers_fail _
    | false =>
      exact renumbers_advance.bind fun _ => renumbers_freshId.bind fun id => renumbers_pure rfl
  | eof =>
    refine renumbers_atEnd.bind fun ended => ?_
    cases ended <;> exact renumbers_fail _
  | keyword word =>
    refine renumbers_atEnd.bind fun ended => ?_
    cases ended with
    | true => exact renumbers_fail _
    | false =>
      cases word with
      | false | true | nil => exact renumbers_advance.bind fun _ => renumbers_pure rfl
      | this =>
        exact renumbers_advance.bind fun _ => renumbers_freshId.bind fun id => renumbers_pure rfl
      | super =>
        refine renumbers_advance.bind fun _ => (renumbers_expect _ _).bind fun _ => ?_
        refine (renumbers_name _).bind fun method => ?_
        exact renumbers_freshId.bind fun id => renumbers_pure rfl
      | and | «class» | «else» | «fun» | «for» | «if» | or | print | «return» | var | «while» =>
        exact renumbers_fail _
  | punctuation mark =>
    refine renumbers_atEnd.bind fun ended => ?_
    cases ended with
    | true => exact renumbers_fail _
    | false =>
      cases mark with
      | leftParen =>
        refine renumbers_advance.bind fun _ => inner.bind fun e => ?_
        exact (renumbers_expect _ _).bind fun _ => renumbers_pure rfl
      | rightParen | leftBrace | rightBrace | comma | dot | minus | plus | semicolon | slash | star
      | bang | bangEqual | equal | equalEqual | greater | greaterEqual | less | lessEqual =>
        exact renumbers_fail _

theorem renumbers_suffixes (inner : Renumbers σ (Expr.relabel σ.toRelabelling) expr expr')
    (n : Nat) (left : Expr) :
    Renumbers σ (Expr.relabel σ.toRelabelling) (suffixes expr n left)
      (suffixes expr' n (left.relabel σ.toRelabelling)) := by
  induction n generalizing left with
  | zero => exact renumbers_pure rfl
  | succ n ih =>
    unfold suffixes
    refine (renumbers_accept _).bind fun calls => ?_
    cases calls with
    | true =>
      refine (renumbers_arguments inner n).bind fun values => ?_
      refine (renumbers_expect _ _).bind fun close => ?_
      have call := ih (.call left values close.line)
      rw [Expr.relabel, Expr.relabelAll_eq_map] at call
      exact call
    | false =>
      refine (renumbers_accept _).bind fun gets => ?_
      cases gets with
      | true => exact (renumbers_name _).bind fun property => ih (.get left property)
      | false => exact renumbers_pure rfl

theorem renumbers_signs (n : Nat) (read : List (UnaryOp × Nat)) :
    Renumbers σ (List.map (relabelSign σ.toRelabelling)) (signs n read)
      (signs n (read.map (relabelSign σ.toRelabelling))) := by
  induction n generalizing read with
  | zero => exact renumbers_pure rfl
  | succ n ih =>
    unfold signs
    refine (renumbers_acceptAs? _).bind fun sign => ?_
    cases sign with
    | some sign => exact ih (sign :: read)
    | none => exact renumbers_pure rfl

theorem renumbers_unary (inner : Renumbers σ (Expr.relabel σ.toRelabelling) expr expr') (n : Nat) :
    Renumbers σ (Expr.relabel σ.toRelabelling) (unary expr n) (unary expr' n) := by
  unfold unary
  refine (renumbers_signs n []).bind fun operators => ?_
  refine (renumbers_primary inner).bind fun operand => ?_
  refine (renumbers_suffixes inner n operand).bind fun whole => ?_
  exact renumbers_pure (relabel_signs _ operators whole)

theorem renumbers_chain (level : Level) {operand operand' : Parser Expr}
    (inner : Renumbers σ (Expr.relabel σ.toRelabelling) operand operand') (n : Nat) (left : Expr) :
    Renumbers σ (Expr.relabel σ.toRelabelling) (chain level operand n left)
      (chain level operand' n (left.relabel σ.toRelabelling)) := by
  induction n generalizing left with
  | zero => exact renumbers_pure rfl
  | succ n ih =>
    unfold chain
    refine (renumbers_acceptAs? _).bind fun found => ?_
    cases found with
    | none => exact renumbers_pure rfl
    | some found =>
      refine inner.bind fun right => ?_
      have built := ih (found.1.build left right found.2)
      rw [relabel_build] at built
      exact built

theorem renumbers_levels (inner : Renumbers σ (Expr.relabel σ.toRelabelling) expr expr') (n : Nat)
    (ls : List Level) :
    Renumbers σ (Expr.relabel σ.toRelabelling) (levels expr n ls) (levels expr' n ls) := by
  induction ls with
  | nil => exact renumbers_unary inner n
  | cons level tighter ih => exact ih.bind fun left => renumbers_chain level ih n left

theorem renumbers_assignment (inner : Renumbers σ (Expr.relabel σ.toRelabelling) expr expr')
    (n : Nat) :
    Renumbers σ (Expr.relabel σ.toRelabelling) (assignment expr n) (assignment expr' n) := by
  unfold assignment
  refine (renumbers_levels inner n _).bind fun target => ?_
  refine (renumbers_accept? _).bind fun equals => ?_
  cases equals with
  | none => exact renumbers_pure rfl
  | some equals =>
    refine inner.bind fun value => ?_
    rw [relabel_assigned?]
    cases assigned? target value with
    | none => exact renumbers_throw _
    | some e => exact renumbers_pure rfl

end

/-- **Expressions** are read the same wherever the ids begin. -/
theorem renumbers_expression (n : Nat) :
    Renumbers σ (Expr.relabel σ.toRelabelling) (expression n) (expression n) := by
  induction n with
  | zero => exact renumbers_fail _
  | succ n ih => exact renumbers_assignment ih n

/-! ## Statements -/

section

variable {expr expr' : Parser Expr} {decl decl' stmt stmt' : Parser Stmt}

theorem renumbers_blockAfter (inner : Renumbers σ (Stmt.relabel σ.toRelabelling) decl decl')
    (n : Nat) (read : List Stmt) :
    Renumbers σ (List.map (Stmt.relabel σ.toRelabelling)) (blockAfter decl n read)
      (blockAfter decl' n (read.map (Stmt.relabel σ.toRelabelling))) := by
  induction n generalizing read with
  | zero => exact (renumbers_expect _ _).bind fun _ => renumbers_pure List.map_reverse
  | succ n ih =>
    unfold blockAfter
    refine (renumbers_isAt _).bind fun closed => renumbers_atEnd.bind fun ended => ?_
    rw [id_eq, id_eq]
    cases closed || ended with
    | true => exact (renumbers_expect _ _).bind fun _ => renumbers_pure List.map_reverse
    | false => exact inner.bind fun stmt => ih (stmt :: read)

theorem renumbers_block (inner : Renumbers σ (Stmt.relabel σ.toRelabelling) decl decl') (n : Nat) :
    Renumbers σ (List.map (Stmt.relabel σ.toRelabelling)) (block decl n) (block decl' n) :=
  renumbers_blockAfter inner n []

theorem renumbers_parametersAfter (n : Nat) (read : List Name) :
    Renumbers σ (List.map (Name.relabel σ.toRelabelling)) (parametersAfter n read)
      (parametersAfter n (read.map (Name.relabel σ.toRelabelling))) := by
  induction n generalizing read with
  | zero => exact renumbers_pure List.map_reverse
  | succ n ih =>
    unfold parametersAfter
    rw [List.length_map]
    split
    · exact renumbers_fail _
    · refine (renumbers_name _).bind fun param => (renumbers_accept _).bind fun more => ?_
      cases more with
      | true => exact ih (param :: read)
      | false => exact renumbers_pure (by rw [List.map_reverse, List.map_cons])

theorem renumbers_parameters (n : Nat) :
    Renumbers σ (List.map (Name.relabel σ.toRelabelling)) (parameters n) (parameters n) := by
  unfold parameters
  refine (renumbers_isAt _).bind fun none => ?_
  cases none with
  | true => exact renumbers_pure rfl
  | false => exact renumbers_parametersAfter n []

theorem renumbers_function (inner : Renumbers σ (Stmt.relabel σ.toRelabelling) decl decl')
    (n : Nat) (what : String) :
    Renumbers σ (FunctionDecl.relabel σ.toRelabelling) (function decl n what)
      (function decl' n what) := by
  unfold function
  refine (renumbers_name _).bind fun name => (renumbers_expect _ _).bind fun _ => ?_
  refine (renumbers_parameters n).bind fun params => (renumbers_expect _ _).bind fun _ => ?_
  refine (renumbers_expect _ _).bind fun _ => (renumbers_block inner n).bind fun body => ?_
  exact renumbers_pure (by rw [FunctionDecl.relabel, Stmt.relabelAll_eq_map])

theorem renumbers_methodsAfter (inner : Renumbers σ (Stmt.relabel σ.toRelabelling) decl decl')
    (n : Nat) (read : List FunctionDecl) :
    Renumbers σ (List.map (FunctionDecl.relabel σ.toRelabelling)) (methodsAfter decl n read)
      (methodsAfter decl' n (read.map (FunctionDecl.relabel σ.toRelabelling))) := by
  induction n generalizing read with
  | zero => exact renumbers_pure List.map_reverse
  | succ n ih =>
    unfold methodsAfter
    refine (renumbers_isAt _).bind fun closed => renumbers_atEnd.bind fun ended => ?_
    rw [id_eq, id_eq]
    cases closed || ended with
    | true => exact renumbers_pure List.map_reverse
    | false => exact (renumbers_function inner n _).bind fun method => ih (method :: read)

theorem renumbers_superclass? :
    Renumbers σ (Option.map (Superclass.relabel σ.toRelabelling)) superclass? superclass? := by
  unfold superclass?
  refine (renumbers_accept _).bind fun inherits => ?_
  cases inherits with
  | true => exact (renumbers_name _).bind fun _ => renumbers_freshId.bind fun _ => renumbers_pure rfl
  | false => exact renumbers_pure rfl

theorem renumbers_classDeclaration (inner : Renumbers σ (Stmt.relabel σ.toRelabelling) decl decl')
    (n : Nat) :
    Renumbers σ (Stmt.relabel σ.toRelabelling) (classDeclaration decl n)
      (classDeclaration decl' n) := by
  unfold classDeclaration
  refine (renumbers_name _).bind fun name => renumbers_superclass?.bind fun parent => ?_
  refine (renumbers_expect _ _).bind fun _ =>
    (renumbers_methodsAfter inner n []).bind fun methods => ?_
  refine (renumbers_expect _ _).bind fun _ => renumbers_pure ?_
  rw [Stmt.relabel, FunctionDecl.relabelAll_eq_map]

theorem renumbers_initializer? (inner : Renumbers σ (Expr.relabel σ.toRelabelling) expr expr') :
    Renumbers σ (Expr.relabel? σ.toRelabelling) (initializer? expr) (initializer? expr') := by
  unfold initializer?
  refine (renumbers_accept _).bind fun given => ?_
  cases given with
  | true => exact inner.bind fun e => renumbers_pure rfl
  | false => exact renumbers_pure rfl

theorem renumbers_varDeclaration (inner : Renumbers σ (Expr.relabel σ.toRelabelling) expr expr') :
    Renumbers σ (Stmt.relabel σ.toRelabelling) (varDeclaration expr) (varDeclaration expr') := by
  unfold varDeclaration
  refine (renumbers_name _).bind fun name => (renumbers_initializer? inner).bind fun value => ?_
  exact (renumbers_expect _ _).bind fun _ => renumbers_pure rfl

theorem renumbers_expressionStatement
    (inner : Renumbers σ (Expr.relabel σ.toRelabelling) expr expr') :
    Renumbers σ (Stmt.relabel σ.toRelabelling) (expressionStatement expr)
      (expressionStatement expr') :=
  inner.bind fun _ => (renumbers_expect _ _).bind fun _ => renumbers_pure rfl

theorem renumbers_printStatement (inner : Renumbers σ (Expr.relabel σ.toRelabelling) expr expr') :
    Renumbers σ (Stmt.relabel σ.toRelabelling) (printStatement expr) (printStatement expr') :=
  inner.bind fun _ => (renumbers_expect _ _).bind fun _ => renumbers_pure rfl

theorem renumbers_optional (inner : Renumbers σ (Expr.relabel σ.toRelabelling) expr expr')
    (close : Punctuation) :
    Renumbers σ (Expr.relabel? σ.toRelabelling) (optional close expr) (optional close expr') := by
  unfold optional
  refine (renumbers_isAt _).bind fun none => ?_
  cases none with
  | true => exact renumbers_pure rfl
  | false => exact inner.bind fun e => renumbers_pure rfl

theorem renumbers_returnStatement (inner : Renumbers σ (Expr.relabel σ.toRelabelling) expr expr')
    (line : Nat) :
    Renumbers σ (Stmt.relabel σ.toRelabelling) (returnStatement expr line)
      (returnStatement expr' (σ.line line)) :=
  (renumbers_optional inner _).bind fun _ => (renumbers_expect _ _).bind fun _ => renumbers_pure rfl

theorem renumbers_ifStatement (inner : Renumbers σ (Expr.relabel σ.toRelabelling) expr expr')
    (branch : Renumbers σ (Stmt.relabel σ.toRelabelling) stmt stmt') :
    Renumbers σ (Stmt.relabel σ.toRelabelling) (ifStatement expr stmt)
      (ifStatement expr' stmt') := by
  unfold ifStatement
  refine (renumbers_expect _ _).bind fun _ => inner.bind fun condition => ?_
  refine (renumbers_expect _ _).bind fun _ => branch.bind fun thenBranch => ?_
  refine (renumbers_accept _).bind fun otherwise => ?_
  cases otherwise with
  | true => exact branch.bind fun elseBranch => renumbers_pure rfl
  | false => exact renumbers_pure rfl

theorem renumbers_whileStatement (inner : Renumbers σ (Expr.relabel σ.toRelabelling) expr expr')
    (branch : Renumbers σ (Stmt.relabel σ.toRelabelling) stmt stmt') :
    Renumbers σ (Stmt.relabel σ.toRelabelling) (whileStatement expr stmt)
      (whileStatement expr' stmt') := by
  unfold whileStatement
  refine (renumbers_expect _ _).bind fun _ => inner.bind fun condition => ?_
  exact (renumbers_expect _ _).bind fun _ => branch.bind fun body => renumbers_pure rfl

theorem renumbers_forInitializer (inner : Renumbers σ (Expr.relabel σ.toRelabelling) expr expr') :
    Renumbers σ (Stmt.relabel? σ.toRelabelling) (forInitializer expr) (forInitializer expr') := by
  unfold forInitializer
  refine (renumbers_accept _).bind fun absent => ?_
  cases absent with
  | true => exact renumbers_pure rfl
  | false =>
    refine (renumbers_accept _).bind fun declares => ?_
    cases declares with
    | true => exact (renumbers_varDeclaration inner).bind fun _ => renumbers_pure rfl
    | false => exact (renumbers_expressionStatement inner).bind fun _ => renumbers_pure rfl

theorem renumbers_forStatement (inner : Renumbers σ (Expr.relabel σ.toRelabelling) expr expr')
    (branch : Renumbers σ (Stmt.relabel σ.toRelabelling) stmt stmt') :
    Renumbers σ (Stmt.relabel σ.toRelabelling) (forStatement expr stmt)
      (forStatement expr' stmt') := by
  unfold forStatement
  refine (renumbers_expect _ _).bind fun _ => (renumbers_forInitializer inner).bind fun first => ?_
  refine (renumbers_optional inner _).bind fun condition => (renumbers_expect _ _).bind fun _ => ?_
  refine (renumbers_optional inner _).bind fun increment => (renumbers_expect _ _).bind fun _ => ?_
  exact branch.bind fun body => renumbers_pure (relabel_forLoop _ first condition increment body)

theorem renumbers_statementOf (ofDecl : Renumbers σ (Stmt.relabel σ.toRelabelling) decl decl')
    (ofStmt : Renumbers σ (Stmt.relabel σ.toRelabelling) stmt stmt') (n : Nat) :
    Renumbers σ (Stmt.relabel σ.toRelabelling) (statementOf decl stmt n)
      (statementOf decl' stmt' n) := by
  have ofExpr := renumbers_expression (σ := σ) n
  refine renumbers_peek.bind fun token => (renumbers_accept _).bind fun isFor => ?_
  cases isFor with
  | true => exact renumbers_forStatement ofExpr ofStmt
  | false =>
  refine (renumbers_accept _).bind fun isIf => ?_
  cases isIf with
  | true => exact renumbers_ifStatement ofExpr ofStmt
  | false =>
  refine (renumbers_accept _).bind fun isWhile => ?_
  cases isWhile with
  | true => exact renumbers_whileStatement ofExpr ofStmt
  | false =>
  refine (renumbers_accept _).bind fun isReturn => ?_
  cases isReturn with
  | true => exact renumbers_returnStatement ofExpr token.line
  | false =>
  refine (renumbers_accept _).bind fun isBlock => ?_
  cases isBlock with
  | true =>
    refine (renumbers_block ofDecl n).bind fun body => renumbers_pure ?_
    rw [Stmt.relabel, Stmt.relabelAll_eq_map]
  | false =>
  refine (renumbers_accept _).bind fun isPrint => ?_
  cases isPrint with
  | true => exact renumbers_printStatement ofExpr
  | false => exact renumbers_expressionStatement (renumbers_expression (n + 1))

theorem renumbers_declarationOf (ofDecl : Renumbers σ (Stmt.relabel σ.toRelabelling) decl decl')
    (ofStmt : Renumbers σ (Stmt.relabel σ.toRelabelling) stmt stmt') (n : Nat) :
    Renumbers σ (Stmt.relabel σ.toRelabelling) (declarationOf decl stmt n)
      (declarationOf decl' stmt' n) := by
  refine .recovering ((renumbers_accept _).bind fun isClass => ?_)
  cases isClass with
  | true => exact renumbers_classDeclaration ofDecl n
  | false =>
  refine (renumbers_accept _).bind fun isFunction => ?_
  cases isFunction with
  | true => exact (renumbers_function ofDecl n _).bind fun f => renumbers_pure rfl
  | false =>
  refine (renumbers_accept _).bind fun isVar => ?_
  cases isVar with
  | true => exact renumbers_varDeclaration (renumbers_expression n)
  | false => exact renumbers_statementOf ofDecl ofStmt n

end

/-- **Statements and declarations** are read the same wherever the ids begin. -/
theorem renumbers_statement_declaration (n : Nat) :
    Renumbers σ (Stmt.relabel σ.toRelabelling) (statement n) (statement n) ∧
      Renumbers σ (Stmt.relabel σ.toRelabelling) (declaration n) (declaration n) := by
  induction n with
  | zero => exact ⟨renumbers_fail _, (renumbers_fail _).recovering⟩
  | succ n ih => exact ⟨renumbers_statementOf ih.2 ih.1 n, renumbers_declarationOf ih.2 ih.1 n⟩

/-! ## Programs -/

theorem renumbered_declarations (bound n : Nat) (read : List Stmt) (faults : List SyntaxError)
    {c c' : Cursor} (same : c.Renumbered σ c') {result : List Stmt × List SyntaxError × Cursor}
    (ends : declarations bound n read faults c = result) :
    ∃ d', declarations bound n (read.map (Stmt.relabel σ.toRelabelling))
        (faults.map (SyntaxError.relabel σ.toRelabelling)) c'
      = (result.1.map (Stmt.relabel σ.toRelabelling),
          result.2.1.map (SyntaxError.relabel σ.toRelabelling), d') ∧
      result.2.2.Renumbered σ d' := by
  induction n generalizing read faults c c' with
  | zero =>
    subst ends
    exact ⟨c', by simp only [declarations, List.map_reverse], same⟩
  | succ n ih =>
    unfold declarations at ends ⊢
    rw [same.atEnd]
    cases ended : c.atEnd with
    | true =>
      rw [ended, if_pos rfl] at ends
      subst ends
      exact ⟨c', by rw [if_pos rfl, List.map_reverse, List.map_reverse], same⟩
    | false =>
      rw [ended, if_neg Bool.false_ne_true] at ends
      rw [if_neg Bool.false_ne_true]
      have here := (renumbers_statement_declaration bound).2 c c' same
      -- Both loops take the same turn, whether the declaration is read or refused.
      cases found : declaration bound c with
      | ok stmt d =>
        rw [found] at here ends
        obtain ⟨d', found', same'⟩ := here
        rw [found']
        exact ih (stmt :: read) faults same' ends
      | error fault d =>
        rw [found] at here ends
        obtain ⟨d', found', same'⟩ := here
        rw [found']
        exact ih read (fault :: faults) same' ends

/-- What is read of tokens, with other ids. -/
def renumberedOutcome (ρ : Relabelling) :
    Except (List SyntaxError) (List Stmt) → Except (List SyntaxError) (List Stmt)
  | .ok program => .ok (program.map (Stmt.relabel ρ))
  | .error faults => .error (faults.map (SyntaxError.relabel ρ))

/-- **A program is read the same wherever its ids begin**: it has the same statements but for their
ids, or the same faults, and takes as many ids. -/
theorem parse_renumbered (σ : Renumbering) (tokens : List Token) :
    (parse (tokens.map (Token.relabel σ.toRelabelling)) σ.second).outcome
        = renumberedOutcome σ.toRelabelling (parse tokens σ.first).outcome ∧
      idsTaken (tokens.map (Token.relabel σ.toRelabelling)) σ.second
        = idsTaken tokens σ.first := by
  cases tokens with
  | nil => exact ⟨rfl, rfl⟩
  | cons first rest =>
    have same : (start first rest σ.first).Renumbered σ (start (first.relabel σ.toRelabelling)
        (rest.map (Token.relabel σ.toRelabelling)) σ.second) := ⟨rfl, rfl, 0, rfl, rfl⟩
    obtain ⟨d', ends', same'⟩ :=
      renumbered_declarations (rest.length + 1) (rest.length + 1) [] [] same rfl
    obtain ⟨j, taken, taken'⟩ := same'.taken
    rw [List.map_nil, List.map_nil] at ends'
    unfold parse idsTaken
    simp only [List.map_cons, List.length_cons, List.length_map, ends']
    constructor
    · rw [List.isEmpty_map]
      split <;> rfl
    · omega

end Parser

end Lox
