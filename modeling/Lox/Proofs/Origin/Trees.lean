import Lox.Proofs.Grammar.Acceptance

/-!
# Where trees come from

A program is made of its tokens: each name in its tree is an identifier among them, and each line is
that of a token. `From` says this of a tree, and besides that branches and loop bodies declare
nothing, as the grammar has it.

It is shown along the derivation of the tree. Since the rules for what nests in an expression are
given the rule for expressions as an argument, the induction is on the number of tokens, and what a
rule yields (`Grammar.Yields`) is shown for each rule from what its argument yields.
-/

set_option autoImplicit false

namespace Lox

/-- Whether an expression begins with a constant, so that there is no line for it. -/
def Expr.isBare : Expr → Bool
  | .literal _ => true
  | .grouping inner => inner.isBare
  | .logical left _ _ => left.isBare
  | .unary _ _ _ | .binary _ _ _ _ | .variable _ _ | .assign _ _ _ | .call _ _ _ | .get _ _
  | .set _ _ _ | .this _ _ | .super _ _ _ => false

/-- Tokens of which trees are made, with no reserved word among the identifiers. -/
structure Lexicon where
  tokens : Token → Prop
  spelt : ∀ t, tokens t → t.Spelt

/-- Where trees come from. -/
structure Origin extends Lexicon where
  /-- Whether expressions that begin with a constant are printed. -/
  bare : Prop

instance : Coe Origin Lexicon := ⟨Origin.toLexicon⟩

/-- Whether a line is that of a token. -/
def Lexicon.HasLine (l : Lexicon) (line : Nat) : Prop :=
  ∃ t, l.tokens t ∧ t.line = line

section

variable (l : Lexicon)

/-- Whether a name is an identifier among the tokens. -/
def Name.From (name : Name) : Prop :=
  ∃ t, l.tokens t ∧ t.kind = .identifier ∧ name = ⟨t.lexeme, t.line⟩

mutual

/-- Whether the names and lines in an expression are those of tokens. -/
def Expr.From : Expr → Prop
  | .literal _ => True
  | .grouping inner => inner.From
  | .unary _ right line => l.HasLine line ∧ right.From
  | .binary left _ right line => l.HasLine line ∧ left.From ∧ right.From
  | .logical left _ right => left.From ∧ right.From
  | .variable _ name => name.From l
  | .assign _ name value => name.From l ∧ value.From
  | .call callee arguments line => l.HasLine line ∧ callee.From ∧ Expr.AllFrom arguments
  | .get object name => name.From l ∧ object.From
  | .set object name value => name.From l ∧ object.From ∧ value.From
  | .this _ line => l.HasLine line
  | .super _ line method => l.HasLine line ∧ method.From l

/-- Whether those in a list of expressions are. -/
def Expr.AllFrom : List Expr → Prop
  | [] => True
  | e :: es => e.From ∧ Expr.AllFrom es

end

/-- Whether those in an expression are, if there is one. -/
def Expr.From? : Option Expr → Prop
  | some e => e.From l
  | none => True

end

section

variable (o : Origin)

mutual

/-- Whether the names and lines in a statement are those of tokens, branches and loop bodies declare
nothing, and expressions that begin with a constant are printed only where there may be such. -/
def Stmt.From : Stmt → Prop
  | .expression e => e.From o
  | .print e => e.From o ∧ (e.isBare = true → o.bare)
  | .var name initializer => name.From o ∧ Expr.From? o initializer
  | .block body => Stmt.AllFrom body
  | .if condition thenBranch elseBranch =>
    condition.From o ∧ (thenBranch.From ∧ thenBranch.isPlain = true) ∧ Stmt.From? elseBranch
  | .while condition body => condition.From o ∧ body.From ∧ body.isPlain = true
  | .function declaration => declaration.From
  | .return _ value => Expr.From? o value
  | .class name parent methods =>
    name.From o ∧ (∀ above ∈ parent, above.name.From o) ∧ FunctionDecl.AllFrom methods

/-- Whether those in a list of statements are. -/
def Stmt.AllFrom : List Stmt → Prop
  | [] => True
  | s :: ss => s.From ∧ Stmt.AllFrom ss

/-- Whether those in a branch are, if there is one. -/
def Stmt.From? : Option Stmt → Prop
  | some s => s.From ∧ s.isPlain = true
  | none => True

/-- Whether those in a function are. -/
def FunctionDecl.From : FunctionDecl → Prop
  | .mk name params body =>
    name.From o ∧ (∀ param ∈ params, param.From o) ∧ Stmt.AllFrom body

/-- Whether those in a list of functions are. -/
def FunctionDecl.AllFrom : List FunctionDecl → Prop
  | [] => True
  | f :: fs => f.From ∧ FunctionDecl.AllFrom fs

end

end

variable {l : Lexicon} {o : Origin}

/-! ## What is known of such trees -/

theorem Name.From.isIdentifier {name : Name} (from_ : name.From l) : name.IsIdentifier := by
  obtain ⟨t, member, word, rfl⟩ := from_
  exact l.spelt t member word

theorem Name.From.hasLine {name : Name} (from_ : name.From l) : l.HasLine name.line := by
  obtain ⟨t, member, -, rfl⟩ := from_
  exact ⟨t, member, rfl⟩

theorem Expr.allFrom_iff {es : List Expr} : Expr.AllFrom l es ↔ ∀ e ∈ es, e.From l := by
  induction es with
  | nil => simp [Expr.AllFrom]
  | cons e es ih => simp [Expr.AllFrom, ih]

theorem Stmt.allFrom_iff {ss : List Stmt} : Stmt.AllFrom o ss ↔ ∀ s ∈ ss, s.From o := by
  induction ss with
  | nil => simp [Stmt.AllFrom]
  | cons s ss ih => simp [Stmt.AllFrom, ih]

theorem FunctionDecl.allFrom_iff {fs : List FunctionDecl} :
    FunctionDecl.AllFrom o fs ↔ ∀ f ∈ fs, f.From o := by
  induction fs with
  | nil => simp [FunctionDecl.AllFrom]
  | cons f fs ih => simp [FunctionDecl.AllFrom, ih]

theorem FunctionDecl.From.name {f : FunctionDecl} (from_ : f.From o) : f.name.From o := by
  cases f
  exact from_.1

theorem FunctionDecl.From.params {f : FunctionDecl} (from_ : f.From o) :
    ∀ param ∈ f.params, param.From o := by
  cases f
  exact from_.2.1

theorem FunctionDecl.From.body {f : FunctionDecl} (from_ : f.From o) : Stmt.AllFrom o f.body := by
  cases f
  exact from_.2.2

theorem Expr.line_of_isBare (e : Expr) (bare : e.isBare = true) : e.line = 0 := by
  match e with
  | .literal _ => rfl
  | .grouping inner => exact inner.line_of_isBare bare
  | .logical left _ _ => exact left.line_of_isBare bare

theorem Expr.From.hasLine (e : Expr) (from_ : e.From l) (opened : e.isBare = false) :
    l.HasLine e.line := by
  match e with
  | .grouping inner => exact Expr.From.hasLine inner from_ opened
  | .logical left _ _ => exact Expr.From.hasLine left from_.1 opened
  | .unary _ _ _ | .binary _ _ _ _ | .call _ _ _ | .super _ _ _ => exact from_.1
  | .this _ _ => exact from_
  | .variable _ _ => exact Name.From.hasLine from_
  | .assign _ _ _ | .get _ _ | .set _ _ _ => exact Name.From.hasLine from_.1

/-! ## What is printed -/

mutual

/-- The expressions that a statement prints, here or in what nests in it. -/
def Stmt.printed : Stmt → List Expr
  | .print e => [e]
  | .expression _ | .var _ _ | .return _ _ => []
  | .block body => Stmt.allPrinted body
  | .if _ thenBranch elseBranch => thenBranch.printed ++ Stmt.printed? elseBranch
  | .while _ body => body.printed
  | .function declaration => declaration.printed
  | .class _ _ methods => FunctionDecl.allPrinted methods

/-- Those that a list of statements prints. -/
def Stmt.allPrinted : List Stmt → List Expr
  | [] => []
  | s :: ss => s.printed ++ Stmt.allPrinted ss

/-- Those that a branch prints, if there is one. -/
def Stmt.printed? : Option Stmt → List Expr
  | some s => s.printed
  | none => []

/-- Those that the body of a function prints. -/
def FunctionDecl.printed : FunctionDecl → List Expr
  | .mk _ _ body => Stmt.allPrinted body

/-- Those that the bodies in a list of functions print. -/
def FunctionDecl.allPrinted : List FunctionDecl → List Expr
  | [] => []
  | f :: fs => f.printed ++ FunctionDecl.allPrinted fs

end

section

variable {bare : Prop}

mutual

/-- Whether expressions that begin with a constant are printed may be said of the tree alone. -/
theorem Stmt.From.restrict {s : Stmt} (from_ : s.From { o with bare := bare })
    (allowed : ∀ e ∈ s.printed, e.isBare = true → o.bare) : s.From o := by
  match s, from_, allowed with
  | .expression _, from_, _ | .var _ _, from_, _ | .return _ _, from_, _ => exact from_
  | .print e, from_, allowed => exact ⟨from_.1, allowed e List.mem_cons_self⟩
  | .block _, from_, allowed => exact Stmt.AllFrom.restrict from_ allowed
  | .if _ _ _, from_, allowed =>
    obtain ⟨first, second⟩ := List.forall_mem_append.mp allowed
    exact ⟨from_.1, ⟨from_.2.1.1.restrict first, from_.2.1.2⟩,
      Stmt.From?.restrict from_.2.2 second⟩
  | .while _ _, from_, allowed => exact ⟨from_.1, from_.2.1.restrict allowed, from_.2.2⟩
  | .function _, from_, allowed => exact FunctionDecl.From.restrict from_ allowed
  | .class _ _ _, from_, allowed =>
    exact ⟨from_.1, from_.2.1, FunctionDecl.AllFrom.restrict from_.2.2 allowed⟩

theorem Stmt.AllFrom.restrict {ss : List Stmt} (from_ : Stmt.AllFrom { o with bare := bare } ss)
    (allowed : ∀ e ∈ Stmt.allPrinted ss, e.isBare = true → o.bare) : Stmt.AllFrom o ss := by
  match ss, from_, allowed with
  | [], _, _ => trivial
  | _ :: _, from_, allowed =>
    obtain ⟨first, rest⟩ := List.forall_mem_append.mp allowed
    exact ⟨from_.1.restrict first, Stmt.AllFrom.restrict from_.2 rest⟩

theorem Stmt.From?.restrict {s? : Option Stmt} (from_ : Stmt.From? { o with bare := bare } s?)
    (allowed : ∀ e ∈ Stmt.printed? s?, e.isBare = true → o.bare) : Stmt.From? o s? := by
  match s?, from_, allowed with
  | none, _, _ => trivial
  | some _, from_, allowed => exact ⟨from_.1.restrict allowed, from_.2⟩

theorem FunctionDecl.From.restrict {f : FunctionDecl} (from_ : f.From { o with bare := bare })
    (allowed : ∀ e ∈ f.printed, e.isBare = true → o.bare) : f.From o := by
  match f, from_, allowed with
  | .mk _ _ _, from_, allowed =>
    exact ⟨from_.1, from_.2.1, Stmt.AllFrom.restrict from_.2.2 allowed⟩

theorem FunctionDecl.AllFrom.restrict {fs : List FunctionDecl}
    (from_ : FunctionDecl.AllFrom { o with bare := bare } fs)
    (allowed : ∀ e ∈ FunctionDecl.allPrinted fs, e.isBare = true → o.bare) :
    FunctionDecl.AllFrom o fs := by
  match fs, from_, allowed with
  | [], _, _ => trivial
  | _ :: _, from_, allowed =>
    obtain ⟨first, rest⟩ := List.forall_mem_append.mp allowed
    exact ⟨FunctionDecl.From.restrict from_.1 first, FunctionDecl.AllFrom.restrict from_.2 rest⟩

end

end

/-! ## What the grammar yields -/

namespace Grammar

variable {α : Type} {b : Nat}

/-- Whether what a rule derives from fewer than `b` of the tokens has a property. -/
def Yields (l : Lexicon) (b : Nat) (rule : Rule α) (P : α → Prop) : Prop :=
  ∀ us n a m, us.length < b → (∀ t ∈ us, l.tokens t) → rule us n a m → P a

theorem Yields.many {item : Rule α} {P : α → Prop} (inner : Yields l b item P) :
    Yields l b (Many item) fun as => ∀ a ∈ as, P a := by
  intro us n as m few known it
  induction it with
  | nil => exact fun _ member => absurd member List.not_mem_nil
  | cons first rest ih =>
    rw [List.length_append] at few
    obtain ⟨here, there⟩ := List.forall_mem_append.mp known
    exact List.forall_mem_cons.mpr ⟨inner _ _ _ _ (by omega) here first, ih (by omega) there⟩

theorem Yields.maybe {item : Rule α} {P : α → Prop} (inner : Yields l b item P) :
    Yields l b (Maybe item) fun a? => ∀ a ∈ a?, P a := by
  intro us n a? m few known it
  cases it with
  | none => exact nofun
  | some it =>
    rintro a ⟨⟩
    exact inner _ _ _ _ few known it

theorem Yields.separated {item : Rule α} {P : α → Prop} (inner : Yields l b item P) :
    Yields l b (Separated item) fun as => ∀ a ∈ as, P a := by
  intro us n as m few known it
  induction it with
  | one it => exact List.forall_mem_singleton.mpr (inner _ _ _ _ few known it)
  | more first _ rest ih =>
    simp only [List.length_append, List.length_cons] at few
    obtain ⟨here, there⟩ := List.forall_mem_append.mp known
    have rest' := (List.forall_mem_cons.mp there).2
    exact List.forall_mem_cons.mpr ⟨inner _ _ _ _ (by omega) here first, ih (by omega) rest'⟩

theorem Yields.listing {item : Rule α} {P : α → Prop} (inner : Yields l b item P) :
    Yields l b (Listing item) fun as => ∀ a ∈ as, P a := by
  intro us n as m few known it
  cases it with
  | none => exact fun _ member => absurd member List.not_mem_nil
  | some items _ => exact inner.separated _ _ _ _ few known items

theorem yields_identifier : Yields l b Identifier (Name.From l) := by
  rintro _ _ _ _ - known ⟨word⟩
  exact ⟨_, known _ (List.mem_singleton_self _), word, rfl⟩

section

variable {expression : Rule Expr} (inner : Yields l b expression (Expr.From l))
include inner

theorem yields_primary : Yields l (b + 1) (Primary expression) (Expr.From l) := by
  intro us n e m few known it
  cases it with
  | number | string | true | false | nil => trivial
  | this word => exact ⟨_, known _ List.mem_cons_self, rfl⟩
  | «variable» word => exact ⟨_, known _ List.mem_cons_self, word, rfl⟩
  | grouping opening inside closing =>
    simp only [List.length_cons, List.length_append] at few
    obtain ⟨-, rest⟩ := List.forall_mem_cons.mp known
    have whole := inner _ _ _ _ (by omega) (List.forall_mem_append.mp rest).1 inside
    exact whole
  | super word dot method =>
    refine ⟨⟨_, known _ List.mem_cons_self, rfl⟩, _, known _ ?_, method, rfl⟩
    exact List.mem_cons_of_mem _ (List.mem_cons_of_mem _ List.mem_cons_self)

theorem yields_call : Yields l (b + 1) (Call expression) (Expr.From l) := by
  intro us n e m few known it
  induction it with
  | primary it => exact yields_primary inner _ _ _ _ few known it
  | call before opening values closing ih =>
    -- The line of a call is that of its closing parenthesis.
    simp only [List.length_cons, List.length_append] at few
    obtain ⟨first, rest⟩ := List.forall_mem_append.mp known
    obtain ⟨inside, last⟩ := List.forall_mem_append.mp (List.forall_mem_cons.mp rest).2
    refine ⟨⟨_, last _ List.mem_cons_self, rfl⟩, ih (by omega) first, ?_⟩
    exact Expr.allFrom_iff.mpr (inner.listing _ _ _ _ (by omega) inside values)
  | get before dot property ih =>
    simp only [List.length_cons, List.length_append] at few
    obtain ⟨first, rest⟩ := List.forall_mem_append.mp known
    exact ⟨⟨_, rest _ (List.mem_cons_of_mem _ List.mem_cons_self), property, rfl⟩,
      ih (by omega) first⟩

theorem yields_unary : Yields l (b + 1) (Unary expression) (Expr.From l) := by
  intro us n e m few known it
  induction it with
  | call it => exact yields_call inner _ _ _ _ few known it
  | sign sign operand ih =>
    rw [List.length_cons] at few
    obtain ⟨first, rest⟩ := List.forall_mem_cons.mp known
    exact ⟨⟨_, first, rfl⟩, ih (by omega) rest⟩

theorem yields_infix (level : Nat) : Yields l (b + 1) (Infix expression level) (Expr.From l) := by
  intro us n e m few known it
  induction it with
  | unary it => exact yields_unary inner _ _ _ _ few known it
  | tighter _ ih => exact ih few known
  | @operator _ _ _ t _ _ _ op _ _ _ sign _ ih ih' =>
    simp only [List.length_cons, List.length_append] at few
    obtain ⟨first, rest⟩ := List.forall_mem_append.mp known
    obtain ⟨here, last⟩ := List.forall_mem_cons.mp rest
    have left := ih (by omega) first
    have right := ih' (by omega) last
    cases op with
    | logical op => exact ⟨left, right⟩
    | binary op => exact ⟨⟨t, here, rfl⟩, left, right⟩

theorem yields_assignment : Yields l (b + 1) (Assignment expression) (Expr.From l) := by
  intro us n e m few known it
  cases it with
  | plain it => exact yields_infix inner 0 _ _ _ _ few known it
  | «variable» target equals value =>
    simp only [List.length_cons] at few
    obtain ⟨first, rest⟩ := List.forall_mem_cons.mp known
    exact ⟨⟨_, first, target, rfl⟩,
      inner _ _ _ _ (by omega) (List.forall_mem_cons.mp rest).2 value⟩
  | property before dot target equals value =>
    simp only [List.length_cons, List.length_append] at few
    obtain ⟨first, rest⟩ := List.forall_mem_append.mp known
    obtain ⟨here, rest⟩ := List.forall_mem_cons.mp (List.forall_mem_cons.mp rest).2
    exact ⟨⟨_, here, target, rfl⟩, yields_call inner _ _ _ _ (by omega) first before,
      inner _ _ _ _ (by omega) (List.forall_mem_cons.mp rest).2 value⟩

end

theorem yields_expression (b : Nat) : Yields l b Expression (Expr.From l) := by
  induction b with
  | zero => exact fun _ _ _ _ few => absurd few (Nat.not_lt_zero _)
  | succ b ih =>
    rintro us n e m few known ⟨it⟩
    exact yields_assignment ih _ _ _ _ few known it

/-! ### Statements -/

theorem Expr.from?_of {e : Option Expr} (from_ : ∀ e' ∈ e, e'.From l) : Expr.From? l e := by
  cases e with
  | none => trivial
  | some e => exact from_ e rfl

theorem yields_var : Yields o b VarDeclaration (Stmt.From o) := by
  rintro _ _ _ _ few known ⟨word, name, initializer, closing⟩
  simp only [List.length_cons, List.length_append] at few
  obtain ⟨here, rest⟩ := List.forall_mem_cons.mp (List.forall_mem_cons.mp known).2
  have value : Yields o b Initializer (Expr.From ↑o) := by
    rintro us n e m few known ⟨equals, value⟩
    rw [List.length_cons] at few
    exact yields_expression b _ _ _ _ (by omega) (List.forall_mem_cons.mp known).2 value
  exact ⟨⟨_, here, name, rfl⟩, Expr.from?_of
    (value.maybe _ _ _ _ (by omega) (List.forall_mem_append.mp rest).1 initializer)⟩

theorem yields_expressionStatement :
    Yields o b ExpressionStatement fun s => s.From o ∧ s.isPlain = true := by
  rintro _ _ _ _ few known ⟨it, closing⟩
  rw [List.length_append] at few
  exact ⟨yields_expression b _ _ _ _ (by omega) (List.forall_mem_append.mp known).1 it, rfl⟩

theorem yields_forInitializer : Yields o b ForInitializer fun s? => ∀ s ∈ s?, s.From o := by
  intro us n s? m few known it
  cases it with
  | none => exact nofun
  | var it =>
    rintro s ⟨⟩
    exact yields_var _ _ _ _ few known it
  | expression it =>
    rintro s ⟨⟩
    exact (yields_expressionStatement _ _ _ _ few known it).1

/-- The trees of `for` loops are made of those of their parts. -/
theorem from_forLoop {initializer : Option Stmt} {condition increment : Option Expr} {body : Stmt}
    (first : ∀ s ∈ initializer, s.From o) (test : ∀ e ∈ condition, e.From o)
    (step : ∀ e ∈ increment, e.From o) (inner : body.From o ∧ body.isPlain = true) :
    (Parser.forLoop initializer condition increment body).From o ∧
      (Parser.forLoop initializer condition increment body).isPlain = true := by
  have condition' : (condition.getD (.literal (.bool true))).From o := by
    cases condition with
    | none => trivial
    | some e => exact test e rfl
  unfold Parser.forLoop
  cases increment with
  | none =>
    cases initializer with
    | none => exact ⟨⟨condition', inner⟩, rfl⟩
    | some s => exact ⟨⟨first s rfl, ⟨condition', inner⟩, trivial⟩, rfl⟩
  | some e =>
    have body' : (Stmt.block [body, .expression e]).From o := ⟨inner.1, step e rfl, trivial⟩
    cases initializer with
    | none => exact ⟨⟨condition', body', rfl⟩, rfl⟩
    | some s => exact ⟨⟨first s rfl, ⟨condition', body', rfl⟩, trivial⟩, rfl⟩

theorem yields_function {declaration : Rule Stmt} (inner : Yields o b declaration (Stmt.From o)) :
    Yields o b (Function declaration) (FunctionDecl.From o) := by
  rintro _ _ _ _ few known ⟨name, opening, parameters, closing, begins, body, ends⟩
  simp only [List.length_cons, List.length_append] at few
  obtain ⟨here, rest⟩ := List.forall_mem_cons.mp known
  obtain ⟨first, rest⟩ := List.forall_mem_append.mp (List.forall_mem_cons.mp rest).2
  obtain ⟨inside, -⟩ := List.forall_mem_append.mp
    (List.forall_mem_cons.mp (List.forall_mem_cons.mp rest).2).2
  exact ⟨⟨_, here, name, rfl⟩,
    yields_identifier.listing _ _ _ _ (Nat.lt_succ_self _) first parameters,
    Stmt.allFrom_iff.mpr (inner.many _ _ _ _ (by omega) inside body)⟩

theorem yields_parent : Yields o b Parent fun parent => parent.name.From o := by
  rintro _ _ _ _ - known ⟨sign, name⟩
  exact ⟨_, known _ (List.mem_cons_of_mem _ List.mem_cons_self), name, rfl⟩

section

variable (free : o.bare)
  (ofStmt : Yields o b (AnyStatement False) fun s => s.From o ∧ s.isPlain = true)
  (ofDecl : Yields o b (Declaration False) (Stmt.From o))
include free ofStmt ofDecl

theorem yields_statement :
    Yields o (b + 1) (AnyStatement False) fun s => s.From o ∧ s.isPlain = true := by
  rintro us n s m few known ⟨isOpen, it⟩
  -- The tokens of each part are among those of the whole, and there are fewer of them.
  cases it with
  | expression it => exact yields_expressionStatement _ _ _ _ few known it
  | print word value closing =>
    simp only [List.length_cons, List.length_append] at few
    obtain ⟨-, rest⟩ := List.forall_mem_cons.mp known
    have printed := yields_expression b _ _ _ _ (by omega) (List.forall_mem_append.mp rest).1 value
    exact ⟨⟨printed, fun _ => free⟩, rfl⟩
  | «return» word result closing =>
    simp only [List.length_cons, List.length_append] at few
    obtain ⟨-, rest⟩ := List.forall_mem_cons.mp known
    exact ⟨Expr.from?_of ((yields_expression b).maybe _ _ _ _ (by omega)
      (List.forall_mem_append.mp rest).1 result), rfl⟩
  | «while» word opening test closing inner =>
    simp only [List.length_cons, List.length_append] at few
    obtain ⟨-, rest⟩ := List.forall_mem_cons.mp known
    obtain ⟨inside, rest⟩ := List.forall_mem_append.mp (List.forall_mem_cons.mp rest).2
    obtain ⟨-, rest⟩ := List.forall_mem_cons.mp rest
    exact ⟨⟨yields_expression b _ _ _ _ (by omega) inside test,
      ofStmt _ _ _ _ (by omega) rest ⟨_, inner⟩⟩, rfl⟩
  | «for» word opening first test semicolon step closing inner =>
    simp only [List.length_cons, List.length_append] at few
    obtain ⟨-, rest⟩ := List.forall_mem_cons.mp known
    obtain ⟨first', rest⟩ := List.forall_mem_append.mp (List.forall_mem_cons.mp rest).2
    obtain ⟨test', rest⟩ := List.forall_mem_append.mp rest
    obtain ⟨step', rest⟩ := List.forall_mem_append.mp (List.forall_mem_cons.mp rest).2
    obtain ⟨-, inner'⟩ := List.forall_mem_cons.mp rest
    exact from_forLoop (yields_forInitializer _ _ _ _ (Nat.lt_succ_self _) first' first)
      ((yields_expression b).maybe _ _ _ _ (by omega) test' test)
      ((yields_expression b).maybe _ _ _ _ (by omega) step' step)
      (ofStmt _ _ _ _ (by omega) inner' ⟨_, inner⟩)
  | «if» word opening test closing inner =>
    simp only [List.length_cons, List.length_append] at few
    obtain ⟨-, rest⟩ := List.forall_mem_cons.mp known
    obtain ⟨inside, rest⟩ := List.forall_mem_append.mp (List.forall_mem_cons.mp rest).2
    obtain ⟨-, rest⟩ := List.forall_mem_cons.mp rest
    exact ⟨⟨yields_expression b _ _ _ _ (by omega) inside test,
      ofStmt _ _ _ _ (by omega) rest ⟨_, inner⟩, trivial⟩, rfl⟩
  | ifElse word opening test closing inner _ otherwise inner' =>
    simp only [List.length_cons, List.length_append] at few
    obtain ⟨-, rest⟩ := List.forall_mem_cons.mp known
    obtain ⟨inside, rest⟩ := List.forall_mem_append.mp (List.forall_mem_cons.mp rest).2
    obtain ⟨first, rest⟩ := List.forall_mem_append.mp (List.forall_mem_cons.mp rest).2
    obtain ⟨-, second⟩ := List.forall_mem_cons.mp rest
    exact ⟨⟨yields_expression b _ _ _ _ (by omega) inside test,
      ofStmt _ _ _ _ (by omega) first ⟨_, inner⟩,
      ofStmt _ _ _ _ (by omega) second ⟨_, inner'⟩⟩, rfl⟩
  | block opening inner closing =>
    simp only [List.length_cons, List.length_append] at few
    obtain ⟨-, rest⟩ := List.forall_mem_cons.mp known
    exact ⟨Stmt.allFrom_iff.mpr (ofDecl.many _ _ _ _ (by omega)
      (List.forall_mem_append.mp rest).1 inner), rfl⟩

theorem yields_declaration : Yields o (b + 1) (Declaration False) (Stmt.From o) := by
  intro us n s m few known it
  cases it with
  | «class» word name parent opening inner closing =>
    simp only [List.length_cons, List.length_append] at few
    obtain ⟨here, rest⟩ := List.forall_mem_cons.mp (List.forall_mem_cons.mp known).2
    obtain ⟨above, rest⟩ := List.forall_mem_append.mp rest
    obtain ⟨inside, -⟩ := List.forall_mem_append.mp (List.forall_mem_cons.mp rest).2
    exact ⟨⟨_, here, name, rfl⟩,
      yields_parent.maybe _ _ _ _ (Nat.lt_succ_self _) above parent,
      FunctionDecl.allFrom_iff.mpr
        ((yields_function ofDecl).many _ _ _ _ (by omega) inside inner)⟩
  | function word it =>
    rw [List.length_cons] at few
    exact yields_function ofDecl _ _ _ _ (by omega) (List.forall_mem_cons.mp known).2 it
  | var it => exact yields_var _ _ _ _ few known it
  | statement it => exact (yields_statement free ofStmt ofDecl _ _ _ _ few known ⟨_, it⟩).1

end

theorem yields_statement_declaration (free : o.bare) (b : Nat) :
    Yields o b (AnyStatement False) (fun s => s.From o ∧ s.isPlain = true) ∧
      Yields o b (Declaration False) (Stmt.From o) := by
  induction b with
  | zero =>
    exact ⟨fun _ _ _ _ few => absurd few (Nat.not_lt_zero _),
      fun _ _ _ _ few => absurd few (Nat.not_lt_zero _)⟩
  | succ b ih => exact ⟨yields_statement free ih.1 ih.2, yields_declaration free ih.1 ih.2⟩

/-- **A program is made of its tokens.** -/
theorem Program.from {us : List Token} {n m : Nat} {program : List Stmt}
    (it : Program False us n program m) (known : ∀ t ∈ us, o.tokens t)
    (bare : ∀ s ∈ program, ∀ e ∈ s.printed, e.isBare = true → o.bare) :
    ∀ s ∈ program, s.From o := by
  intro s member
  -- The grammar does not say what may be printed.
  have free : s.From { o with bare := True } :=
    (yields_statement_declaration (o := { o with bare := True }) trivial (us.length + 1)).2.many
      us n program m (Nat.lt_succ_self _) known it s member
  exact free.restrict (bare s member)

end Grammar

/-- A program that is read is made of the tokens that are read. -/
theorem Parser.from_of_parse (tokens : Tokens) (known : ∀ t ∈ tokens.body, o.tokens t)
    {firstId : NodeId} {program : List Stmt}
    (ok : (parse tokens.all firstId).outcome = .ok program)
    (bare : ∀ s ∈ program, ∀ e ∈ s.printed, e.isBare = true → o.bare) :
    ∀ s ∈ program, s.From o := by
  obtain ⟨m, it⟩ := derived_of_parse tokens ok
  exact Grammar.Program.from it known bare

end Lox
