import Lox.Parser

/-!
# The grammar

The rules of the language, each with the tree that its derivations have. A rule relates the tokens
that are derived, the number of ids given out before them, the tree, and the number of ids given out
after them: a derivation numbers the uses of variables in the order in which they are written.

    program        → declaration* EOF ;
    declaration    → classDecl | funDecl | varDecl | statement ;
    classDecl      → "class" IDENT ( "<" IDENT )? "{" function* "}" ;
    funDecl        → "fun" function ;
    function       → IDENT "(" parameters? ")" block ;
    varDecl        → "var" IDENT ( "=" expression )? ";" ;
    statement      → exprStmt | printStmt | whileStmt | forStmt
                   | ifStmt | block | returnStmt ;
    forStmt        → "for" "(" ( varDecl | exprStmt | ";" )
                     expression? ";" expression? ")" statement ;
    exprStmt       → expression ";" ;
    printStmt      → "print" expression ";" ;
    whileStmt      → "while" "(" expression ")" statement ;
    returnStmt     → "return" expression? ";" ;
    ifStmt         → "if" "(" expression ")" statement
                   ( "else" statement )? ;
    block          → "{" declaration* "}" ;
    parameters     → IDENT ( "," IDENT )* ;
    expression     → assignment ;
    assignment     → ( call "." )? IDENT "=" assignment | logic_or ;
    logic_or       → logic_and ( "or" logic_and )* ;
    logic_and      → equality  ( "and" equality )* ;
    equality       → comparison ( ( "!=" | "==" ) comparison )* ;
    comparison     → term ( ( ">" | ">=" | "<" | "<=" ) term )* ;
    term           → factor ( ( "-" | "+" ) factor )* ;
    factor         → unary ( ( "/" | "*" ) unary )* ;
    unary          → ( "!" | "-" ) unary | call ;
    call           → primary ( "(" arguments? ")" | "." IDENT )* ;
    arguments      → expression ( "," expression )* ;
    primary        → NUMBER | STRING | "true" | "false" | "nil" | "this"
                   | IDENT | "(" expression ")" | "super" "." IDENT ;

The rules for what nests in an expression are given the rule for expressions as an argument, so that
each can be spoken of by itself; `Expression` and `Declaration` tie the knots.

Only one choice of the grammar is ambiguous, which `if` an `else` belongs to. The rules for
statements are therefore given a proposition: where it is true, an `else` belongs to the nearest
`if`, and where it is false it may belong to any.
-/

set_option autoImplicit false

namespace Lox.Grammar

open Lox.Parser (idCount forLoop)

/-- How tokens derive a tree: `rule us n a m` where the tokens `us` derive `a` and the ids in it are
those from `n` up to `m`. -/
abbrev Rule (α : Type) := List Token → Nat → α → Nat → Prop

/-! ## Repetition and choice -/

/-- `item*` -/
inductive Many {α : Type} (item : Rule α) : Rule (List α)
  | nil {n : Nat} : Many item [] n [] n
  | cons {us vs : List Token} {n m k : Nat} {a : α} {as : List α} (first : item us n a m)
      (rest : Many item vs m as k) : Many item (us ++ vs) n (a :: as) k

/-- `item?` -/
inductive Maybe {α : Type} (item : Rule α) : Rule (Option α)
  | none {n : Nat} : Maybe item [] n none n
  | some {us : List Token} {n m : Nat} {a : α} (it : item us n a m) : Maybe item us n (some a) m

/-- `item ( "," item )*` -/
inductive Separated {α : Type} (item : Rule α) : Rule (List α)
  | one {us : List Token} {n m : Nat} {a : α} (it : item us n a m) : Separated item us n [a] m
  | more {us vs : List Token} {comma : Token} {n m k : Nat} {a : α} {as : List α}
      (first : item us n a m) (separated : comma.kind = .punctuation .comma)
      (rest : Separated item vs m as k) : Separated item (us ++ comma :: vs) n (a :: as) k

/-- `( item ( "," item )* )?`, with at most 255 items. -/
inductive Listing {α : Type} (item : Rule α) : Rule (List α)
  | none {n : Nat} : Listing item [] n [] n
  | some {us : List Token} {n m : Nat} {as : List α} (items : Separated item us n as m)
      (few : as.length ≤ 255) : Listing item us n as m

/-- `IDENT` -/
inductive Identifier : Rule Name
  | intro {t : Token} {n : Nat} (word : t.kind = .identifier) :
      Identifier [t] n ⟨t.lexeme, t.line⟩ n

/-! ## Expressions -/

/-- `NUMBER | STRING | "true" | "false" | "nil" | "this" | IDENT | "(" expression ")"
| "super" "." IDENT` -/
inductive Primary (expression : Rule Expr) : Rule Expr
  | number {t : Token} {n : Nat} {value : Float} (word : t.kind = .number value) :
      Primary expression [t] n (.literal (.number value)) n
  | string {t : Token} {n : Nat} {value : String} (word : t.kind = .string value) :
      Primary expression [t] n (.literal (.string value)) n
  | true {t : Token} {n : Nat} (word : t.kind = .keyword .true) :
      Primary expression [t] n (.literal (.bool .true)) n
  | false {t : Token} {n : Nat} (word : t.kind = .keyword .false) :
      Primary expression [t] n (.literal (.bool .false)) n
  | nil {t : Token} {n : Nat} (word : t.kind = .keyword .nil) :
      Primary expression [t] n (.literal .nil) n
  | this {t : Token} {n : Nat} (word : t.kind = .keyword .this) :
      Primary expression [t] n (.this (n % idCount) t.line) (n + 1)
  | variable {t : Token} {n : Nat} (word : t.kind = .identifier) :
      Primary expression [t] n (.variable (n % idCount) ⟨t.lexeme, t.line⟩) (n + 1)
  | grouping {l r : Token} {us : List Token} {n m : Nat} {e : Expr}
      (opening : l.kind = .punctuation .leftParen) (inner : expression us n e m)
      (closing : r.kind = .punctuation .rightParen) :
      Primary expression (l :: (us ++ [r])) n (.grouping e) m
  | super {t d i : Token} {n : Nat} (word : t.kind = .keyword .super)
      (dot : d.kind = .punctuation .dot) (method : i.kind = .identifier) :
      Primary expression [t, d, i] n (.super (n % idCount) t.line ⟨i.lexeme, i.line⟩) (n + 1)

/-- `primary ( "(" arguments? ")" | "." IDENT )*`, read from the left. -/
inductive Call (expression : Rule Expr) : Rule Expr
  | primary {us : List Token} {n m : Nat} {e : Expr} (it : Primary expression us n e m) :
      Call expression us n e m
  | call {us vs : List Token} {l r : Token} {n m k : Nat} {callee : Expr} {arguments : List Expr}
      (before : Call expression us n callee m) (opening : l.kind = .punctuation .leftParen)
      (values : Listing expression vs m arguments k)
      (closing : r.kind = .punctuation .rightParen) :
      Call expression (us ++ l :: (vs ++ [r])) n (.call callee arguments r.line) k
  | get {us : List Token} {d i : Token} {n m : Nat} {object : Expr}
      (before : Call expression us n object m) (dot : d.kind = .punctuation .dot)
      (property : i.kind = .identifier) :
      Call expression (us ++ [d, i]) n (.get object ⟨i.lexeme, i.line⟩) m

/-- The operators before an operand. -/
inductive Sign : Kind → UnaryOp → Prop
  | not : Sign (.punctuation .bang) .not
  | negate : Sign (.punctuation .minus) .negate

/-- `( "!" | "-" ) unary | call` -/
inductive Unary (expression : Rule Expr) : Rule Expr
  | call {us : List Token} {n m : Nat} {e : Expr} (it : Call expression us n e m) :
      Unary expression us n e m
  | sign {t : Token} {us : List Token} {n m : Nat} {op : UnaryOp} {e : Expr} (sign : Sign t.kind op)
      (operand : Unary expression us n e m) :
      Unary expression (t :: us) n (.unary op e t.line) m

/-- The operators between operands, with the six levels on which they bind, from the loosest. -/
inductive Operator : Nat → Kind → InfixOp → Prop
  | or : Operator 0 (.keyword .or) (.logical .or)
  | and : Operator 1 (.keyword .and) (.logical .and)
  | notEqual : Operator 2 (.punctuation .bangEqual) (.binary .notEqual)
  | equal : Operator 2 (.punctuation .equalEqual) (.binary .equal)
  | greater : Operator 3 (.punctuation .greater) (.binary .greater)
  | greaterEqual : Operator 3 (.punctuation .greaterEqual) (.binary .greaterEqual)
  | less : Operator 3 (.punctuation .less) (.binary .less)
  | lessEqual : Operator 3 (.punctuation .lessEqual) (.binary .lessEqual)
  | subtract : Operator 4 (.punctuation .minus) (.binary .subtract)
  | add : Operator 4 (.punctuation .plus) (.binary .add)
  | divide : Operator 5 (.punctuation .slash) (.binary .divide)
  | multiply : Operator 5 (.punctuation .star) (.binary .multiply)

/-- `tighter ( operator tighter )*` on each of the six levels, read from the left; behind the
tightest level stands `unary`. -/
inductive Infix (expression : Rule Expr) : Nat → Rule Expr
  | unary {us : List Token} {n m : Nat} {e : Expr} (it : Unary expression us n e m) :
      Infix expression 6 us n e m
  | tighter {level : Nat} {us : List Token} {n m : Nat} {e : Expr}
      (it : Infix expression (level + 1) us n e m) : Infix expression level us n e m
  | operator {level : Nat} {us vs : List Token} {t : Token} {n m k : Nat} {op : InfixOp}
      {left right : Expr} (before : Infix expression level us n left m)
      (sign : Operator level t.kind op) (operand : Infix expression (level + 1) vs m right k) :
      Infix expression level (us ++ t :: vs) n (op.build left right t.line) k

/-- `( call "." )? IDENT "=" assignment | logic_or`. What is assigned is an expression again, since
expressions are assignments. -/
inductive Assignment (expression : Rule Expr) : Rule Expr
  | plain {us : List Token} {n m : Nat} {e : Expr} (it : Infix expression 0 us n e m) :
      Assignment expression us n e m
  | variable {i q : Token} {us : List Token} {n m : Nat} {e : Expr}
      (target : i.kind = .identifier) (equals : q.kind = .punctuation .equal)
      (value : expression us (n + 1) e m) :
      Assignment expression (i :: q :: us) n (.assign (n % idCount) ⟨i.lexeme, i.line⟩ e) m
  | property {d i q : Token} {us vs : List Token} {n m k : Nat} {object e : Expr}
      (before : Call expression us n object m) (dot : d.kind = .punctuation .dot)
      (target : i.kind = .identifier) (equals : q.kind = .punctuation .equal)
      (value : expression vs m e k) :
      Assignment expression (us ++ d :: i :: q :: vs) n (.set object ⟨i.lexeme, i.line⟩ e) k

/-- `assignment` -/
inductive Expression : Rule Expr
  | assignment {us : List Token} {n m : Nat} {e : Expr} (it : Assignment Expression us n e m) :
      Expression us n e m

/-! ## Statements -/

/-- `"=" expression` -/
inductive Initializer : Rule Expr
  | intro {q : Token} {us : List Token} {n m : Nat} {e : Expr}
      (equals : q.kind = .punctuation .equal) (value : Expression us n e m) :
      Initializer (q :: us) n e m

/-- `"var" IDENT ( "=" expression )? ";"` -/
inductive VarDeclaration : Rule Stmt
  | intro {t i z : Token} {us : List Token} {n m : Nat} {value : Option Expr}
      (word : t.kind = .keyword .var) (name : i.kind = .identifier)
      (initializer : Maybe Initializer us n value m)
      (closing : z.kind = .punctuation .semicolon) :
      VarDeclaration (t :: i :: (us ++ [z])) n (.var ⟨i.lexeme, i.line⟩ value) m

/-- `expression ";"` -/
inductive ExpressionStatement : Rule Stmt
  | intro {z : Token} {us : List Token} {n m : Nat} {e : Expr} (it : Expression us n e m)
      (closing : z.kind = .punctuation .semicolon) :
      ExpressionStatement (us ++ [z]) n (.expression e) m

/-- `varDecl | exprStmt | ";"` -/
inductive ForInitializer : Rule (Option Stmt)
  | none {z : Token} {n : Nat} (closing : z.kind = .punctuation .semicolon) :
      ForInitializer [z] n none n
  | var {us : List Token} {n m : Nat} {s : Stmt} (it : VarDeclaration us n s m) :
      ForInitializer us n (some s) m
  | expression {us : List Token} {n m : Nat} {s : Stmt} (it : ExpressionStatement us n s m) :
      ForInitializer us n (some s) m

/-- `IDENT "(" parameters? ")" block` -/
inductive Function (declaration : Rule Stmt) : Rule FunctionDecl
  | intro {i l r b z : Token} {us vs : List Token} {n m k : Nat} {params : List Name}
      {body : List Stmt} (name : i.kind = .identifier) (opening : l.kind = .punctuation .leftParen)
      (parameters : Listing Identifier us n params m)
      (closing : r.kind = .punctuation .rightParen) (begins : b.kind = .punctuation .leftBrace)
      (inner : Many declaration vs m body k) (ends : z.kind = .punctuation .rightBrace) :
      Function declaration (i :: l :: (us ++ r :: b :: (vs ++ [z]))) n
        (.mk ⟨i.lexeme, i.line⟩ params body) k

/-- `"<" IDENT` -/
inductive Parent : Rule Superclass
  | intro {l i : Token} {n : Nat} (sign : l.kind = .punctuation .less)
      (name : i.kind = .identifier) : Parent [l, i] n ⟨n % idCount, ⟨i.lexeme, i.line⟩⟩ (n + 1)

mutual

/-- `exprStmt | printStmt | whileStmt | forStmt | ifStmt | block | returnStmt`, together with
whether the statement ends in an `if` that an `else` behind it could belong to. -/
inductive Statement (nearest : Prop) : Bool → Rule Stmt
  | expression {us : List Token} {n m : Nat} {s : Stmt} (it : ExpressionStatement us n s m) :
      Statement nearest false us n s m
  | print {t z : Token} {us : List Token} {n m : Nat} {e : Expr} (word : t.kind = .keyword .print)
      (value : Expression us n e m) (closing : z.kind = .punctuation .semicolon) :
      Statement nearest false (t :: (us ++ [z])) n (.print e) m
  | while {isOpen : Bool} {t l r : Token} {us vs : List Token} {n m k : Nat} {condition : Expr}
      {body : Stmt} (word : t.kind = .keyword .while) (opening : l.kind = .punctuation .leftParen)
      (test : Expression us n condition m) (closing : r.kind = .punctuation .rightParen)
      (inner : Statement nearest isOpen vs m body k) :
      Statement nearest isOpen (t :: l :: (us ++ r :: vs)) n (.while condition body) k
  | for {isOpen : Bool} {t l z r : Token} {us vs ws xs : List Token} {n n₁ n₂ n₃ n₄ : Nat}
      {initializer : Option Stmt} {condition increment : Option Expr} {body : Stmt}
      (word : t.kind = .keyword .for) (opening : l.kind = .punctuation .leftParen)
      (first : ForInitializer us n initializer n₁) (test : Maybe Expression vs n₁ condition n₂)
      (semicolon : z.kind = .punctuation .semicolon) (step : Maybe Expression ws n₂ increment n₃)
      (closing : r.kind = .punctuation .rightParen)
      (inner : Statement nearest isOpen xs n₃ body n₄) :
      Statement nearest isOpen (t :: l :: (us ++ (vs ++ z :: (ws ++ r :: xs)))) n
        (forLoop initializer condition increment body) n₄
  | if {isOpen : Bool} {t l r : Token} {us vs : List Token} {n m k : Nat} {condition : Expr}
      {thenBranch : Stmt} (word : t.kind = .keyword .if)
      (opening : l.kind = .punctuation .leftParen) (test : Expression us n condition m)
      (closing : r.kind = .punctuation .rightParen)
      (inner : Statement nearest isOpen vs m thenBranch k) :
      Statement nearest true (t :: l :: (us ++ r :: vs)) n (.if condition thenBranch none) k
  | ifElse {isOpen isOpen' : Bool} {t l r w : Token} {us vs ws : List Token} {n n₁ n₂ n₃ : Nat}
      {condition : Expr} {thenBranch elseBranch : Stmt} (word : t.kind = .keyword .if)
      (opening : l.kind = .punctuation .leftParen) (test : Expression us n condition n₁)
      (closing : r.kind = .punctuation .rightParen)
      (inner : Statement nearest isOpen vs n₁ thenBranch n₂) (closed : nearest → isOpen = false)
      (otherwise : w.kind = .keyword .else)
      (inner' : Statement nearest isOpen' ws n₂ elseBranch n₃) :
      Statement nearest isOpen' (t :: l :: (us ++ r :: (vs ++ w :: ws))) n
        (.if condition thenBranch (some elseBranch)) n₃
  | block {l r : Token} {us : List Token} {n m : Nat} {body : List Stmt}
      (opening : l.kind = .punctuation .leftBrace) (inner : Many (Declaration nearest) us n body m)
      (closing : r.kind = .punctuation .rightBrace) :
      Statement nearest false (l :: (us ++ [r])) n (.block body) m
  | return {t z : Token} {us : List Token} {n m : Nat} {value : Option Expr}
      (word : t.kind = .keyword .return) (result : Maybe Expression us n value m)
      (closing : z.kind = .punctuation .semicolon) :
      Statement nearest false (t :: (us ++ [z])) n (.return t.line value) m

/-- `classDecl | funDecl | varDecl | statement` -/
inductive Declaration (nearest : Prop) : Rule Stmt
  | class {t i l r : Token} {us vs : List Token} {n m k : Nat} {superclass : Option Superclass}
      {methods : List FunctionDecl} (word : t.kind = .keyword .class)
      (name : i.kind = .identifier) (parent : Maybe Parent us n superclass m)
      (opening : l.kind = .punctuation .leftBrace)
      (inner : Many (Function (Declaration nearest)) vs m methods k)
      (closing : r.kind = .punctuation .rightBrace) :
      Declaration nearest (t :: i :: (us ++ l :: (vs ++ [r]))) n
        (.class ⟨i.lexeme, i.line⟩ superclass methods) k
  | function {t : Token} {us : List Token} {n m : Nat} {f : FunctionDecl}
      (word : t.kind = .keyword .fun) (it : Function (Declaration nearest) us n f m) :
      Declaration nearest (t :: us) n (.function f) m
  | var {us : List Token} {n m : Nat} {s : Stmt} (it : VarDeclaration us n s m) :
      Declaration nearest us n s m
  | statement {isOpen : Bool} {us : List Token} {n m : Nat} {s : Stmt}
      (it : Statement nearest isOpen us n s m) : Declaration nearest us n s m

end

/-- A statement, whether or not it ends in an open `if`. -/
abbrev AnyStatement (nearest : Prop) : Rule Stmt :=
  fun us n s m => ∃ isOpen, Statement nearest isOpen us n s m

/-- `declaration*`, what stands before the end of the input. -/
abbrev Program (nearest : Prop) : Rule (List Stmt) :=
  Many (Declaration nearest)

end Lox.Grammar
