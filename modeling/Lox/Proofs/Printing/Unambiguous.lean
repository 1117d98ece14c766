import Mathlib
import Lox.Proofs.Bytes.Respaced
import Lox.Proofs.Decimal.Readings
import Lox.Proofs.Origin.Trees
import Lox.Proofs.Printing.Forms
import Lox.Proofs.Printing.Sources

/-!
# A printed tree determines the expression

An expression is printed as a nested form. The form is read back by its heads and the number of their
parts: a minus with one part is a sign and with two an operator, and `=` sets a field if its first
part is one. Words are constants, `this` or identifiers. An identifier begins with a letter and is no
reserved word, so it is taken neither for a number nor for another constant, and it may well be
spelled as one of the heads `group` and `call`, which stand elsewhere.

Strings are excluded since they stand without quotes, and so are infinities, whose text is an
identifier.
-/

set_option autoImplicit false

namespace Lox

/-! ## What the text leaves out -/

namespace Expr

mutual

/-- The expression with zero for all its ids and lines. -/
def unlabelled : Expr → Expr
  | .literal value => .literal value
  | .grouping inner => .grouping inner.unlabelled
  | .unary op right _ => .unary op right.unlabelled 0
  | .binary left op right _ => .binary left.unlabelled op right.unlabelled 0
  | .logical left op right => .logical left.unlabelled op right.unlabelled
  | .variable _ name => .variable 0 ⟨name.lexeme, 0⟩
  | .assign _ name value => .assign 0 ⟨name.lexeme, 0⟩ value.unlabelled
  | .call callee arguments _ => .call callee.unlabelled (unlabelledAll arguments) 0
  | .get object name => .get object.unlabelled ⟨name.lexeme, 0⟩
  | .set object name value => .set object.unlabelled ⟨name.lexeme, 0⟩ value.unlabelled
  | .this _ _ => .this 0 0
  | .super _ _ method => .super 0 0 ⟨method.lexeme, 0⟩

/-- The expressions with zero for all their ids and lines. -/
def unlabelledAll : List Expr → List Expr
  | [] => []
  | e :: es => e.unlabelled :: unlabelledAll es

end

mutual

/-- The constants in an expression. -/
def constants : Expr → List Literal
  | .literal value => [value]
  | .grouping inner => inner.constants
  | .unary _ right _ => right.constants
  | .binary left _ right _ | .logical left _ right => left.constants ++ right.constants
  | .variable _ _ | .this _ _ | .super _ _ _ => []
  | .assign _ _ value => value.constants
  | .call callee arguments _ => callee.constants ++ constantsOfAll arguments
  | .get object _ => object.constants
  | .set object _ value => object.constants ++ value.constants

/-- The constants in a list of expressions. -/
def constantsOfAll : List Expr → List Literal
  | [] => []
  | e :: es => e.constants ++ constantsOfAll es

end

end Expr

/-- Whether a constant is no string and no infinite number. -/
def Literal.IsPlain : Literal → Prop
  | .nil | .bool _ => True
  | .number value => Number.Finite value
  | .string _ => False

instance : DecidablePred Literal.IsPlain
  | .nil | .bool _ => .isTrue trivial
  | .number value => inferInstanceAs (Decidable (Number.Finite value))
  | .string _ => .isFalse id

/-- Whether an expression contains no string and only finite numbers. -/
def Expr.HasPlainConstants (e : Expr) : Prop :=
  ∀ value ∈ e.constants, value.IsPlain

instance : DecidablePred Expr.HasPlainConstants := fun e =>
  inferInstanceAs (Decidable (∀ value ∈ e.constants, value.IsPlain))

/-! ## Expressions as forms -/

namespace Expr

mutual

/-- An expression as a nested form. -/
def toForm : Expr → Form
  | .literal value => .word value.inTree
  | .grouping inner => .node "group" [inner.toForm]
  | .unary op right _ => .node op.symbol [right.toForm]
  | .binary left op right _ => .node op.symbol [left.toForm, right.toForm]
  | .logical left op right => .node op.symbol [left.toForm, right.toForm]
  | .variable _ name => .word name.lexeme
  | .assign _ name value => .node "=" [.word name.lexeme, value.toForm]
  | .call callee arguments _ => .node "call" (callee.toForm :: toForms arguments)
  | .get object name => .node "." [object.toForm, .word name.lexeme]
  | .set object name value =>
    .node "=" [.node "." [object.toForm, .word name.lexeme], value.toForm]
  | .this _ _ => .word "this"
  | .super _ _ method => .node "super" [.word method.lexeme]

/-- A list of expressions as nested forms. -/
def toForms : List Expr → List Form
  | [] => []
  | e :: es => e.toForm :: toForms es

end

private theorem text_word (text : String) : (Form.word text).text = text :=
  String.ofList_toList

mutual

/-- The printer writes the form. -/
theorem inTree_eq_text (e : Expr) : e.inTree = e.toForm.text := by
  match e with
  | .literal _ | .variable _ _ | .this _ _ => exact (text_word _).symm
  | .grouping inner =>
    rw [inTree, toForm, ← Form.form_text, inTree_eq_text inner]
    rfl
  | .unary _ right _ =>
    rw [inTree, toForm, ← Form.form_text, inTree_eq_text right]
    rfl
  | .binary left _ right _ | .logical left _ right =>
    rw [inTree, toForm, ← Form.form_text, inTree_eq_text left, inTree_eq_text right]
    rfl
  | .assign _ name value =>
    rw [inTree, toForm, ← Form.form_text, inTree_eq_text value]
    simp only [List.map_cons, List.map_nil, text_word]
  | .call callee arguments _ =>
    rw [inTree, toForm, ← Form.form_text, inTree_eq_text callee, inTreeAll_eq_text arguments]
    rfl
  | .get object name =>
    rw [inTree, toForm, ← Form.form_text, inTree_eq_text object]
    simp only [List.map_cons, List.map_nil, text_word]
  | .set object name value =>
    rw [inTree, toForm, ← Form.form_text, inTree_eq_text object, inTree_eq_text value]
    simp only [List.map_cons, List.map_nil, text_word, ← Form.form_text]
  | .super _ _ method =>
    rw [inTree, toForm, ← Form.form_text]
    simp only [List.map_cons, List.map_nil, text_word]

theorem inTreeAll_eq_text (es : List Expr) : inTreeAll es = (toForms es).map Form.text := by
  match es with
  | [] => rfl
  | e :: es => rw [inTreeAll, toForms, List.map_cons, inTree_eq_text e, inTreeAll_eq_text es]

end

end Expr

/-! ## Reading a form -/

/-- The operator that is written so. -/
def UnaryOp.ofSymbol (symbol : String) : UnaryOp :=
  if symbol = "-" then .negate else .not

/-- The operator that is written so, if it evaluates both operands. -/
def BinaryOp.ofSymbol? (symbol : String) : Option BinaryOp :=
  [.add, .subtract, .multiply, .divide, .equal, .notEqual, .less, .lessEqual, .greater,
    .greaterEqual].find? fun op : BinaryOp => op.symbol == symbol

/-- The operator that is written so, if it may leave its right operand unevaluated. -/
def LogicalOp.ofSymbol (symbol : String) : LogicalOp :=
  if symbol = "and" then .and else .or

namespace Form

open Classical in
/-- What a word stands for. -/
noncomputable def ofWord (text : String) : Expr :=
  if text = "nil" then .literal .nil
  else if text = "true" then .literal (.bool true)
  else if text = "false" then .literal (.bool false)
  else if text = "this" then .this 0 0
  else if number : ∃ x, Number.Finite x ∧ Number.inTree x = text then
    .literal (.number number.choose)
  else .variable 0 ⟨text, 0⟩

/-- What a head stands for in front of its parts. -/
def assemble : String → List Expr → Expr
  | "group", [inner] => .grouping inner
  | "call", callee :: arguments => .call callee arguments 0
  | ".", [object, .variable _ name] => .get object name
  | "=", [.variable _ name, value] => .assign 0 name value
  | "=", [.get object name, value] => .set object name value
  | "super", [.variable _ method] => .super 0 0 method
  | head, [right] => .unary (.ofSymbol head) right 0
  | head, [left, right] =>
    match BinaryOp.ofSymbol? head with
    | some op => .binary left op right 0
    | none => .logical left (.ofSymbol head) right
  | _, _ => .literal .nil

mutual

/-- The expression that a form is of. -/
noncomputable def read : Form → Expr
  | word text => ofWord text
  | node head parts => assemble head (readAll parts)

/-- The expressions that forms are of. -/
noncomputable def readAll : List Form → List Expr
  | [] => []
  | part :: parts => part.read :: readAll parts

end

theorem assemble_unary (op : UnaryOp) (right : Expr) :
    assemble op.symbol [right] = .unary op right 0 := by
  cases op <;> rfl

theorem assemble_binary (op : BinaryOp) (left right : Expr) :
    assemble op.symbol [left, right] = .binary left op right 0 := by
  cases op <;> rfl

theorem assemble_logical (op : LogicalOp) (left right : Expr) :
    assemble op.symbol [left, right] = .logical left op right := by
  cases op <;> rfl

/-! ### Words -/

theorem not_isDelimiter {c : Char} (inside : c.isDigit = true ∨ c = '.' ∨ c = '-' ∨ IsLetter c) :
    isDelimiter c = false := by
  by_contra delimiter
  simp only [isDelimiter, Bool.or_eq_true, beq_iff_eq, Bool.not_eq_false] at delimiter
  have none (d : Char) (h : d = ' ' ∨ d = '(' ∨ d = ')') :
      ¬ (d.isDigit = true ∨ d = '.' ∨ d = '-' ∨ IsLetter d) := by
    unfold IsLetter
    rcases h with rfl | rfl | rfl <;> decide
  exact none c (or_assoc.mp delimiter) inside

/-- A number contains no letter. -/
theorem inTree_ne {x : Float} (hx : Number.Finite x) {c : Char} {text : String}
    (letter : IsLetter c) (member : c ∈ text.toList) : Number.inTree x ≠ text := by
  rintro rfl
  have none (d : Char) (h : d = '.' ∨ d = '-') : ¬ IsLetter d := by
    unfold IsLetter
    rcases h with rfl | rfl <;> decide
  rcases Number.mem_inTree hx member with digit | mark
  · have other := Piece.not_isDigit_of_letter ((isLetter_iff c).mpr letter)
    exact Bool.false_ne_true (other.symm.trans digit)
  · exact none c mark letter

theorem ofWord_number {x : Float} (hx : Number.Finite x) :
    ofWord (Number.inTree x) = .literal (.number x) := by
  have found : ∃ y, Number.Finite y ∧ Number.inTree y = Number.inTree x := ⟨x, hx, rfl⟩
  have same := Number.inTree_inj found.choose_spec.1 hx found.choose_spec.2
  have other (c : Char) (letter : IsLetter c) (text : String) (member : c ∈ text.toList) :
      Number.inTree x ≠ text := inTree_ne hx letter member
  have letters : IsLetter 'n' ∧ IsLetter 't' ∧ IsLetter 'f' := by
    unfold IsLetter
    decide
  rw [ofWord, if_neg (other 'n' letters.1 _ (by decide)),
    if_neg (other 't' letters.2.1 _ (by decide)), if_neg (other 'f' letters.2.2 _ (by decide)),
    if_neg (other 't' letters.2.1 _ (by decide)), dif_pos found, same]

theorem ofWord_literal {value : Literal} (plain : value.IsPlain) :
    ofWord value.inTree = .literal value := by
  cases value with
  | nil => rfl
  | bool value => cases value <;> rfl
  | number value => exact ofWord_number plain
  | string => exact plain.elim

theorem ofWord_identifier {text : String} (identifier : Lexeme .identifier text.toList) :
    ofWord text = .variable 0 ⟨text, 0⟩ := by
  have reserved (word : Keyword) : text ≠ word.spelling := by
    rintro rfl
    generalize spelled : word.spelling.toList = cs at identifier
    cases identifier with
    | identifier _ _ free => exact free word spelled
  have number : ¬ ∃ x, Number.Finite x ∧ Number.inTree x = text := by
    rintro ⟨x, finite, same⟩
    generalize spelled : text.toList = cs at identifier
    cases identifier with
    | identifier begins _ _ =>
      exact inTree_ne finite begins (spelled ▸ List.mem_cons_self) same
  have nil : text ≠ "nil" := reserved .nil
  have true : text ≠ "true" := reserved .true
  have false : text ≠ "false" := reserved .false
  have this : text ≠ "this" := reserved .this
  rw [ofWord, if_neg nil, if_neg true, if_neg false, if_neg this, dif_neg number]

theorem sound_number {x : Float} (hx : Number.Finite x) : (word (Number.inTree x)).Sound := by
  refine ⟨Number.inTree_ne_nil hx, solid_iff.mpr fun c member => not_isDelimiter ?_⟩
  rcases Number.mem_inTree hx member with digit | point | sign
  · exact .inl digit
  · exact .inr (.inl point)
  · exact .inr (.inr (.inl sign))

theorem sound_literal {value : Literal} (plain : value.IsPlain) : (word value.inTree).Sound := by
  cases value with
  | nil => exact ⟨by decide, rfl⟩
  | bool value => cases value <;> exact ⟨by decide, rfl⟩
  | number value => exact sound_number plain
  | string => exact plain.elim

theorem sound_identifier {text : String} (identifier : Lexeme .identifier text.toList) :
    (word text).Sound := by
  generalize spelled : text.toList = cs at identifier
  cases identifier with
  | identifier begins continues _ =>
    refine ⟨spelled ▸ List.cons_ne_nil _ _, solid_iff.mpr fun c member => not_isDelimiter ?_⟩
    rw [spelled] at member
    rcases List.mem_cons.mp member with rfl | member
    · exact .inr (.inr (.inr begins))
    · rcases continues c member with letter | digit
      · exact .inr (.inr (.inr letter))
      · exact .inl ((isDigit_iff c).mpr digit)

end Form

/-! ## Expressions that are read -/

/-- Tokens whose identifiers are spelled by the rules. -/
def Lexicon.spelled : Lexicon where
  tokens t := t.kind = .identifier → Lexeme .identifier t.lexeme.toList
  spelt := by
    intro t known word
    have identifier := known word
    generalize spelling : t.lexeme.toList = cs at identifier
    cases reserved : Keyword.ofSpelling? t.lexeme with
    | none => rfl
    | some keyword =>
      rw [← String.ofList_toList (s := t.lexeme), spelling, ofSpelling?_eq_some_iff] at reserved
      cases identifier with
      | identifier _ _ free => exact (free keyword reserved).elim

theorem spelled_of_mem_scan (source : String) {t : Token} (member : t ∈ (scan source).1) :
    Lexicon.spelled.tokens t := by
  intro word
  rcases lexeme_of_mem_scan member with ended | lexeme
  · exact nomatch word.symm.trans ended
  · rwa [word] at lexeme

theorem Name.From.lexeme {name : Name} (from_ : name.From .spelled) :
    Lexeme .identifier name.lexeme.toList := by
  obtain ⟨t, known, word, rfl⟩ := from_
  exact known word

namespace Expr

mutual

theorem sound_toForm (e : Expr) (plain : e.HasPlainConstants) (from_ : e.From .spelled) :
    e.toForm.Sound := by
  match e, from_ with
  | .literal value, _ => exact Form.sound_literal (plain value List.mem_cons_self)
  | .grouping inner, from_ => exact ⟨rfl, sound_toForm inner plain from_, trivial⟩
  | .unary op right _, from_ =>
    exact ⟨by cases op <;> rfl, sound_toForm right plain from_.2, trivial⟩
  | .binary left op right _, from_ =>
    obtain ⟨first, second⟩ := List.forall_mem_append.mp plain
    exact ⟨by cases op <;> rfl, sound_toForm left first from_.2.1,
      sound_toForm right second from_.2.2, trivial⟩
  | .logical left op right, from_ =>
    obtain ⟨first, second⟩ := List.forall_mem_append.mp plain
    exact ⟨by cases op <;> rfl, sound_toForm left first from_.1,
      sound_toForm right second from_.2, trivial⟩
  | .variable _ name, from_ => exact Form.sound_identifier (Name.From.lexeme from_)
  | .assign _ name value, from_ =>
    exact ⟨rfl, Form.sound_identifier from_.1.lexeme, sound_toForm value plain from_.2, trivial⟩
  | .call callee arguments _, from_ =>
    obtain ⟨first, second⟩ := List.forall_mem_append.mp plain
    exact ⟨rfl, sound_toForm callee first from_.2.1, sound_toForms arguments second from_.2.2⟩
  | .get object name, from_ =>
    exact ⟨rfl, sound_toForm object plain from_.2, Form.sound_identifier from_.1.lexeme, trivial⟩
  | .set object name value, from_ =>
    obtain ⟨first, second⟩ := List.forall_mem_append.mp plain
    exact ⟨rfl, ⟨rfl, sound_toForm object first from_.2.1,
      Form.sound_identifier from_.1.lexeme, trivial⟩, sound_toForm value second from_.2.2, trivial⟩
  | .this _ _, _ => exact ⟨by decide, rfl⟩
  | .super _ _ method, from_ => exact ⟨rfl, Form.sound_identifier from_.2.lexeme, trivial⟩

theorem sound_toForms (es : List Expr) (plain : ∀ value ∈ constantsOfAll es, value.IsPlain)
    (from_ : Expr.AllFrom .spelled es) : Form.AllSound (toForms es) := by
  match es, from_ with
  | [], _ => trivial
  | e :: es, from_ =>
    obtain ⟨first, rest⟩ := List.forall_mem_append.mp plain
    exact ⟨sound_toForm e first from_.1, sound_toForms es rest from_.2⟩

end

mutual

/-- **The form is read back as the expression.** -/
theorem read_toForm (e : Expr) (plain : e.HasPlainConstants) (from_ : e.From .spelled) :
    e.toForm.read = e.unlabelled := by
  match e, from_ with
  | .literal value, _ => exact Form.ofWord_literal (plain value List.mem_cons_self)
  | .grouping inner, from_ =>
    simp only [toForm, Form.read, Form.readAll, read_toForm inner plain from_]
    rfl
  | .unary op right _, from_ =>
    simp only [toForm, Form.read, Form.readAll, read_toForm right plain from_.2,
      Form.assemble_unary]
    rfl
  | .binary left op right _, from_ =>
    obtain ⟨first, second⟩ := List.forall_mem_append.mp plain
    simp only [toForm, Form.read, Form.readAll, read_toForm left first from_.2.1,
      read_toForm right second from_.2.2, Form.assemble_binary]
    rfl
  | .logical left op right, from_ =>
    obtain ⟨first, second⟩ := List.forall_mem_append.mp plain
    simp only [toForm, Form.read, Form.readAll, read_toForm left first from_.1,
      read_toForm right second from_.2, Form.assemble_logical]
    rfl
  | .variable _ name, from_ => exact Form.ofWord_identifier (Name.From.lexeme from_)
  | .assign _ name value, from_ =>
    simp only [toForm, Form.read, Form.readAll, Form.ofWord_identifier from_.1.lexeme,
      read_toForm value plain from_.2]
    rfl
  | .call callee arguments _, from_ =>
    obtain ⟨first, second⟩ := List.forall_mem_append.mp plain
    simp only [toForm, Form.read, Form.readAll, read_toForm callee first from_.2.1,
      readAll_toForms arguments second from_.2.2]
    rfl
  | .get object name, from_ =>
    simp only [toForm, Form.read, Form.readAll, Form.ofWord_identifier from_.1.lexeme,
      read_toForm object plain from_.2]
    rfl
  | .set object name value, from_ =>
    obtain ⟨first, second⟩ := List.forall_mem_append.mp plain
    simp only [toForm, Form.read, Form.readAll, Form.ofWord_identifier from_.1.lexeme,
      read_toForm object first from_.2.1, read_toForm value second from_.2.2]
    rfl
  | .this _ _, _ => rfl
  | .super _ _ method, from_ =>
    simp only [toForm, Form.read, Form.readAll, Form.ofWord_identifier from_.2.lexeme]
    rfl

theorem readAll_toForms (es : List Expr) (plain : ∀ value ∈ constantsOfAll es, value.IsPlain)
    (from_ : Expr.AllFrom .spelled es) : Form.readAll (toForms es) = unlabelledAll es := by
  match es, from_ with
  | [], _ => rfl
  | e :: es, from_ =>
    obtain ⟨first, rest⟩ := List.forall_mem_append.mp plain
    rw [toForms, Form.readAll, read_toForm e first from_.1, readAll_toForms es rest from_.2]
    rfl

end

mutual

/-- Ids and lines do not show in the form. -/
theorem toForm_unlabelled (e : Expr) : e.unlabelled.toForm = e.toForm := by
  match e with
  | .literal _ | .variable _ _ | .this _ _ | .super _ _ _ => rfl
  | .grouping inner => simp only [unlabelled, toForm, toForm_unlabelled inner]
  | .unary _ right _ => simp only [unlabelled, toForm, toForm_unlabelled right]
  | .binary left _ right _ | .logical left _ right =>
    simp only [unlabelled, toForm, toForm_unlabelled left, toForm_unlabelled right]
  | .assign _ _ value => simp only [unlabelled, toForm, toForm_unlabelled value]
  | .call callee arguments _ =>
    simp only [unlabelled, toForm, toForm_unlabelled callee, toForms_unlabelled arguments]
  | .get object _ => simp only [unlabelled, toForm, toForm_unlabelled object]
  | .set object _ value =>
    simp only [unlabelled, toForm, toForm_unlabelled object, toForm_unlabelled value]

theorem toForms_unlabelled (es : List Expr) : toForms (unlabelledAll es) = toForms es := by
  match es with
  | [] => rfl
  | e :: es => simp only [unlabelledAll, toForms, toForm_unlabelled e, toForms_unlabelled es]

end

/-- Expressions of identifiers that are spelled by the rules are told apart by their texts. -/
theorem inTree_eq_iff {e e' : Expr} (plain : e.HasPlainConstants) (plain' : e'.HasPlainConstants)
    (from_ : e.From .spelled) (from' : e'.From .spelled) :
    e.inTree = e'.inTree ↔ e.unlabelled = e'.unlabelled := by
  rw [inTree_eq_text, inTree_eq_text]
  constructor
  · intro same
    have form := Form.text_inj (sound_toForm e plain from_) (sound_toForm e' plain' from') same
    rw [← read_toForm e plain from_, form, read_toForm e' plain' from']
  · intro same
    rw [← toForm_unlabelled e, same, toForm_unlabelled e']

end Expr

/-! ## The expressions in a program -/

mutual

/-- The expressions in a statement, the superclass in the head of a class among them. -/
def Stmt.expressions : Stmt → List Expr
  | .expression e | .print e => [e]
  | .var _ initializer => initializer.toList
  | .block body => Stmt.expressionsOfAll body
  | .if condition thenBranch elseBranch =>
    condition :: (thenBranch.expressions ++ Stmt.expressionsOf? elseBranch)
  | .while condition body => condition :: body.expressions
  | .function declaration => declaration.expressions
  | .return _ value => value.toList
  | .class _ superclass methods =>
    superclass.toList.map (fun above => .variable above.id above.name) ++
      FunctionDecl.expressionsOfAll methods

/-- Those in a list of statements. -/
def Stmt.expressionsOfAll : List Stmt → List Expr
  | [] => []
  | s :: ss => s.expressions ++ Stmt.expressionsOfAll ss

/-- Those in a branch, if there is one. -/
def Stmt.expressionsOf? : Option Stmt → List Expr
  | some s => s.expressions
  | none => []

/-- Those in the body of a function. -/
def FunctionDecl.expressions : FunctionDecl → List Expr
  | .mk _ _ body => Stmt.expressionsOfAll body

/-- Those in the bodies of a list of functions. -/
def FunctionDecl.expressionsOfAll : List FunctionDecl → List Expr
  | [] => []
  | f :: fs => f.expressions ++ FunctionDecl.expressionsOfAll fs

end

theorem Expr.From?.of_mem {l : Lexicon} {value : Option Expr} (from_ : Expr.From? l value)
    {e : Expr} (member : e ∈ value.toList) : e.From l := by
  obtain rfl := Option.mem_toList.mp member
  exact from_

mutual

/-- The expressions in a statement come from where the statement does. -/
theorem Stmt.From.expressions {o : Origin} {s : Stmt} (from_ : s.From o) :
    ∀ e ∈ s.expressions, e.From o := by
  match s, from_ with
  | .expression _, from_ => exact List.forall_mem_singleton.mpr from_
  | .print _, from_ => exact List.forall_mem_singleton.mpr from_.1
  | .var _ _, from_ => exact fun _ member => from_.2.of_mem member
  | .block _, from_ => exact Stmt.AllFrom.expressions from_
  | .if _ _ _, from_ =>
    exact List.forall_mem_cons.mpr ⟨from_.1, List.forall_mem_append.mpr
      ⟨from_.2.1.1.expressions, Stmt.From?.expressions from_.2.2⟩⟩
  | .while _ _, from_ => exact List.forall_mem_cons.mpr ⟨from_.1, from_.2.1.expressions⟩
  | .function _, from_ => exact FunctionDecl.From.expressions from_
  | .return _ _, from_ => exact fun _ member => Expr.From?.of_mem from_ member
  | .class _ superclass _, from_ =>
    refine List.forall_mem_append.mpr ⟨?_, FunctionDecl.AllFrom.expressions from_.2.2⟩
    cases superclass with
    | none => exact fun _ member => absurd member List.not_mem_nil
    | some above => exact List.forall_mem_singleton.mpr (from_.2.1 above rfl)

theorem Stmt.AllFrom.expressions {o : Origin} {ss : List Stmt} (from_ : Stmt.AllFrom o ss) :
    ∀ e ∈ Stmt.expressionsOfAll ss, e.From o := by
  match ss, from_ with
  | [], _ => exact fun _ member => absurd member List.not_mem_nil
  | _ :: _, from_ =>
    exact List.forall_mem_append.mpr ⟨from_.1.expressions, Stmt.AllFrom.expressions from_.2⟩

theorem Stmt.From?.expressions {o : Origin} {s? : Option Stmt} (from_ : Stmt.From? o s?) :
    ∀ e ∈ Stmt.expressionsOf? s?, e.From o := by
  match s?, from_ with
  | none, _ => exact fun _ member => absurd member List.not_mem_nil
  | some _, from_ => exact from_.1.expressions

theorem FunctionDecl.From.expressions {o : Origin} {f : FunctionDecl} (from_ : f.From o) :
    ∀ e ∈ f.expressions, e.From o := by
  match f, from_ with
  | .mk _ _ _, from_ => exact Stmt.AllFrom.expressions from_.2.2

theorem FunctionDecl.AllFrom.expressions {o : Origin} {fs : List FunctionDecl}
    (from_ : FunctionDecl.AllFrom o fs) : ∀ e ∈ FunctionDecl.expressionsOfAll fs, e.From o := by
  match fs, from_ with
  | [], _ => exact fun _ member => absurd member List.not_mem_nil
  | _ :: _, from_ =>
    exact List.forall_mem_append.mpr
      ⟨FunctionDecl.From.expressions from_.1, FunctionDecl.AllFrom.expressions from_.2⟩

end

/-! ## What a parser returns -/

namespace Parser

/-- Whether an expression is returned for a source: as the whole of it, or in its program. -/
def Returns (source : String) (firstId : NodeId) (e : Expr) : Prop :=
  (parseExpression (scan source).1 firstId).outcome = .ok e ∨
    ∃ program, (parse (scan source).1 firstId).outcome = .ok program ∧
      ∃ s ∈ program, e ∈ s.expressions

/-- What is returned is made of the tokens of the source. -/
theorem Returns.from {source : String} {firstId : NodeId} {e : Expr}
    (returned : Returns source firstId e) : e.From .spelled := by
  let o : Origin := { toLexicon := .spelled, bare := True }
  rcases returned with whole | ⟨program, read, s, member, inside⟩
  · rw [scan_fst] at whole
    obtain ⟨m, -, derived⟩ := derived_of_parseExpression (Tokens.ofSource source) whole
    refine Grammar.yields_expression _ _ _ _ _ (Nat.lt_succ_self _) (fun t body => ?_) derived
    exact spelled_of_mem_scan source (by rw [scan_fst]; exact List.mem_append_left _ body)
  · rw [scan_fst] at read
    have known : ∀ t ∈ (Tokens.ofSource source).body, o.tokens t := fun t body =>
      spelled_of_mem_scan source (by rw [scan_fst]; exact List.mem_append_left _ body)
    exact (from_of_parse (Tokens.ofSource source) known read (fun _ _ _ _ _ => trivial) s
      member).expressions e inside

end Parser

/-- **A printed tree determines the expression.** Two expressions that are returned for any sources,
that contain no strings and only finite numbers, are printed alike exactly if they are the same up to
ids and lines. -/
theorem printed_tree_determines_expression {source source' : String} {firstId firstId' : NodeId}
    {e e' : Expr} (returned : Parser.Returns source firstId e)
    (returned' : Parser.Returns source' firstId' e') (plain : e.HasPlainConstants)
    (plain' : e'.HasPlainConstants) :
    e.inTree = e'.inTree ↔ e.unlabelled = e'.unlabelled :=
  Expr.inTree_eq_iff plain plain' returned.from returned'.from

/-- Finds the expression with a given tree that is returned for a source. -/
private theorem exists_returned {source text : String} {firstId : NodeId}
    (found : ((Parser.parseExpression (scan source).1 firstId).outcome.toOption.any fun e =>
      decide (e.HasPlainConstants ∧ e.inTree = text)) = true) :
    ∃ e, Parser.Returns source firstId e ∧ e.HasPlainConstants ∧ e.inTree = text := by
  cases read : (Parser.parseExpression (scan source).1 firstId).outcome with
  | error => simp [read, Except.toOption] at found
  | ok e =>
    rw [read] at found
    exact ⟨e, .inl read, of_decide_eq_true found⟩

/-- A call on one line and on three lines, with different ids: the function has the name of a head. -/
theorem call_is_told_by_its_tree :
    ∃ e e', Parser.Returns "group(-1.5)" 0 e ∧ Parser.Returns "\ngroup(-1.50\n)" 7 e' ∧
      e.HasPlainConstants ∧ e'.HasPlainConstants ∧ e.inTree = "(call group (- 1.5))" ∧
      e'.inTree = "(call group (- 1.5))" ∧ e.unlabelled = e'.unlabelled := by
  obtain ⟨e, returned, plain, text⟩ :=
    @exists_returned "group(-1.5)" "(call group (- 1.5))" 0 (by decide +kernel)
  obtain ⟨e', returned', plain', text'⟩ :=
    @exists_returned "\ngroup(-1.50\n)" "(call group (- 1.5))" 7 (by decide +kernel)
  exact ⟨e, e', returned, returned', plain, plain', text, text',
    (printed_tree_determines_expression returned returned' plain plain').mp (text.trans text'.symm)⟩

end Lox
