import Lox.Parser
import Lox.Proofs.Syntax

/-!
# What the parser yields

The trees that the parser builds are well formed, and their uses are numbered without repetition.
The counter of ids only grows, whether a rule succeeds or fails, and the uses in a tree are numbered
by what the counter passed while the tree was read. An id is such a number cut to 32 bits, so ids
are distinct as long as the counter stays within that many.

`Parser.Yields` says this of a rule; what holds of its result is stated with the counter before and
after. It is closed under sequencing, and there is one fact for each rule of the grammar. The numbers
are so in all lists of tokens. What is said of names holds in the `strict` reading, where no
identifier among the tokens is spelt like a reserved word, as in the tokens of a source.
-/

set_option autoImplicit false

namespace Lox

/-- Whether an identifier among the tokens is spelt like one. -/
def Token.Spelt (t : Token) : Prop :=
  t.kind = .identifier → Keyword.ofSpelling? t.lexeme = none

/-- The cursor stands before tokens that are spelt as they should. -/
def Cursor.Spelt (c : Cursor) : Prop :=
  ∀ t ∈ c.current :: c.rest, t.Spelt

/-- Whether a use of a variable names it by an identifier. -/
def Access.Named : Access → Prop
  | .read _ name | .assign _ name => name.IsIdentifier
  | .this _ _ | .super _ _ => True

/-- The uses have distinct numbers from `lo` on and below `hi`, of which their ids are the lower 32
bits, and in the strict reading they name variables by identifiers. -/
structure Issued (strict : Prop) (lo hi : Nat) (accesses : List Access) : Prop where
  numbers : ∃ numbers : List Nat, numbers.Nodup ∧ (∀ n ∈ numbers, lo ≤ n ∧ n < hi) ∧
    accesses.map Access.id = numbers.map (· % Parser.idCount)
  named : strict → ∀ a ∈ accesses, a.Named

namespace Issued

variable {strict : Prop} {lo mid hi : Nat} {as bs : List Access}

theorem nil (lo hi : Nat) : Issued strict lo hi [] where
  numbers := ⟨[], List.nodup_nil, fun _ member => absurd member List.not_mem_nil, rfl⟩
  named _ _ member := absurd member List.not_mem_nil

theorem single (a : Access) (named : strict → a.Named) (numbered : a.id = lo % Parser.idCount) :
    Issued strict lo (lo + 1) [a] where
  numbers := by
    refine ⟨[lo], List.nodup_cons.mpr ⟨List.not_mem_nil, List.nodup_nil⟩, ?_, ?_⟩
    · intro n member
      rw [List.mem_singleton.mp member]
      omega
    · rw [List.map_singleton, List.map_singleton, numbered]
  named spelt b member := by
    rw [List.mem_singleton.mp member]
    exact named spelt

/-- Numbers that are issued apart from each other are distinct. -/
theorem union {lo₁ hi₁ lo₂ hi₂ : Nat} (first : Issued strict lo₁ hi₁ as)
    (second : Issued strict lo₂ hi₂ bs)
    (apart : hi₁ ≤ lo₂ ∨ hi₂ ≤ lo₁) (low : lo ≤ lo₁ ∧ lo ≤ lo₂) (high : hi₁ ≤ hi ∧ hi₂ ≤ hi) :
    Issued strict lo hi (as ++ bs) where
  numbers := by
    obtain ⟨ns, distinct₁, range₁, ids₁⟩ := first.numbers
    obtain ⟨ks, distinct₂, range₂, ids₂⟩ := second.numbers
    refine ⟨ns ++ ks, ?_, ?_, by rw [List.map_append, List.map_append, ids₁, ids₂]⟩
    · refine List.nodup_append.mpr ⟨distinct₁, distinct₂, ?_⟩
      intro n early k late same
      have inFirst := range₁ n early
      have inSecond := range₂ k late
      omega
    · intro n member
      rcases List.mem_append.mp member with early | late
      · have inFirst := range₁ n early
        omega
      · have inSecond := range₂ n late
        omega
  named spelt a member :=
    (List.mem_append.mp member).elim (first.named spelt a) (second.named spelt a)

theorem append (first : Issued strict lo mid as) (second : Issued strict mid hi bs) (le₁ : lo ≤ mid)
    (le₂ : mid ≤ hi) : Issued strict lo hi (as ++ bs) :=
  first.union second (.inl (Nat.le_refl mid)) ⟨Nat.le_refl lo, le₁⟩ ⟨le₂, Nat.le_refl hi⟩

/-- What was read first may be listed last. -/
theorem appendTo (first : Issued strict lo mid as) (second : Issued strict mid hi bs) (le₁ : lo ≤ mid)
    (le₂ : mid ≤ hi) : Issued strict lo hi (bs ++ as) :=
  second.union first (.inr (Nat.le_refl mid)) ⟨le₁, Nat.le_refl lo⟩ ⟨Nat.le_refl hi, le₂⟩

theorem mono {lo' hi' : Nat} (issued : Issued strict lo hi as) (le : lo' ≤ lo) (le' : hi ≤ hi') :
    Issued strict lo' hi' as where
  numbers := by
    obtain ⟨ns, distinct, range, ids⟩ := issued.numbers
    refine ⟨ns, distinct, fun n member => ?_, ids⟩
    have inside := range n member
    omega
  named := issued.named

/-- As long as the counter stays within the ids, the ids are the numbers. -/
theorem ids (issued : Issued strict lo hi as) (few : hi ≤ Parser.idCount) :
    (as.map Access.id).Nodup ∧ ∀ a ∈ as, lo ≤ a.id ∧ a.id < hi := by
  obtain ⟨ns, distinct, range, ids⟩ := issued.numbers
  have same : ns.map (· % Parser.idCount) = ns :=
    calc ns.map (· % Parser.idCount)
        = ns.map id := List.map_congr_left fun n member =>
          Nat.mod_eq_of_lt (Nat.lt_of_lt_of_le (range n member).2 few)
      _ = ns := List.map_id ns
  rw [same] at ids
  refine ⟨ids ▸ distinct, fun a member => range _ ?_⟩
  rw [← ids]
  exact List.mem_map_of_mem member

end Issued

namespace Cursor

theorem spelt_moved {c : Cursor} (spelt : c.Spelt) : c.moved.Spelt := by
  unfold moved
  split
  · exact spelt
  · split
    · exact spelt
    · next next rest ahead =>
      intro t member
      exact spelt t (List.mem_cons_of_mem _ (ahead ▸ member))

theorem spelt_resume (previous : Token) {current : Token} {rest : List Token}
    (spelt : ∀ t ∈ current :: rest, t.Spelt) :
    ∀ t ∈ (resume previous current rest).1 :: (resume previous current rest).2, t.Spelt := by
  induction rest generalizing previous current with
  | nil => exact spelt
  | cons next rest ih =>
    rw [resume]
    split
    · exact spelt
    · exact ih current fun t member => spelt t (List.mem_cons_of_mem _ member)

theorem spelt_synchronized {c : Cursor} (spelt : c.Spelt) : c.synchronized.Spelt := by
  unfold synchronized
  split
  · exact spelt
  · exact spelt_resume c.current (spelt_moved spelt)

theorem nextId_synchronized (c : Cursor) : c.synchronized.nextId = c.nextId := by
  unfold synchronized
  split
  · rfl
  · rfl

theorem spelt_current {c : Cursor} (spelt : c.Spelt) : c.current.Spelt :=
  spelt _ List.mem_cons_self

end Cursor

namespace Parser

variable {α β : Type} {strict : Prop}

/-- A rule that takes no ids, and what holds of its result. -/
def Reads (strict : Prop) (p : Parser α) (post : α → Prop) : Prop :=
  ∀ c, (strict → c.Spelt) →
    match p c with
    | .ok a c' => (strict → c'.Spelt) ∧ c'.nextId = c.nextId ∧ post a
    | .error _ c' => (strict → c'.Spelt) ∧ c'.nextId = c.nextId

/-- A rule under which the counter does not decrease, and what holds of its result and the counter
before and after. -/
def Yields (strict : Prop) (p : Parser α) (post : Nat → Nat → α → Prop) : Prop :=
  ∀ c, (strict → c.Spelt) →
    match p c with
    | .ok a c' => (strict → c'.Spelt) ∧ c.nextId ≤ c'.nextId ∧ post c.nextId c'.nextId a
    | .error _ c' => (strict → c'.Spelt) ∧ c.nextId ≤ c'.nextId

/-! ## Sequencing -/

theorem bind_eq (p : Parser α) (f : α → Parser β) (c : Cursor) :
    (p >>= f) c =
      match p c with
      | .ok a c' => f a c'
      | .error e c' => .error e c' := by
  simp only [bind, EStateM.bind]
  cases p c <;> rfl

section

variable {p : Parser α} {f : α → Parser β} {post₁ : α → Prop} {post : Nat → Nat → β → Prop}

theorem yields_pure {a : β} (holds : ∀ n, post n n a) : Yields strict (pure a) post :=
  fun c spelt => ⟨spelt, Nat.le_refl _, holds c.nextId⟩

theorem reads_pure {a : α} (holds : post₁ a) : Reads strict (pure a) post₁ :=
  fun _ spelt => ⟨spelt, rfl, holds⟩

/-- What comes after a rule that takes no ids. -/
theorem Reads.bind (first : Reads strict p post₁)
    (second : ∀ a, post₁ a → Yields strict (f a) post) : Yields strict (p >>= f) post := by
  intro c spelt
  have before := first c spelt
  rw [bind_eq]
  cases ends : p c with
  | ok a c' =>
    rw [ends] at before
    obtain ⟨spelt', same, holds⟩ := before
    have after := second a holds c' spelt'
    rw [same] at after
    exact after
  | error e c' =>
    rw [ends] at before
    exact ⟨before.1, Nat.le_of_eq before.2.symm⟩

theorem Reads.then {post₂ : β → Prop} (first : Reads strict p post₁)
    (second : ∀ a, post₁ a → Reads strict (f a) post₂) : Reads strict (p >>= f) post₂ := by
  intro c spelt
  have before := first c spelt
  rw [bind_eq]
  cases ends : p c with
  | ok a c' =>
    rw [ends] at before
    obtain ⟨spelt', same, holds⟩ := before
    have after := second a holds c' spelt'
    rw [same] at after
    exact after
  | error e c' =>
    rw [ends] at before
    exact before

/-- What comes after a rule that takes ids is read with the counter of a later time. -/
theorem Yields.bind {before : Nat → Nat → α → Prop} (first : Yields strict p before)
    (second : ∀ a, Yields strict (f a) fun mid hi b => ∀ lo, lo ≤ mid → mid ≤ hi → before lo mid a →
      post lo hi b) : Yields strict (p >>= f) post := by
  intro c spelt
  have here := first c spelt
  rw [bind_eq]
  cases ends : p c with
  | ok a c' =>
    rw [ends] at here
    obtain ⟨spelt', le, holds⟩ := here
    have after := second a c' spelt'
    dsimp only
    cases ends' : f a c' with
    | ok b c'' =>
      rw [ends'] at after
      exact ⟨after.1, Nat.le_trans le after.2.1, after.2.2 _ le after.2.1 holds⟩
    | error e c'' =>
      rw [ends'] at after
      exact ⟨after.1, Nat.le_trans le after.2⟩
  | error e c' =>
    rw [ends] at here
    exact here

theorem Yields.mono {post' : Nat → Nat → β → Prop} {q : Parser β} (yields : Yields strict q post)
    (weaker : ∀ lo hi b, lo ≤ hi → post lo hi b → post' lo hi b) : Yields strict q post' := by
  intro c spelt
  have here := yields c spelt
  cases ends : q c with
  | ok b c' =>
    rw [ends] at here
    exact ⟨here.1, here.2.1, weaker _ _ b here.2.1 here.2.2⟩
  | error e c' =>
    rw [ends] at here
    exact here

end

/-! ## The moves of the cursor -/

theorem yields_fail (cause : SyntaxError.Cause) (post : Nat → Nat → α → Prop) :
    Yields strict (fail cause) post :=
  fun _ spelt => ⟨spelt, Nat.le_refl _⟩

theorem yields_throw (e : SyntaxError) (post : Nat → Nat → α → Prop) :
    Yields strict (throw e) post :=
  fun _ spelt => ⟨spelt, Nat.le_refl _⟩

theorem reads_peek : Reads strict peek fun t => strict → t.Spelt :=
  fun _ spelt => ⟨spelt, rfl, fun known => Cursor.spelt_current (spelt known)⟩

theorem reads_atEnd : Reads strict atEnd fun _ => True :=
  fun _ spelt => ⟨spelt, rfl, trivial⟩

theorem reads_isAt (kind : Kind) : Reads strict (isAt kind) fun _ => True :=
  fun _ spelt => ⟨spelt, rfl, trivial⟩

theorem reads_advance : Reads strict advance fun _ => True :=
  fun c spelt => ⟨fun known => Cursor.spelt_moved (spelt known), Cursor.nextId_moved c, trivial⟩

theorem reads_accept (kind : Kind) : Reads strict (accept kind) fun _ => True := by
  intro c spelt
  unfold accept
  cases c.isAt kind with
  | true => exact ⟨fun known => Cursor.spelt_moved (spelt known), Cursor.nextId_moved c, trivial⟩
  | false => exact ⟨spelt, rfl, trivial⟩

theorem reads_accept? (kind : Kind) : Reads strict (accept? kind) fun _ => True := by
  intro c spelt
  unfold accept?
  cases c.isAt kind with
  | true => exact ⟨fun known => Cursor.spelt_moved (spelt known), Cursor.nextId_moved c, trivial⟩
  | false => exact ⟨spelt, rfl, trivial⟩

theorem reads_acceptAs? (reading : Kind → Option α) :
    Reads strict (acceptAs? reading) fun _ => True := by
  intro c spelt
  unfold acceptAs?
  cases (if c.atEnd then none else reading c.current.kind) with
  | some a => exact ⟨fun known => Cursor.spelt_moved (spelt known), Cursor.nextId_moved c, trivial⟩
  | none => exact ⟨spelt, rfl, trivial⟩

theorem reads_expect (kind : Kind) (what : String) :
    Reads strict (expect kind what) fun t => (strict → t.Spelt) ∧ t.kind.agrees kind = true := by
  intro c spelt
  unfold expect
  cases found : c.isAt kind with
  | true =>
    have agrees : c.current.kind.agrees kind = true := by
      unfold Cursor.isAt at found
      rw [Bool.and_eq_true] at found
      exact found.2
    exact ⟨fun known => Cursor.spelt_moved (spelt known), Cursor.nextId_moved c,
      fun known => Cursor.spelt_current (spelt known), agrees⟩
  | false => exact ⟨spelt, rfl⟩

theorem reads_name (what : String) :
    Reads strict (name what) fun name => strict → name.IsIdentifier := by
  refine (reads_expect _ _).then fun t holds => reads_pure ?_
  obtain ⟨spelt, agrees⟩ := holds
  refine fun known => spelt known ?_
  cases kind : t.kind with
  | identifier => rfl
  | punctuation | keyword | string | number | eof =>
    rw [kind] at agrees
    cases agrees

/-- An id is the counter, cut to 32 bits. -/
theorem yields_freshId : Yields strict freshId fun lo hi id => hi = lo + 1 ∧ id = lo % idCount :=
  fun _ spelt => ⟨spelt, Nat.le_succ _, rfl, rfl⟩

theorem yields_recovering {p : Parser α} {post : Nat → Nat → α → Prop}
    (yields : Yields strict p post) : Yields strict (recovering p) post := by
  intro c spelt
  have here := yields c spelt
  unfold recovering
  cases ends : p c with
  | ok a c' =>
    rw [ends] at here
    exact here
  | error e c' =>
    rw [ends] at here
    exact ⟨fun known => Cursor.spelt_synchronized (here.1 known),
      (Cursor.nextId_synchronized c') ▸ here.2⟩

/-! ## Expressions -/

/-- The uses of an expression are those that were issued while it was read. -/
abbrev Fresh (strict : Prop) (lo hi : Nat) (e : Expr) : Prop :=
  Issued strict lo hi e.accesses

section

variable {expr : Parser Expr}

theorem yields_argumentsAfter (inner : Yields strict expr (Fresh strict)) (n : Nat)
    (read : List Expr) :
    Yields strict (argumentsAfter expr n read) fun lo hi es =>
      ∃ new, es = read.reverse ++ new ∧ Issued strict lo hi (Expr.accessesOfAll new) := by
  induction n generalizing read with
  | zero => exact yields_pure fun n => ⟨[], (List.append_nil _).symm, .nil n n⟩
  | succ n ih =>
    unfold argumentsAfter
    split
    · exact yields_fail _ _
    · refine inner.bind fun argument => (reads_accept _).bind fun more _ => ?_
      cases more with
      | true =>
        refine (ih (argument :: read)).mono ?_
        rintro mid hi es le ⟨new, rfl, issued⟩ lo le' _ first
        refine ⟨argument :: new, ?_, first.append issued le' le⟩
        rw [List.reverse_cons, List.append_assoc, List.singleton_append]
      | false =>
        refine yields_pure fun mid lo le _ first => ⟨[argument], List.reverse_cons, ?_⟩
        exact first.append (.nil mid mid) le (Nat.le_refl mid)

theorem yields_arguments (inner : Yields strict expr (Fresh strict)) (n : Nat) :
    Yields strict (arguments expr n) fun lo hi es => Issued strict lo hi (Expr.accessesOfAll es) := by
  unfold arguments
  refine (reads_isAt _).bind fun none _ => ?_
  cases none with
  | true => exact yields_pure fun n => .nil n n
  | false =>
    refine (yields_argumentsAfter inner n []).mono ?_
    rintro lo hi es - ⟨new, rfl, issued⟩
    exact issued

theorem yields_primary (inner : Yields strict expr (Fresh strict)) :
    Yields strict (primary expr) (Fresh strict) := by
  unfold primary
  refine reads_peek.bind fun token spelt => ?_
  split
  · exact reads_advance.bind fun _ _ => yields_pure fun n => .nil n n
  · exact reads_advance.bind fun _ _ => yields_pure fun n => .nil n n
  · refine reads_atEnd.bind fun ended _ => ?_
    cases ended with
    | true => exact yields_fail _ _
    | false =>
      rw [if_neg Bool.false_ne_true]
      split
      · exact reads_advance.bind fun _ _ => yields_pure fun n => .nil n n
      · exact reads_advance.bind fun _ _ => yields_pure fun n => .nil n n
      · exact reads_advance.bind fun _ _ => yields_pure fun n => .nil n n
      · refine reads_advance.bind fun _ _ => yields_freshId.bind fun id => yields_pure ?_
        rintro mid lo - - ⟨rfl, numbered⟩
        exact .single (.this id token.line) (fun _ => trivial) numbered
      · refine reads_advance.bind fun _ _ => (reads_expect _ _).bind fun _ _ =>
          (reads_name _).bind fun method _ => yields_freshId.bind fun id => yields_pure ?_
        rintro mid lo - - ⟨rfl, numbered⟩
        exact .single (.super id token.line) (fun _ => trivial) numbered
      · next identifier =>
        refine reads_advance.bind fun _ _ => yields_freshId.bind fun id => yields_pure ?_
        rintro mid lo - - ⟨rfl, numbered⟩
        exact .single (.read id ⟨token.lexeme, token.line⟩) (fun known => spelt known identifier)
          numbered
      · refine reads_advance.bind fun _ _ => inner.bind fun e => (reads_expect _ _).bind fun _ _ =>
          yields_pure ?_
        intro n lo _ _ issued
        exact issued
      · exact yields_fail _ _

/-- What stands behind an expression is issued after it. -/
theorem yields_suffixes (inner : Yields strict expr (Fresh strict)) (n : Nat) (left : Expr) :
    Yields strict (suffixes expr n left) fun mid hi e =>
      ∀ lo, lo ≤ mid → Fresh strict lo mid left → Fresh strict lo hi e := by
  induction n generalizing left with
  | zero => exact yields_pure fun n lo _ first => first
  | succ n ih =>
    unfold suffixes
    refine (reads_accept _).bind fun opened _ => ?_
    cases opened with
    | true =>
      refine (yields_arguments inner n).bind fun values => (reads_expect _ _).bind fun close _ =>
        (ih (.call left values close.line)).mono ?_
      intro late hi e _ behind mid le le' issued lo before first
      exact behind lo (Nat.le_trans before le) (first.append issued before le)
    | false =>
      refine (reads_accept _).bind fun dotted _ => ?_
      cases dotted with
      | true => exact (reads_name _).bind fun property _ => ih (.get left property)
      | false => exact yields_pure fun n lo _ first => first

theorem yields_signs (n : Nat) (read : List (UnaryOp × Nat)) :
    Reads strict (signs n read) fun _ => True := by
  induction n generalizing read with
  | zero => exact reads_pure trivial
  | succ n ih =>
    unfold signs
    refine (reads_acceptAs? _).then fun sign _ => ?_
    cases sign with
    | none => exact reads_pure trivial
    | some sign => exact ih (sign :: read)

/-- Signs use no names. -/
theorem accesses_signs (operators : List (UnaryOp × Nat)) (operand : Expr) :
    (operators.foldl (fun right (op, line) => Expr.unary op right line) operand).accesses
      = operand.accesses := by
  induction operators generalizing operand with
  | nil => rfl
  | cons sign operators ih => exact ih _

theorem yields_unary (inner : Yields strict expr (Fresh strict)) (n : Nat) :
    Yields strict (unary expr n) (Fresh strict) := by
  refine (yields_signs n []).bind fun operators _ => (yields_primary inner).bind fun operand =>
    (yields_suffixes inner n operand).bind fun whole => yields_pure ?_
  intro hi mid _ _ behind lo le _ first
  have issued := behind lo le first
  unfold Fresh
  rw [accesses_signs]
  exact issued

theorem accesses_build (op : InfixOp) (left right : Expr) (line : Nat) :
    (op.build left right line).accesses = left.accesses ++ right.accesses := by
  cases op <;> rfl

theorem yields_chain (level : Level) {operand : Parser Expr}
    (inner : Yields strict operand (Fresh strict)) (n : Nat) (left : Expr) :
    Yields strict (chain level operand n left) fun mid hi e =>
      ∀ lo, lo ≤ mid → Fresh strict lo mid left → Fresh strict lo hi e := by
  induction n generalizing left with
  | zero => exact yields_pure fun n lo _ first => first
  | succ n ih =>
    unfold chain
    refine (reads_acceptAs? _).bind fun found _ => ?_
    cases found with
    | none => exact yields_pure fun n lo _ first => first
    | some found =>
      refine inner.bind fun right => (ih (found.1.build left right found.2)).mono ?_
      intro late hi e _ behind mid le _ second lo before first
      refine behind lo (Nat.le_trans before le) ?_
      unfold Fresh
      rw [accesses_build]
      exact first.append second before le

theorem yields_levels (inner : Yields strict expr (Fresh strict)) (n : Nat) (ls : List Level) :
    Yields strict (levels expr n ls) (Fresh strict) := by
  induction ls with
  | nil => exact yields_unary inner n
  | cons level tighter ih =>
    refine ih.bind fun left => (yields_chain level ih n left).mono ?_
    intro mid hi e _ behind lo le _ first
    exact behind lo le first

/-- An assignment keeps the number of its target. -/
theorem Fresh.assigned {lo mid hi : Nat} {target value e : Expr}
    (same : assigned? target value = some e) (first : Fresh strict lo mid target)
    (second : Fresh strict mid hi value) (le : lo ≤ mid) (le' : mid ≤ hi) : Fresh strict lo hi e := by
  cases target with
  | «variable» id name =>
    obtain rfl : Expr.assign id name value = e := Option.some.inj same
    have renamed : Issued strict lo mid [Access.assign id name] :=
      ⟨first.numbers, fun known a member => by
        rw [List.mem_singleton.mp member]
        exact first.named known (.read id name) (List.mem_singleton.mpr rfl)⟩
    exact renamed.appendTo second le le'
  | get object name =>
    obtain rfl : Expr.set object name value = e := Option.some.inj same
    exact Issued.appendTo first second le le'
  | literal | grouping | unary | binary | logical | assign | call | set | this | super =>
    cases same

theorem yields_assignment (inner : Yields strict expr (Fresh strict)) (n : Nat) :
    Yields strict (assignment expr n) (Fresh strict) := by
  refine (yields_levels inner n _).bind fun target => (reads_accept? _).bind fun equals _ => ?_
  cases equals with
  | none => exact yields_pure fun hi lo _ _ first => first
  | some equals =>
    refine inner.bind fun value => ?_
    cases same : assigned? target value with
    | none => exact yields_throw _ _
    | some e =>
      refine yields_pure ?_
      intro hi mid le _ second lo le' _ first
      exact first.assigned same second le' le

end

theorem yields_expression (n : Nat) : Yields strict (expression n) (Fresh strict) := by
  induction n with
  | zero => exact yields_fail _ _
  | succ n ih => exact yields_assignment ih n

end Parser

end Lox
