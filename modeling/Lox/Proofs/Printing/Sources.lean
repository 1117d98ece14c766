import Lox.Proofs.Grammar.Acceptance
import Lox.Proofs.Scanning

/-!
# The program that prints an expression

An expression can be read as it stands, or as part of a program of one statement that prints it. The
tokens of the expression are the same in both, with `print` in front of them and a semicolon on a
line of its own behind, so the expression is derived from the same tokens and gets the same ids.
Outside of all scopes its variables are global: there are no distances, and no rule is broken.
-/

set_option autoImplicit false

namespace Lox

/-! ## Its tokens -/

/-- The program that prints an expression. -/
def printing (source : String) : String :=
  "print " ++ source ++ "\n" ++ ";"

/-- The word in front of the expression. -/
def printToken : Token :=
  ⟨.keyword .print, "print", 1⟩

namespace Piece

/-- The word in front is a piece of its own. -/
theorem cut_print (cs : List Char) :
    cut ("print ".toList ++ cs)
      = ⟨.token (.keyword .print), "print".toList⟩ :: ⟨.blank, [' ']⟩ :: cut cs := by
  have letters : word ("print".toList ++ ' ' :: cs) = word "print".toList := by
    unfold word
    rw [takeWhile_append_stop rfl]
  have begins : first 'p' ("rint".toList ++ ' ' :: cs)
      = ⟨.token (.keyword .print), "print".toList⟩ := by
    show word ("print".toList ++ ' ' :: cs) = _
    rw [letters]
    rfl
  show cut ('p' :: ("rint".toList ++ ' ' :: cs)) = _
  rw [cut_cons, begins]
  show _ :: cut (' ' :: cs) = _
  rw [cut_cons]
  rfl

end Piece

namespace Reading

theorem ofSource_print (source : String) :
    ofSource ("print " ++ source)
      = ⟨(ofSource source).line,
          (ofSource source).items.map (Item.relabel (.below 0)) ++ [.token printToken]⟩ := by
  unfold ofSource
  rw [String.toList_append, Piece.cut_print]
  exact foldl_step_below 0 (Piece.cut source.toList) Nat.one_pos [] [.token printToken]

theorem Clean.print {source : String} (clean : (ofSource source).Clean) :
    (ofSource ("print " ++ source)).Clean := by
  rw [ofSource_print]
  intro item member
  rcases List.mem_append.mp member with later | here
  · obtain ⟨old, found, rfl⟩ := List.mem_map.mp later
    rw [Item.error?_relabel, clean old found]
    rfl
  · obtain rfl := List.mem_singleton.mp here
    rfl

end Reading

theorem Tokens.body_print (source : String) :
    (ofSource ("print " ++ source)).body = printToken :: (ofSource source).body := by
  have unmoved : ((ofSource source).relabel (.below 0)).body = (ofSource source).body :=
    congrArg Tokens.body (relabel_below_zero (ofSource source))
  have counted : (((ofSource source).relabel (.below 0)).body : List Token)
      = ((Reading.ofSource source).items.map (Item.relabel (.below 0))).reverse.filterMap
          Item.token? := by
    show List.map _ (List.filterMap _ _) = _
    rw [← List.map_reverse, List.filterMap_map, List.map_filterMap]
    exact congrArg (List.filterMap · _) (funext fun item => (Item.token?_relabel _ item).symm)
  show (Reading.ofSource _).items.reverse.filterMap Item.token? = _
  rw [Reading.ofSource_print, List.reverse_append, List.filterMap_append, ← counted, unmoved]
  rfl

theorem Tokens.body_semicolon :
    (ofSource ";").body = [⟨.punctuation .semicolon, ";", 1⟩] := by
  have alone : Piece.cut ";".toList = [⟨.token (.punctuation .semicolon), [';']⟩] := by
    show Piece.cut [';'] = _
    rw [Piece.cut_cons]
    show _ :: Piece.cut [] = _
    rw [Piece.cut_nil]
    rfl
  show (Reading.ofSource _).items.reverse.filterMap Item.token? = _
  rw [Reading.ofSource, alone]
  rfl

/-- The tokens of the program are those of the expression between the word and the semicolon. -/
theorem Tokens.body_printing {source : String} (clean : (Reading.ofSource source).Clean) :
    ∃ stop : Token, stop.kind = .punctuation .semicolon ∧
      (ofSource (printing source)).body
        = printToken :: ((ofSource source).body ++ [stop]) := by
  let stop : Token := ⟨.punctuation .semicolon, ";", 1⟩
  refine ⟨stop.relabel (.below (Reading.ofSource ("print " ++ source)).line), rfl, ?_⟩
  unfold printing
  rw [ofSource_joined ";" clean.print]
  show (ofSource ("print " ++ source)).body ++ (ofSource ";").body.map (Token.relabel _) = _
  rw [body_print, body_semicolon]
  rfl

/-! ## Its tree -/

namespace Parser

open Cursor Grammar

/-- What is read as one expression is derived from all tokens. -/
theorem derived_of_wholeExpression {last : Token} {ts : List Token} {n bound : Nat}
    (ended : last.kind.agrees .eof = true) (unended : ∀ t ∈ ts, t.kind.agrees .eof = false)
    (few : ts.length ≤ bound) {e : Expr} {c : Cursor}
    (ok : wholeExpression bound (before ts last n) = .ok e c) :
    ∃ m, c = before [] last m ∧ Expression ts n e m := by
  unfold wholeExpression at ok
  obtain ⟨value, c', read, rest⟩ := bind_ok ok
  obtain ⟨us, ts', m, split, rfl, derived⟩ := sound_expression ended bound ts n few value c' read
  rw [bind_of_ok (rfl : atEnd _ = .ok _ _)] at rest
  -- An expression that leaves tokens is refused.
  cases ts' with
  | nil =>
    rw [atEnd_before_nil] at rest
    cases rest
    rw [List.append_nil] at split
    exact ⟨m, rfl, split ▸ derived⟩
  | cons t ts' =>
    have inside : t ∈ ts := split ▸ List.mem_append_right us List.mem_cons_self
    rw [atEnd_before_cons, unended t inside] at rest
    cases rest

theorem derived_of_parseExpression (tokens : Tokens) {firstId : NodeId} {e : Expr}
    (ok : (parseExpression tokens.all firstId).outcome = .ok e) :
    ∃ m, (parseExpression tokens.all firstId).nextId = m % idCount ∧
      Expression tokens.body firstId e m := by
  obtain ⟨first, rest, here⟩ := tokens.exists_cons
  have few : tokens.body.length ≤ (first :: rest).length := by
    rw [← here, tokens.length_all]
    exact Nat.le_succ _
  rw [here] at ok ⊢
  unfold parseExpression at ok ⊢
  dsimp only at ok ⊢
  rw [start_eq_before tokens firstId here] at ok ⊢
  cases read : wholeExpression (first :: rest).length
      (before tokens.body tokens.last firstId) with
  | error fault c =>
    rw [read] at ok
    cases ok
  | ok value c =>
    rw [read] at ok
    cases ok
    obtain ⟨m, rfl, derived⟩ := derived_of_wholeExpression tokens.ended tokens.unended few read
    exact ⟨m, rfl, derived⟩

end Parser

/-- The program that prints an expression is read as that statement. -/
theorem parseSource_printing {source : String} {firstId : NodeId} {e : Expr}
    (scanned : (scan source).2 = [])
    (parsed : (Parser.parseExpression (scan source).1 firstId).outcome = .ok e) :
    parseSource (printing source) firstId
      = ⟨.ok [.print e], (Parser.parseExpression (scan source).1 firstId).nextId⟩ := by
  have clean := (scan_snd_eq_nil_iff source).mp scanned
  have semicolon : (Reading.ofSource ";").Clean := (scan_snd_eq_nil_iff ";").mp (by decide +kernel)
  have accepted : (scan (printing source)).2 = [] :=
    (scan_snd_eq_nil_iff _).mpr (clean.print.joined semicolon)
  rw [scan_fst] at parsed ⊢
  obtain ⟨m, nextId, derived⟩ := Parser.derived_of_parseExpression _ parsed
  obtain ⟨stop, closing, body⟩ := Tokens.body_printing clean
  have statement : Grammar.Program True (Tokens.ofSource (printing source)).body firstId
      [.print e] m := by
    -- One derivation serves both: the ids begin with the first one in either.
    rw [body, ← List.append_nil (printToken :: _)]
    exact .cons (.statement (.print rfl derived closing)) .nil
  have whole : scan (printing source) = ((Tokens.ofSource (printing source)).all, []) :=
    Prod.ext (scan_fst _) accepted
  rw [parseSource, whole]
  dsimp only
  rw [Parser.parse_of_derived _ statement, nextId]
  rfl

/-! ## Its static analysis -/

/-- Whether a use is that of a variable, and not of `this` or `super`. -/
def Access.isVariable : Access → Bool
  | read _ _ | assign _ _ => true
  | this _ _ | super _ _ => false

namespace Resolver

mutual

/-- Outside of all scopes the variables of an expression are global, and break no rule. -/
theorem expression_outside (e : Expr) {r : Resolver} (outside : r.scopes = [])
    (plain : ∀ access ∈ e.accesses, access.isVariable = true) : expression e r = r := by
  match e with
  | .literal _ => rfl
  | .grouping inner => exact expression_outside inner outside plain
  | .unary _ right _ => exact expression_outside right outside plain
  | .binary left _ right _ =>
    obtain ⟨first, second⟩ := List.forall_mem_append.mp plain
    rw [expression, expression_outside left outside first]
    exact expression_outside right outside second
  | .logical left _ right =>
    obtain ⟨first, second⟩ := List.forall_mem_append.mp plain
    rw [expression, expression_outside left outside first]
    exact expression_outside right outside second
  | .variable id name =>
    rw [expression, use, isPending, outside]
    show r.bind id name.lexeme = r
    rw [bind, outside]
    rfl
  | .assign id name value =>
    obtain ⟨first, -⟩ := List.forall_mem_append.mp plain
    rw [expression, expression_outside value outside first, bind, outside]
    rfl
  | .call callee arguments _ =>
    obtain ⟨first, second⟩ := List.forall_mem_append.mp plain
    rw [expression, expression_outside callee outside first]
    exact expressions_outside arguments outside second
  | .get object _ => exact expression_outside object outside plain
  | .set object _ value =>
    obtain ⟨first, second⟩ := List.forall_mem_append.mp plain
    rw [expression, expression_outside value outside first]
    exact expression_outside object outside second
  | .this id line => cases plain _ List.mem_cons_self
  | .super id line _ => cases plain _ List.mem_cons_self

theorem expressions_outside (es : List Expr) {r : Resolver} (outside : r.scopes = [])
    (plain : ∀ access ∈ Expr.accessesOfAll es, access.isVariable = true) :
    expressions es r = r := by
  match es with
  | [] => rfl
  | e :: es =>
    obtain ⟨first, second⟩ := List.forall_mem_append.mp plain
    rw [expressions, expression_outside e outside first]
    exact expressions_outside es outside second

end

end Resolver

theorem resolve_print {e : Expr} (plain : ∀ access ∈ e.accesses, access.isVariable = true) :
    resolve [.print e] = ⟨∅, []⟩ := by
  have walked : Resolver.statements [.print e] .initial = .initial :=
    Resolver.expression_outside e rfl plain
  rw [resolve, walked]
  rfl

end Lox
