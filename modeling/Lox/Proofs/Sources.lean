import Lox.Session
import Lox.Proofs.Parser.Formation

/-!
# Sources that are accepted

A source is accepted if it can be scanned and parsed and violates no static rule. Then its program
is well formed, its uses are numbered by the ids that were taken, and its distances are those of an
analysis without violations.
-/

set_option autoImplicit false

namespace Lox

/-! ## Identifiers are no reserved words -/

namespace Piece

/-- What holds of the end of a text and is carried over a piece holds of every text. -/
theorem cut_induction {motive : List Char → Prop} (nil : motive [])
    (cons : ∀ c cs, motive (cs.drop ((first c cs).text.length - 1)) → motive (c :: cs))
    (cs : List Char) : motive cs := by
  induction h : cs.length using Nat.strongRecOn generalizing cs with
  | ind n ih =>
    cases cs with
    | nil => exact nil
    | cons c cs =>
      refine cons c cs (ih _ ?_ _ rfl)
      rw [← h, List.length_drop, List.length_cons]
      omega

/-- Whether a piece that is an identifier is no reserved word. -/
def Spelt (piece : Piece) : Prop :=
  piece.form = .token .identifier → Keyword.ofSpelling? (String.ofList piece.text) = none

theorem spelt_word (cs : List Char) : (word cs).Spelt := by
  intro identifier
  unfold word at identifier ⊢
  dsimp only at identifier ⊢
  split at identifier
  · cases identifier
  · next free => rw [free]

theorem spelt_number (cs : List Char) : (number cs).Spelt := by
  intro identifier
  unfold number at identifier
  split at identifier
  · split at identifier <;> cases identifier
  · cases identifier

theorem spelt_string (cs : List Char) : (string cs).Spelt := by
  intro identifier
  unfold string at identifier
  split at identifier <;> cases identifier

theorem spelt_mark (c : Char) (cs : List Char) : (mark c cs).Spelt := by
  intro identifier
  unfold mark at identifier
  split at identifier
  · cases identifier
  · split at identifier <;> cases identifier

theorem spelt_first (c : Char) (cs : List Char) : (first c cs).Spelt := by
  unfold first
  split
  · exact nofun
  split
  · exact spelt_string cs
  split
  · exact spelt_number (c :: cs)
  split
  · exact spelt_word (c :: cs)
  split
  · exact nofun
  · exact spelt_mark c cs

/-- Every piece is the first one of some text. -/
theorem eq_first_of_mem_cut {cs : List Char} {piece : Piece} (member : piece ∈ cut cs) :
    ∃ c ds, piece = first c ds := by
  induction cs using cut_induction with
  | nil =>
    rw [cut_nil] at member
    exact absurd member List.not_mem_nil
  | cons c cs ih =>
    rw [cut_cons] at member
    rcases List.mem_cons.mp member with here | later
    · exact ⟨c, cs, here⟩
    · exact ih later

theorem spelt_cut (cs : List Char) : ∀ piece ∈ cut cs, piece.Spelt := by
  intro piece member
  obtain ⟨c, ds, rfl⟩ := eq_first_of_mem_cut member
  exact spelt_first c ds

end Piece

/-- Pieces that are spelt as they should give such tokens. -/
theorem Reading.spelt_step {reading : Reading} {piece : Piece} (piecewise : piece.Spelt)
    (before : ∀ item ∈ reading.items, ∀ t, item.token? = some t → t.Spelt) :
    ∀ item ∈ (reading.step piece).items, ∀ t, item.token? = some t → t.Spelt := by
  unfold Reading.step
  dsimp only
  split
  · next found here =>
    intro item member t holds
    rcases List.mem_cons.mp member with rfl | earlier
    · unfold Piece.item? at here
      split at here
      · cases here
      · cases here
      · next form =>
        obtain rfl := Option.some.inj here
        obtain rfl := Option.some.inj holds
        intro identifier
        exact piecewise (by rw [form]; exact congrArg _ identifier)
      · obtain rfl := Option.some.inj here
        cases holds
      · obtain rfl := Option.some.inj here
        cases holds
    · exact before item earlier t holds
  · exact before

/-- **Identifiers are no reserved words.** -/
theorem spelt_scan (source : String) : ∀ t ∈ (scan source).1, t.Spelt := by
  have all : ∀ (pieces : List Piece) (reading : Reading), (∀ piece ∈ pieces, piece.Spelt) →
      (∀ item ∈ reading.items, ∀ t, item.token? = some t → t.Spelt) →
      ∀ item ∈ (pieces.foldl Reading.step reading).items, ∀ t, item.token? = some t → t.Spelt := by
    intro pieces
    induction pieces with
    | nil => exact fun _ _ before => before
    | cons piece pieces ih =>
      intro reading spelt before
      exact ih _ (fun other member => spelt other (List.mem_cons_of_mem _ member))
        (Reading.spelt_step (spelt piece List.mem_cons_self) before)
  intro t member
  obtain ⟨item, found, holds⟩ := List.mem_filterMap.mp member
  unfold Item.ofSource Reading.finish at found
  rcases List.mem_cons.mp (List.mem_reverse.mp found) with rfl | earlier
  · obtain rfl := Option.some.inj holds
    exact nofun
  · exact all _ ⟨1, []⟩ (Piece.spelt_cut _) (fun _ member => absurd member List.not_mem_nil) item
      earlier t holds

/-! ## Programs that are accepted -/

/-- What is wrong with a source that is refused is a matter of the source. -/
theorem faults_checkSource {source : String} {firstId : NodeId} {faults : List Fault}
    (refused : (checkSource source firstId).outcome = .error faults) :
    ∀ fault ∈ faults, ∃ d, fault = .source d := by
  have mapped : ∀ {α : Type} (xs : List α) (d : α → Diagnostic),
      ∀ fault ∈ xs.map (Fault.source <| d ·), ∃ d, fault = .source d := by
    intro α xs d fault member
    obtain ⟨x, -, rfl⟩ := List.mem_map.mp member
    exact ⟨d x, rfl⟩
  unfold checkSource parseSource at refused
  dsimp only at refused
  cases parsed : (Parser.parse (scan source).1 firstId).outcome with
  | error errors =>
    rw [parsed] at refused
    obtain rfl := Except.error.inj refused
    intro fault member
    rcases List.mem_append.mp member with lexical | syntactic
    · exact mapped _ _ fault lexical
    · exact mapped _ _ fault syntactic
  | ok statements =>
    rw [parsed] at refused
    dsimp only at refused
    split at refused
    · change checkStatements statements = .error faults at refused
      unfold checkStatements at refused
      dsimp only at refused
      split at refused
      · cases refused
      · obtain rfl := Except.error.inj refused
        exact mapped _ _
    · obtain rfl := Except.error.inj refused
      exact mapped _ _

/-- How many ids a source takes. -/
def idsTaken (source : String) (firstId : NodeId) : Nat :=
  Parser.idsTaken (scan source).1 firstId

theorem nextId_checkSource (source : String) {firstId : NodeId} (small : firstId < Parser.idCount) :
    (checkSource source firstId).nextId = (firstId + idsTaken source firstId) % Parser.idCount :=
  Parser.nextId_parse _ small

/-- A program that comes from a source and violates no static rule. -/
structure Program.Accepted (program : Program) (lo hi : Nat) : Prop where
  declared : Parser.AllDeclared True lo hi program.statements
  silent : (Resolver.statements program.statements .initial).errors = []
  distances : program.distances = (Resolver.statements program.statements .initial).distances

theorem accepted_checkSource {source : String} {firstId : NodeId} {program : Program}
    (ok : (checkSource source firstId).outcome = .ok program) :
    program.Accepted firstId (firstId + idsTaken source firstId) := by
  unfold checkSource at ok
  dsimp only at ok
  cases parsed : (parseSource source firstId).outcome with
  | error faults =>
    rw [parsed] at ok
    cases ok
  | ok statements =>
    rw [parsed] at ok
    have read : (Parser.parse (scan source).1 firstId).outcome = .ok statements := by
      unfold parseSource at parsed
      dsimp only at parsed
      split at parsed
      · cases parsed
      · next read =>
        split at parsed
        · obtain rfl := Except.ok.inj parsed
          exact read
        · cases parsed
    change checkStatements statements = .ok program at ok
    unfold checkStatements at ok
    dsimp only at ok
    split at ok
    · next silent =>
      obtain rfl := Except.ok.inj ok
      refine ⟨Parser.declared_parse (fun _ => spelt_scan source) read, ?_, rfl⟩
      unfold resolve at silent
      exact List.reverse_eq_nil_iff.mp (List.isEmpty_iff.mp silent)
    · cases ok

end Lox
