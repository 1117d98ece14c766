import Lox.Proofs.Sources
import Lox.Proofs.Parser.Programs

/-!
# Scanning joined sources

Between two sources with a line break in between no token is joined: a piece of the first source
that is closed ends there, whatever follows. So the tokens of the joined source are those of the
first and, with their lines counted on, those of the second.
-/

set_option autoImplicit false

namespace Lox

/-! ## Pieces -/

namespace Piece

section

variable {p : Char → Bool} {x : Char} (stop : p x = false)
include stop

theorem takeWhile_append_stop (cs rest : List Char) :
    (cs ++ x :: rest).takeWhile p = cs.takeWhile p := by
  rw [List.takeWhile_append]
  split
  · next whole =>
    rw [List.takeWhile_cons_of_neg (by rw [stop]; exact Bool.false_ne_true), List.append_nil]
    exact (List.takeWhile_sublist p).eq_of_length whole |>.symm
  · rfl

theorem dropWhile_append_stop (cs rest : List Char) :
    (cs ++ x :: rest).dropWhile p = cs.dropWhile p ++ x :: rest := by
  rw [List.dropWhile_append]
  split
  · next none =>
    rw [List.dropWhile_cons_of_neg (by rw [stop]; exact Bool.false_ne_true),
      List.isEmpty_iff.mp none, List.nil_append]
  · rfl

end

variable (cs rest : List Char)

theorem word_append_break : word (cs ++ '\n' :: rest) = word cs := by
  unfold word
  rw [takeWhile_append_stop rfl]

theorem number_append_break : number (cs ++ '\n' :: rest) = number cs := by
  unfold number
  rw [takeWhile_append_stop rfl, dropWhile_append_stop rfl]
  cases cs.dropWhile Char.isDigit with
  | nil => rfl
  | cons c ds =>
    by_cases point : c = '.'
    · rw [point]
      cases ds with
      | nil => rfl
      | cons d ds =>
        simp only [List.cons_append]
        rw [takeWhile_append_stop rfl]
    · simp [point]

theorem string_append_break (closed : (string cs).form ≠ .unclosed) :
    string (cs ++ '\n' :: rest) = string cs := by
  unfold string at closed ⊢
  cases close : cs.dropWhile (· != '"') with
  | nil =>
    rw [close] at closed
    exact absurd rfl closed
  | cons quote after =>
    have split := congrArg List.length (List.takeWhile_append_dropWhile (p := (· != '"')) (l := cs))
    rw [close, List.length_append, List.length_cons] at split
    rw [List.takeWhile_append, if_neg (by omega), List.dropWhile_append, close]
    rfl

theorem mark_append_break (c : Char) : mark c (cs ++ '\n' :: rest) = mark c cs := by
  unfold mark
  cases Punctuation.ofChar? c with
  | none => rfl
  | some single =>
    dsimp only
    cases single.withEqual? with
    | none => rfl
    | some double =>
      cases cs with
      | nil => rfl
      | cons d cs =>
        by_cases equal : d = '='
        · rw [equal]
          rfl
        · simp [equal]

/-- A piece that is closed ends before a line break that follows, whatever is behind it. -/
theorem first_append_break (c : Char) (closed : (first c cs).form ≠ .unclosed) :
    first c (cs ++ '\n' :: rest) = first c cs := by
  unfold first at closed ⊢
  split
  · rfl
  next noSeparator =>
  rw [if_neg noSeparator] at closed
  split
  · next quote =>
    rw [if_pos quote] at closed
    exact string_append_break cs rest closed
  split
  · exact number_append_break (c :: cs) rest
  split
  · exact word_append_break (c :: cs) rest
  by_cases slash : c = '/'
  · subst slash
    cases cs with
    | nil => rfl
    | cons d cs =>
      by_cases second : d = '/'
      · subst second
        simp only [List.cons_append]
        rw [takeWhile_append_stop rfl]
      · simp only [List.cons_append]
        simp [second]
        exact mark_append_break (d :: cs) rest '/'
  · simp [slash]
    exact mark_append_break cs rest c

/-- **No piece is joined over a line break** if the pieces before it are closed. -/
theorem cut_append_break (closed : ∀ piece ∈ cut cs, piece.form ≠ .unclosed) :
    cut (cs ++ '\n' :: rest) = cut cs ++ ⟨.blank, ['\n']⟩ :: cut rest := by
  induction cs using cut_induction with
  | nil =>
    rw [cut_nil, List.nil_append, List.nil_append, cut_cons]
    rfl
  | cons c cs ih =>
    rw [cut_cons] at closed ⊢
    have here := first_append_break cs rest c (closed _ List.mem_cons_self)
    have within : (first c cs).text.length - 1 ≤ cs.length := by
      have split := congrArg List.length (first_append_drop c cs)
      rw [List.length_append, List.length_cons] at split
      omega
    rw [List.cons_append, cut_cons, here, List.drop_append_of_le_length within]
    rw [ih fun piece member => closed piece (List.mem_cons_of_mem _ member), List.cons_append]

/-- A piece that is a token is not the end of the input. -/
def Inner (piece : Piece) : Prop :=
  ∀ kind, piece.form = .token kind → kind.agrees .eof = false

theorem inner_string : (string cs).Inner := by
  intro kind form
  unfold string at form
  split at form <;> cases form
  rfl

theorem inner_number : (number cs).Inner := by
  intro kind form
  unfold number at form
  split at form
  · split at form <;> (cases form; rfl)
  · cases form
    rfl

theorem inner_word : (word cs).Inner := by
  intro kind form
  unfold word at form
  dsimp only at form
  split at form <;> (cases form; rfl)

theorem inner_mark (c : Char) : (mark c cs).Inner := by
  intro kind form
  unfold mark at form
  split at form
  · cases form
  · split at form <;> (cases form; rfl)

theorem inner_first (c : Char) : (first c cs).Inner := by
  unfold first
  split
  · exact nofun
  split
  · exact inner_string cs
  split
  · exact inner_number (c :: cs)
  split
  · exact inner_word (c :: cs)
  split
  · exact nofun
  · exact inner_mark cs c

theorem inner_cut : ∀ piece ∈ cut cs, piece.Inner := by
  intro piece member
  obtain ⟨c, ds, rfl⟩ := eq_first_of_mem_cut member
  exact inner_first ds c

end Piece

/-! ## Lines that are counted on -/

/-- Counts the lines on from `k`. -/
def Relabelling.below (k : Nat) : Relabelling where
  id a := a
  line l := if l = 0 then 0 else l + k
  injective _ _ same := same
  line_zero := rfl

theorem Relabelling.line_below (k : Nat) {l : Nat} (pos : 0 < l) : (below k).line l = l + k :=
  if_neg (Nat.ne_of_gt pos)

def LexicalError.relabel (ρ : Relabelling) (e : LexicalError) : LexicalError :=
  { e with line := ρ.line e.line }

def Item.relabel (ρ : Relabelling) : Item → Item
  | .token t => .token (t.relabel ρ)
  | .error e => .error (e.relabel ρ)

theorem Item.token?_relabel (ρ : Relabelling) (item : Item) :
    (item.relabel ρ).token? = item.token?.map (Token.relabel ρ) := by
  cases item <;> rfl

theorem Item.error?_relabel (ρ : Relabelling) (item : Item) :
    (item.relabel ρ).error? = item.error?.map (LexicalError.relabel ρ) := by
  cases item <;> rfl

namespace Reading

/-- What is read off the pieces of a source. -/
def ofSource (source : String) : Reading :=
  (Piece.cut source.toList).foldl step ⟨1, []⟩

/-- Pieces read further down give the same items with their lines counted on. -/
theorem foldl_step_below (k : Nat) (pieces : List Piece) {line : Nat} (pos : 0 < line)
    (items before : List Item) :
    pieces.foldl step ⟨line + k, items.map (Item.relabel (.below k)) ++ before⟩
      = ⟨(pieces.foldl step ⟨line, items⟩).line + k,
          (pieces.foldl step ⟨line, items⟩).items.map (Item.relabel (.below k)) ++ before⟩ := by
  induction pieces generalizing line items with
  | nil => rfl
  | cons piece pieces ih =>
    have ahead : 0 < line + piece.breaks := Nat.lt_of_lt_of_le pos (Nat.le_add_right _ _)
    have counted : piece.item? (line + piece.breaks + k)
        = (piece.item? (line + piece.breaks)).map (Item.relabel (.below k)) := by
      unfold Piece.item?
      cases piece.form with
      | blank | comment => rfl
      | token | stray | unclosed =>
        rw [Option.map_some, Item.relabel]
        first | rw [Token.relabel] | rw [LexicalError.relabel]
        rw [Relabelling.line_below k ahead]
    rw [List.foldl_cons, List.foldl_cons, step, step, Nat.add_right_comm, counted]
    cases piece.item? (line + piece.breaks) with
    | none => exact ih ahead items
    | some item => exact ih ahead (item :: items)

/-- No error was read. -/
def Clean (reading : Reading) : Prop :=
  ∀ item ∈ reading.items, item.error? = none

/-- Items that were read are kept. -/
theorem mem_foldl_step (pieces : List Piece) {reading : Reading} {item : Item}
    (member : item ∈ reading.items) : item ∈ (pieces.foldl step reading).items := by
  induction pieces generalizing reading with
  | nil => exact member
  | cons piece pieces ih =>
    refine ih ?_
    unfold step
    dsimp only
    split
    · exact List.mem_cons_of_mem _ member
    · exact member

/-- A piece that is not closed leaves an error. -/
theorem closed_of_clean {pieces : List Piece} {reading : Reading}
    (clean : (pieces.foldl step reading).Clean) :
    ∀ piece ∈ pieces, piece.form ≠ .unclosed := by
  induction pieces generalizing reading with
  | nil => exact fun _ member => absurd member List.not_mem_nil
  | cons piece pieces ih =>
    rw [List.foldl_cons] at clean
    intro other member
    rcases List.mem_cons.mp member with rfl | later
    · intro unclosed
      have left : Item.error ⟨.unterminated, reading.line + other.breaks⟩
          ∈ (reading.step other).items := by
        unfold step Piece.item?
        rw [unclosed]
        exact List.mem_cons_self
      cases clean _ (mem_foldl_step pieces left)
    · exact ih clean other later

/-- Tokens that were read are not the end of the input. -/
theorem inner_foldl_step {pieces : List Piece} (inner : ∀ piece ∈ pieces, piece.Inner)
    {reading : Reading}
    (before : ∀ t, Item.token t ∈ reading.items → t.kind.agrees .eof = false) :
    ∀ t, Item.token t ∈ (pieces.foldl step reading).items → t.kind.agrees .eof = false := by
  induction pieces generalizing reading with
  | nil => exact before
  | cons piece pieces ih =>
    refine ih (fun other member => inner other (List.mem_cons_of_mem _ member)) fun t member => ?_
    unfold step Piece.item? at member
    have here := inner piece List.mem_cons_self
    cases form : piece.form with
    | blank | comment =>
      rw [form] at member
      exact before t member
    | token kind =>
      rw [form] at member
      rcases List.mem_cons.mp member with same | earlier
      · cases same
        exact here kind form
      · exact before t earlier
    | stray | unclosed =>
      rw [form] at member
      rcases List.mem_cons.mp member with same | earlier
      · cases same
      · exact before t earlier

/-- Lines are only counted on. -/
theorem le_line_foldl_step (pieces : List Piece) (reading : Reading) :
    reading.line ≤ (pieces.foldl step reading).line := by
  induction pieces generalizing reading with
  | nil => exact Nat.le_refl _
  | cons piece pieces ih =>
    refine Nat.le_trans ?_ (ih (reading.step piece))
    unfold step
    dsimp only
    split <;> exact Nat.le_add_right _ _

/-- **Readings of joined sources.** The second source is read as if it stood alone, further down. -/
theorem ofSource_joined {source : String} (other : String)
    (clean : (ofSource source).Clean) :
    ofSource (source ++ "\n" ++ other)
      = ⟨(ofSource other).line + (ofSource source).line,
          (ofSource other).items.map (Item.relabel (.below (ofSource source).line))
            ++ (ofSource source).items⟩ := by
  have closed := closed_of_clean clean
  have text : (source ++ "\n" ++ other).toList = source.toList ++ '\n' :: other.toList := by
    rw [String.toList_append, String.toList_append, List.append_assoc]
    rfl
  unfold ofSource
  rw [text, Piece.cut_append_break _ _ closed, List.foldl_append, List.foldl_cons]
  have below := foldl_step_below (ofSource source).line (Piece.cut other.toList) Nat.one_pos []
    (ofSource source).items
  rw [Nat.add_comm 1] at below
  exact below

end Reading

/-! ## Tokens -/

/-- The tokens of a source. -/
def Tokens.ofSource (source : String) : Tokens where
  body := (Reading.ofSource source).items.reverse.filterMap Item.token?
  last := ⟨.eof, "", (Reading.ofSource source).line⟩
  unended t member := by
    obtain ⟨item, found, holds⟩ := List.mem_filterMap.mp member
    cases item with
    | error e => cases holds
    | token t' =>
      cases holds
      exact Reading.inner_foldl_step (Piece.inner_cut _)
        (fun _ none => absurd none List.not_mem_nil) t (List.mem_reverse.mp found)
  ended := rfl

theorem scan_fst (source : String) : (scan source).1 = (Tokens.ofSource source).all := by
  show List.filterMap Item.token? (Reading.ofSource source).finish = _
  rw [Reading.finish, List.reverse_cons, List.filterMap_append]
  rfl

theorem scan_snd_eq_nil_iff (source : String) :
    (scan source).2 = [] ↔ (Reading.ofSource source).Clean := by
  have whole : (scan source).2 = (Reading.ofSource source).items.reverse.filterMap Item.error? := by
    show List.filterMap Item.error? (Reading.ofSource source).finish = _
    rw [Reading.finish, List.reverse_cons, List.filterMap_append]
    exact List.append_nil _
  rw [whole, List.filterMap_eq_nil_iff]
  simp only [List.mem_reverse, Reading.Clean]

theorem Tokens.relabel_below_zero (tokens : Tokens) : tokens.relabel (.below 0) = tokens := by
  have unmoved (t : Token) : t.relabel (.below 0) = t := by
    obtain ⟨kind, lexeme, line⟩ := t
    show Token.mk kind lexeme (if line = 0 then 0 else line + 0) = _
    rw [Nat.add_zero]
    split
    · next zero => rw [zero]
    · rfl
  ext1
  · exact (List.map_congr_left fun t _ => unmoved t).trans (List.map_id _)
  · exact unmoved tokens.last

/-- **The tokens of joined sources** are those of the first and, with their lines counted on from
the last line of the first, those of the second. -/
theorem Tokens.ofSource_joined {source : String} (other : String)
    (clean : (Reading.ofSource source).Clean) :
    ofSource (source ++ "\n" ++ other)
      = (ofSource source).append
          ((ofSource other).relabel (.below (Reading.ofSource source).line)) := by
  have joined := Reading.ofSource_joined other clean
  ext1
  · show (Reading.ofSource _).items.reverse.filterMap Item.token? = _
    have counted (items : List Item) (ρ : Relabelling) :
        (items.map (Item.relabel ρ)).filterMap Item.token?
          = (items.filterMap Item.token?).map (Token.relabel ρ) := by
      rw [List.filterMap_map, List.map_filterMap]
      exact congrArg (List.filterMap · items) (funext (Item.token?_relabel ρ))
    rw [joined, List.reverse_append, List.filterMap_append, ← List.map_reverse, counted]
    rfl
  · have pos : 0 < (Reading.ofSource other).line := Reading.le_line_foldl_step _ ⟨1, []⟩
    show Token.mk .eof "" (Reading.ofSource _).line = _
    rw [joined]
    exact congrArg (Token.mk .eof "") (Relabelling.line_below _ pos).symm

/-- Joined sources have no errors of their own. -/
theorem Reading.Clean.joined {source other : String} (clean : (ofSource source).Clean)
    (clean' : (ofSource other).Clean) : (ofSource (source ++ "\n" ++ other)).Clean := by
  rw [ofSource_joined other clean]
  intro item member
  rcases List.mem_append.mp member with later | earlier
  · obtain ⟨old, found, rfl⟩ := List.mem_map.mp later
    rw [Item.error?_relabel, clean' old found]
    rfl
  · exact clean item earlier

end Lox
