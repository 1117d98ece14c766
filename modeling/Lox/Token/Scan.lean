import Lox.Token
import Lox.Diagnostic

/-!
# From text to tokens

A source is first cut into pieces without a gap: blanks, comments, tokens and faults. Each piece is
the longest one that starts where the last one ended, so the pieces joined give the source back.
Tokens and errors are then read off the pieces in order, each with the line on which its piece ends,
and the end of the input comes last.
-/

set_option autoImplicit false

namespace Lox

/-- What a piece of source is. -/
inductive Piece.Form where
  /-- One space, tab, carriage return or line break. -/
  | blank
  /-- Two slashes and the rest of their line. -/
  | comment
  | token (kind : Kind)
  /-- A character with which nothing begins. -/
  | stray (c : Char)
  /-- A quote that is never closed, with all that follows it. -/
  | unclosed

/-- A stretch of the source that is read as one. -/
structure Piece where
  form : Piece.Form
  text : List Char

/-- Why a piece of source is refused. -/
inductive LexicalError.Cause where
  | unexpected (c : Char)
  | unterminated
  deriving DecidableEq, Repr

/-- A fault of the spelling of a source. -/
structure LexicalError where
  cause : LexicalError.Cause
  line : Nat
  deriving DecidableEq, Repr

namespace LexicalError

/-- The wording of a cause. -/
def Cause.message : Cause → String
  | .unexpected c => "Unexpected character: " ++ String.singleton c
  | .unterminated => "Unterminated string."

/-- The fault as it is reported. -/
def diagnostic (e : LexicalError) : Diagnostic :=
  ⟨.lexical, e.line, e.cause.message⟩

end LexicalError

/-- What scanning yields at one place. -/
inductive Item where
  | token (t : Token)
  | error (e : LexicalError)

namespace Punctuation

/-- The mark that a character is by itself. -/
def ofChar? (c : Char) : Option Punctuation :=
  all.find? fun mark => mark.spelling == String.singleton c

/-- The operator that a mark becomes with an equals sign right behind it. -/
def withEqual? : Punctuation → Option Punctuation
  | .bang => some .bangEqual
  | .equal => some .equalEqual
  | .greater => some .greaterEqual
  | .less => some .lessEqual
  | _ => none

end Punctuation

namespace Piece

/-- Characters that only separate tokens. -/
def isSeparator (c : Char) : Bool :=
  c == ' ' || c == '\r' || c == '\t' || c == '\n'

/-- Characters that begin a word. -/
def beginsWord (c : Char) : Bool :=
  c.isAlpha || c == '_'

/-- Characters that continue a word. -/
def continuesWord (c : Char) : Bool :=
  c.isAlphanum || c == '_'

/-- The number with the given digits before and after its point, rounded to a double. -/
def numberValue (whole decimals : List Char) : Float :=
  Float.ofScientific (Nat.ofDigitChars 10 (whole ++ decimals) 0) true decimals.length

/-- The word that begins the text. -/
def word (cs : List Char) : Piece :=
  let text := cs.takeWhile continuesWord
  match Keyword.ofSpelling? (String.ofList text) with
  | some keyword => ⟨.token (.keyword keyword), text⟩
  | none => ⟨.token .identifier, text⟩

/-- The number that begins the text. A point belongs to it only with a digit behind. -/
def number (cs : List Char) : Piece :=
  let whole := cs.takeWhile Char.isDigit
  match cs.dropWhile Char.isDigit with
  | '.' :: d :: rest =>
    if d.isDigit then
      let decimals := d :: rest.takeWhile Char.isDigit
      ⟨.token (.number (numberValue whole decimals)), whole ++ '.' :: decimals⟩
    else
      ⟨.token (.number (numberValue whole [])), whole⟩
  | _ => ⟨.token (.number (numberValue whole [])), whole⟩

/-- The string after an opening quote, which ends at the next quote. -/
def string (cs : List Char) : Piece :=
  let contents := cs.takeWhile (· != '"')
  match cs.dropWhile (· != '"') with
  | [] => ⟨.unclosed, '"' :: contents⟩
  | _ :: _ => ⟨.token (.string (String.ofList contents)), '"' :: contents ++ ['"']⟩

/-- The mark that begins the text with `c`, or else a stray character. -/
def mark (c : Char) (cs : List Char) : Piece :=
  match Punctuation.ofChar? c with
  | none => ⟨.stray c, [c]⟩
  | some single =>
    match single.withEqual?, cs with
    | some double, '=' :: _ => ⟨.token (.punctuation double), [c, '=']⟩
    | _, _ => ⟨.token (.punctuation single), [c]⟩

/-- The piece that begins a text of first character `c`. -/
def first (c : Char) (cs : List Char) : Piece :=
  if isSeparator c then
    ⟨.blank, [c]⟩
  else if c == '"' then
    string cs
  else if c.isDigit then
    number (c :: cs)
  else if beginsWord c then
    word (c :: cs)
  else
    match c, cs with
    | '/', '/' :: rest => ⟨.comment, '/' :: '/' :: rest.takeWhile (· != '\n')⟩
    | _, _ => mark c cs

/-- Cuts a text into pieces, after the pieces `done` (the latest first). A piece is never empty, so
what follows it begins after its first character. -/
def cutAfter (done : List Piece) : List Char → List Piece
  | [] => done.reverse
  | c :: cs =>
    let piece := first c cs
    cutAfter (piece :: done) (cs.drop (piece.text.length - 1))
termination_by cs => cs.length
decreasing_by
  simp only [List.length_drop, List.length_cons]
  omega

/-- Cuts a text into pieces. -/
def cut (cs : List Char) : List Piece :=
  cutAfter [] cs

/-- The pieces cut before stay in front. -/
theorem cutAfter_eq (done : List Piece) (cs : List Char) :
    cutAfter done cs = done.reverse ++ cut cs := by
  induction h : cs.length using Nat.strongRecOn generalizing cs done with
  | ind n ih =>
    cases cs with
    | nil => rw [cut, cutAfter, cutAfter, List.reverse_nil, List.append_nil]
    | cons c cs =>
      have shorter : (cs.drop ((first c cs).text.length - 1)).length < n := by
        rw [← h, List.length_drop, List.length_cons]
        omega
      rw [cut, cutAfter, cutAfter, ih _ shorter (first c cs :: done) _ rfl,
        ih _ shorter [first c cs] _ rfl, List.reverse_cons, List.append_assoc,
        List.reverse_singleton]

theorem cut_nil : cut [] = [] := by
  rw [cut, cutAfter, List.reverse_nil]

/-- A text is cut at the end of its first piece. -/
theorem cut_cons (c : Char) (cs : List Char) :
    cut (c :: cs) = first c cs :: cut (cs.drop ((first c cs).text.length - 1)) := by
  rw [cut, cutAfter, cutAfter_eq, List.reverse_singleton, List.singleton_append]

/-! ### Nothing is lost

Every piece is a part of the text that begins where it is cut, so the pieces give the text back. -/

theorem word_prefix (cs : List Char) : (word cs).text <+: cs := by
  unfold word
  dsimp only
  split <;> exact List.takeWhile_prefix _

theorem number_prefix (cs : List Char) : (number cs).text <+: cs := by
  unfold number
  have whole : cs.takeWhile Char.isDigit ++ cs.dropWhile Char.isDigit = cs :=
    List.takeWhile_append_dropWhile
  split
  · next d rest point =>
    split
    · refine ⟨rest.dropWhile Char.isDigit, ?_⟩
      rw [List.append_assoc, List.cons_append, List.cons_append,
        List.takeWhile_append_dropWhile, ← point]
      exact whole
    · exact List.takeWhile_prefix _
  · exact List.takeWhile_prefix _

theorem string_prefix (cs : List Char) : (string cs).text <+: '"' :: cs := by
  unfold string
  split
  · exact (List.prefix_cons_inj _).mpr (List.takeWhile_prefix _)
  · next quote rest close =>
    have isQuote : quote = '"' := by
      have := List.head?_dropWhile_not (· != '"') cs
      rw [close] at this
      simpa using this
    refine ⟨rest, ?_⟩
    have whole : cs.takeWhile (· != '"') ++ cs.dropWhile (· != '"') = cs :=
      List.takeWhile_append_dropWhile
    rw [close, isQuote] at whole
    rw [List.append_assoc, List.cons_append, List.singleton_append, whole]

theorem mark_prefix (c : Char) (cs : List Char) : (mark c cs).text <+: c :: cs := by
  unfold mark
  split
  · exact ⟨cs, rfl⟩
  · split
    · exact ⟨_, rfl⟩
    · exact ⟨_, rfl⟩

/-- The first piece is a part of the text that begins with its first character. -/
theorem first_prefix (c : Char) (cs : List Char) : (first c cs).text <+: c :: cs := by
  unfold first
  split
  · exact ⟨cs, rfl⟩
  split
  · next isQuote =>
    have : c = '"' := by simpa using isQuote
    rw [this]
    exact string_prefix cs
  split
  · exact number_prefix (c :: cs)
  split
  · exact word_prefix (c :: cs)
  split
  · next c cs rest _ _ _ _ =>
    refine ⟨rest.dropWhile (· != '\n'), ?_⟩
    rw [List.cons_append, List.cons_append, List.takeWhile_append_dropWhile]
  · exact mark_prefix c cs

/-- The first piece is never empty: what decides its form is its first character. -/
theorem first_ne_nil (c : Char) (cs : List Char) : (first c cs).text ≠ [] := by
  unfold first
  split
  · exact List.cons_ne_nil _ _
  split
  · unfold string
    split <;> exact List.cons_ne_nil _ _
  split
  · next digit =>
    have begins : (c :: cs).takeWhile Char.isDigit ≠ [] := by
      rw [List.takeWhile_cons_of_pos digit]
      exact List.cons_ne_nil _ _
    unfold number
    split
    · split
      · exact List.append_ne_nil_of_left_ne_nil begins _
      · exact begins
    · exact begins
  split
  · next letter =>
    have continues : continuesWord c = true := by
      simp only [beginsWord, continuesWord, Char.isAlphanum, Bool.or_eq_true] at letter ⊢
      exact letter.imp_left Or.inl
    have begins : (c :: cs).takeWhile continuesWord ≠ [] := by
      rw [List.takeWhile_cons_of_pos continues]
      exact List.cons_ne_nil _ _
    unfold word
    dsimp only
    split <;> exact begins
  split
  · exact List.cons_ne_nil _ _
  · unfold mark
    split
    · exact List.cons_ne_nil _ _
    · split <;> exact List.cons_ne_nil _ _

/-- The first piece and what follows it are the text. -/
theorem first_append_drop (c : Char) (cs : List Char) :
    (first c cs).text ++ cs.drop ((first c cs).text.length - 1) = c :: cs := by
  obtain ⟨rest, whole⟩ := first_prefix c cs
  cases text : (first c cs).text with
  | nil => exact absurd text (first_ne_nil c cs)
  | cons d ds =>
    rw [text, List.cons_append, List.cons.injEq] at whole
    rw [← whole.2, List.length_cons, Nat.add_sub_cancel, List.drop_left, List.cons_append, whole.1]

/-- **The pieces joined are the source.** -/
theorem flatMap_text_cut (cs : List Char) : (cut cs).flatMap text = cs := by
  induction h : cs.length using Nat.strongRecOn generalizing cs with
  | ind n ih =>
    cases cs with
    | nil => rw [cut_nil, List.flatMap_nil]
    | cons c cs =>
      have shorter : (cs.drop ((first c cs).text.length - 1)).length < n := by
        rw [← h, List.length_drop, List.length_cons]
        omega
      rw [cut_cons, List.flatMap_cons, ih _ shorter _ rfl, first_append_drop]

/-- The number of line breaks in a piece. -/
def breaks (piece : Piece) : Nat :=
  piece.text.count '\n'

/-- What a piece yields, given the line on which it ends. -/
def item? (piece : Piece) (line : Nat) : Option Item :=
  match piece.form with
  | .blank | .comment => none
  | .token kind => some (.token ⟨kind, String.ofList piece.text, line⟩)
  | .stray c => some (.error ⟨.unexpected c, line⟩)
  | .unclosed => some (.error ⟨.unterminated, line⟩)

end Piece

/-- Reading items off pieces: the line reached and the items so far, the latest first. -/
structure Reading where
  line : Nat
  items : List Item

namespace Reading

/-- Reads one piece. -/
def step (reading : Reading) (piece : Piece) : Reading :=
  let line := reading.line + piece.breaks
  match piece.item? line with
  | some item => ⟨line, item :: reading.items⟩
  | none => ⟨line, reading.items⟩

/-- The items read, closed by the end of the input. -/
def finish (reading : Reading) : List Item :=
  (.token ⟨.eof, "", reading.line⟩ :: reading.items).reverse

end Reading

namespace Item

/-- The tokens and errors of a source, in order. -/
def ofSource (source : String) : List Item :=
  ((Piece.cut source.toList).foldl Reading.step ⟨1, []⟩).finish

/-- The token that an item holds. -/
def token? : Item → Option Token
  | .token t => some t
  | .error _ => none

/-- The error that an item holds. -/
def error? : Item → Option LexicalError
  | .token _ => none
  | .error e => some e

end Item

/-- The tokens of a source, which end with the end of the input, and its lexical errors. -/
def scan (source : String) : List Token × List LexicalError :=
  let items := Item.ofSource source
  (items.filterMap Item.token?, items.filterMap Item.error?)

end Lox
