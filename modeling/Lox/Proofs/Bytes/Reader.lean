import Lox.Proofs.Bytes.Encoding
import Lox.Proofs.Sources

/-!
# Reading a source byte by byte

The reader goes over the bytes of a source and gives one item at each call. It looks at single
bytes, jumps to the next quote or line break, and takes slices of the bytes for what it read. A
slice that does not lie between characters has no value, and then the call has none.

While a piece is read, the bytes are those of three texts: what was read before the piece, what was
read of it so far, and the rest (`Reader.At`). Each way to go forward moves some characters from the
rest to the piece. So every slice lies between characters, and the reader cuts the source into the
pieces into which the source is cut (`Reader.exists_piece?`).
-/

set_option autoImplicit false

namespace Lox

open Utf8

/-- A source and how far it was read. -/
structure Reader where
  /-- The bytes of the source. -/
  src : List UInt8
  /-- Where the piece that is being read begins. -/
  start : Nat
  /-- Where the next byte to look at stands. -/
  curr : Nat
  line : Nat
  /-- Whether the end of the input was given. -/
  done : Bool

/-- An item and the bytes that it stands for. -/
structure Spanned where
  item : Item
  start : Nat
  stop : Nat

namespace Reader

/-- A reader at the beginning of a source. -/
def new (source : String) : Reader :=
  ⟨source.toUTF8.data.toList, 0, 0, 1, false⟩

def atEnd (r : Reader) : Bool :=
  r.src.length ≤ r.curr

/-- The byte at a place, as the character of its code. Past the end it is that of code zero. -/
def byteAt (r : Reader) (i : Nat) : Char :=
  Char.ofUInt8 (r.src[i]?.getD 0)

/-- The next byte. -/
def peek (r : Reader) : Char :=
  r.byteAt r.curr

/-- The byte behind the next one. -/
def peekNext (r : Reader) : Char :=
  r.byteAt (r.curr + 1)

/-- Goes forward by some bytes. -/
def forward (n : Nat) (r : Reader) : Reader :=
  { r with curr := r.curr + n }

/-- Goes forward as long as the bytes pass a test. -/
def pass (p : Char → Bool) (r : Reader) : Reader :=
  r.forward ((r.src.drop r.curr).takeWhile fun b => p (Char.ofUInt8 b)).length

/-- How far ahead a byte is found. -/
def find? (r : Reader) (c : Char) : Option Nat :=
  (r.src.drop r.curr).findIdx? fun b => Char.ofUInt8 b == c

/-- Counts the line breaks in the next `n` bytes. -/
def countBreaks (n : Nat) (r : Reader) : Reader :=
  { r with line := r.line + ((r.src.drop r.curr).take n).countP fun b => Char.ofUInt8 b == '\n' }

/-- The text of the piece as far as it was read. -/
def lexeme? (r : Reader) : Option String :=
  slice? r.src r.start r.curr

/-! ## Pieces -/

/-- Reads a string after its opening quote. -/
def string? (r : Reader) : Option (Except LexicalError Kind × Reader) :=
  match r.find? '"' with
  | none =>
    -- All that is left belongs to the string, so its error stands on the last line.
    let r := r.countBreaks r.src.length
    some (.error ⟨.unterminated, r.line⟩, { r with curr := r.src.length })
  | some close =>
    let r := (r.countBreaks close).forward (close + 1)
    (slice? r.src (r.start + 1) (r.curr - 1)).map fun body => (.ok (.string body), r)

/-- The value of a number as it is spelled. -/
def valueOf (text : List Char) : Float :=
  Piece.numberValue (text.takeWhile Char.isDigit) ((text.dropWhile Char.isDigit).drop 1)

/-- Reads a number after its first digit. -/
def number? (r : Reader) : Option (Except LexicalError Kind × Reader) :=
  let r := r.pass Char.isDigit
  let r := if r.peek == '.' && r.peekNext.isDigit then (r.forward 1).pass Char.isDigit else r
  r.lexeme?.map fun text => (.ok (.number (valueOf text.toList)), r)

/-- Reads a word after its first letter. -/
def word? (r : Reader) : Option (Except LexicalError Kind × Reader) :=
  let r := r.pass Piece.continuesWord
  r.lexeme?.map fun text =>
    match Keyword.ofSpelling? text with
    | some keyword => (.ok (.keyword keyword), r)
    | none => (.ok .identifier, r)

/-- Passes the rest of a comment. The line break behind it is left. -/
def comment (r : Reader) : Reader :=
  match r.find? '\n' with
  | some offset => r.forward offset
  | none => { r with curr := r.src.length }

/-- Reads a mark after its first character, with an equals sign where one makes an operator. -/
def mark (single : Punctuation) (r : Reader) : Except LexicalError Kind × Reader :=
  match single.withEqual? with
  | some double =>
    if !r.atEnd && r.peek == '=' then (.ok (.punctuation double), r.forward 1)
    else (.ok (.punctuation single), r)
  | none => (.ok (.punctuation single), r)

/-- Refuses the character where the piece begins, and passes all of it. -/
def unexpected? (r : Reader) : Option (Except LexicalError Kind × Reader) :=
  (slice? r.src r.start r.src.length).map fun rest =>
    let c := rest.toList.headD '\uFFFD'
    -- Only the first byte was passed so far.
    (.error ⟨.unexpected c, r.line⟩, { r with curr := r.start + c.utf8Size })

/-- Reads a piece by its first byte. A blank and a comment give nothing. -/
def piece? (r : Reader) : Option (Option (Except LexicalError Kind) × Reader) :=
  let c := r.peek
  let r := r.forward 1
  if Piece.isSeparator c then
    some (none, if c == '\n' then { r with line := r.line + 1 } else r)
  else if c == '"' then
    r.string?.map fun (scanned, r) => (some scanned, r)
  else if c.isDigit then
    r.number?.map fun (scanned, r) => (some scanned, r)
  else if Piece.beginsWord c then
    r.word?.map fun (scanned, r) => (some scanned, r)
  else if c == '/' && r.peek == '/' then
    some (none, r.comment)
  else
    match Punctuation.ofChar? c with
    | some single => some (some (r.mark single).1, (r.mark single).2)
    | none => r.unexpected?.map fun (scanned, r) => (some scanned, r)

/-! ## Calls -/

/-- Reads pieces until one gives an item. -/
def nextWithin (bound : Nat) (r : Reader) : Option (Option Spanned × Reader) :=
  match bound with
  | 0 => none
  | n + 1 =>
    if r.atEnd then
      some (some ⟨.token ⟨.eof, "", r.line⟩, r.curr, r.curr⟩, { r with done := true })
    else
      match { r with start := r.curr }.piece? with
      | none => none
      | some (none, r) => nextWithin n r
      | some (some (.error e), r) => some (some ⟨.error e, r.start, r.curr⟩, r)
      | some (some (.ok kind), r) =>
        r.lexeme?.map fun text => (some ⟨.token ⟨kind, text, r.line⟩, r.start, r.curr⟩, r)

/-- What a call gives, and the reader after it. Every piece has a byte, so a call reads fewer pieces
than the source has bytes, and then it may meet the end. -/
def next? (r : Reader) : Option (Option Spanned × Reader) :=
  if r.done then some (none, r) else r.nextWithin (r.src.length + 1)

/-- What the calls give, counted from zero. -/
def nth? : Nat → Reader → Option (Option Spanned)
  | 0, r => r.next?.map Prod.fst
  | n + 1, r => r.next?.bind fun given => nth? n given.2

/-! ## Where a reader stands -/

section

variable (n : Nat) (r : Reader)

@[simp] theorem src_forward : (r.forward n).src = r.src := rfl
@[simp] theorem start_forward : (r.forward n).start = r.start := rfl
@[simp] theorem curr_forward : (r.forward n).curr = r.curr + n := rfl
@[simp] theorem line_forward : (r.forward n).line = r.line := rfl

@[simp] theorem src_countBreaks : (r.countBreaks n).src = r.src := rfl
@[simp] theorem start_countBreaks : (r.countBreaks n).start = r.start := rfl
@[simp] theorem curr_countBreaks : (r.countBreaks n).curr = r.curr := rfl

@[simp] theorem line_pass (p : Char → Bool) : (r.pass p).line = r.line := rfl

end

/-- What was read before the piece, what was read of the piece, and the rest. -/
structure At (r : Reader) (before text after : List Char) : Prop where
  src : r.src = encode (before ++ text ++ after)
  start : r.start = (encode before).length
  curr : r.curr = (encode (before ++ text)).length

namespace At

variable {r r' : Reader} {before text after : List Char}

/-- The bytes ahead are those of the rest. -/
theorem ahead (stands : At r before text after) : r.src.drop r.curr = encode after := by
  rw [stands.src, stands.curr, encode_append (before ++ text), List.drop_left]

theorem length_src (stands : At r before text after) :
    r.src.length = r.curr + (encode after).length := by
  rw [stands.src, stands.curr, encode_append (before ++ text), List.length_append]

theorem move (stands : At r before text after) {more rest : List Char}
    (split : after = more ++ rest) (src : r'.src = r.src) (start : r'.start = r.start)
    (curr : r'.curr = r.curr + (encode more).length) : At r' before (text ++ more) rest := by
  refine ⟨?_, start.trans stands.start, ?_⟩
  · rw [src, stands.src, split]
    simp
  · rw [curr, stands.curr, ← List.append_assoc, encode_append _ more, List.length_append]

/-- **What was read of a piece can be sliced.** -/
theorem lexeme? (stands : At r before text after) : r.lexeme? = some (String.ofList text) := by
  unfold Reader.lexeme?
  rw [stands.src, stands.start, stands.curr]
  exact slice?_encode before text after

theorem byte (stands : At r before text after) :
    r.src[r.curr]? = (encode after).head? := by
  rw [← stands.ahead, List.head?_drop]

/-- A look at the next byte is one at the next character. -/
theorem peek (stands : At r before text after) {p : Char → Bool} (uniform : Uniform p)
    (zero : p '\x00' = false) : p r.peek = after.head?.any p := by
  rw [← any_head?_encode uniform, ← stands.byte]
  unfold Reader.peek byteAt
  cases r.src[r.curr]? with
  | none => exact zero
  | some b => rfl

/-- The next byte is the next character, or a byte of 128 or more. -/
theorem peek_cases {c : Char} (stands : At r before text (c :: after)) :
    (c.toNat < 128 ∧ r.peek = c) ∨ (128 ≤ c.toNat ∧ 128 ≤ r.peek.toNat) := by
  unfold Reader.peek byteAt
  rw [stands.byte, encode_cons]
  rcases utf8EncodeChar_cases c with ⟨small, b, bytes, same⟩ | ⟨large, b, bs, bytes, -, all⟩
  · left
    rw [bytes]
    exact ⟨small, same⟩
  · right
    rw [bytes]
    refine ⟨large, ?_⟩
    show 128 ≤ (Char.ofUInt8 b).toNat
    rw [toNat_ofUInt8]
    exact UInt8.le_iff_toNat_le.mp (all b List.mem_cons_self)

theorem pass (stands : At r before text after) {p : Char → Bool} (uniform : Uniform p) :
    At (r.pass p) before (text ++ after.takeWhile p) (after.dropWhile p) := by
  refine stands.move List.takeWhile_append_dropWhile.symm rfl rfl ?_
  unfold Reader.pass forward
  rw [stands.ahead, takeWhile_encode uniform]

theorem forward_one (stands : At r before text after) {c : Char} {rest : List Char}
    (split : after = c :: rest) (small : c.toNat < 128) :
    At (r.forward 1) before (text ++ [c]) rest := by
  refine stands.move split rfl rfl ?_
  rw [length_encode_singleton small]
  rfl

theorem find? (stands : At r before text after) {c : Char} (small : c.toNat < 128) :
    r.find? c =
      if (after.dropWhile (· != c)).isEmpty then none
      else some (encode (after.takeWhile (· != c))).length := by
  unfold Reader.find?
  rw [stands.ahead, findIdx?_encode small]

/-- The line breaks in some bytes are those in the characters that the bytes are. -/
theorem line_countBreaks (stands : At r before text after) {more : List Char} {n : Nat}
    (taken : (encode after).take n = encode more) :
    (r.countBreaks n).line = r.line + more.count '\n' := by
  unfold countBreaks
  dsimp only
  rw [stands.ahead, taken, count_encode (by decide)]

end At

end Reader

namespace Piece

section

variable {c : Char} (large : 128 ≤ c.toNat)
include large

theorem not_le_of_large {k : UInt32} (small : k.toNat < 128) : ¬c.val ≤ k := by
  rw [UInt32.le_iff_toNat_le]
  exact Nat.not_le.mpr (Nat.lt_of_lt_of_le small large)

theorem ne_of_large {d : Char} (small : d.toNat < 128) : c ≠ d := fun same => by
  rw [same] at large
  omega

theorem isDigit_of_large : c.isDigit = false := by
  have above := not_le_of_large large (k := 57) (by decide)
  simp [Char.isDigit, above]

theorem isAlpha_of_large : c.isAlpha = false := by
  have above := not_le_of_large large (k := 90) (by decide)
  have above' := not_le_of_large large (k := 122) (by decide)
  have upper : c.isUpper = false := decide_eq_false fun within => above within.2
  have lower : c.isLower = false := by
    show (_ && decide (c.val ≤ 122)) = false
    rw [decide_eq_false above', Bool.and_false]
  show (c.isUpper || c.isLower) = false
  rw [upper, lower]
  rfl

theorem isSeparator_of_large : isSeparator c = false := by
  have other {d : Char} (small : d.toNat < 128) : (c == d) = false :=
    beq_eq_false_iff_ne.mpr (ne_of_large large small)
  simp [isSeparator, other (d := ' ') (by decide), other (d := '\r') (by decide),
    other (d := '\t') (by decide), other (d := '\n') (by decide)]

theorem beginsWord_of_large : beginsWord c = false := by
  simp [beginsWord, isAlpha_of_large large, ne_of_large large (d := '_') (by decide)]

theorem continuesWord_of_large : continuesWord c = false := by
  simp [continuesWord, Char.isAlphanum, isAlpha_of_large large, isDigit_of_large large,
    ne_of_large large (d := '_') (by decide)]

/-- All marks are written with characters below 128. -/
theorem ofChar?_of_large : Punctuation.ofChar? c = none := by
  -- That a spelling is below 128 is all that matters, and this is seen mark by mark.
  have spelled (mark : Punctuation) : mark.spelling.toList.all (·.toNat < 128) = true := by
    cases mark <;> decide
  refine List.find?_eq_none.mpr fun mark _ same => ?_
  have whole : mark.spelling = String.singleton c := eq_of_beq same
  have below := List.all_eq_true.mp (spelled mark) c (by simp [whole])
  have small : c.toNat < 128 := of_decide_eq_true below
  omega

/-- A character of 128 or more begins nothing. -/
theorem first_of_large (cs : List Char) : first c cs = ⟨.stray c, [c]⟩ := by
  have notSlash : c ≠ '/' := ne_of_large large (by decide)
  have notQuote : c ≠ '"' := ne_of_large large (by decide)
  simp [first, mark, isSeparator_of_large large, isDigit_of_large large,
    beginsWord_of_large large, ofChar?_of_large large, notSlash, notQuote]

end

theorem uniform_isDigit : Uniform Char.isDigit := ⟨false, fun _ => isDigit_of_large⟩

theorem uniform_continuesWord : Uniform continuesWord := ⟨false, fun _ => continuesWord_of_large⟩

section

variable {c : Char} {cs : List Char}

/-- A run ends before a character that does not pass. -/
theorem not_mem_takeWhile {p : Char → Bool} {x : Char} (stops : p x = false) (cs : List Char) :
    x ∉ cs.takeWhile p := by
  intro member
  have passes := List.all_eq_true.mp List.all_takeWhile x member
  rw [stops] at passes
  cases passes

/-- What is nothing else is a mark, or a stray character. -/
theorem first_eq_mark (blank : ¬isSeparator c = true) (quote : c ≠ '"') (digit : ¬c.isDigit = true)
    (letter : ¬beginsWord c = true) (comment : ¬(c = '/' ∧ cs.head? = some '/')) :
    first c cs = mark c cs := by
  unfold first
  rw [if_neg blank, if_neg (by simpa using quote), if_neg digit, if_neg letter]
  split
  · exact absurd ⟨rfl, rfl⟩ ‹¬(_ ∧ _)›
  · rfl

/-- A number ends before a point that has no digit behind. -/
theorem number_short (short : ∀ d ds, cs.dropWhile Char.isDigit = '.' :: d :: ds →
    d.isDigit = false) :
    number cs = ⟨.token (.number (numberValue (cs.takeWhile Char.isDigit) [])),
      cs.takeWhile Char.isDigit⟩ := by
  unfold number
  dsimp only
  split
  · next d ds behind =>
    rw [short d ds behind]
    rfl
  · rfl

/-- A number goes on behind a point that has a digit behind. -/
theorem number_long {d : Char} {ds : List Char}
    (behind : cs.dropWhile Char.isDigit = '.' :: d :: ds) (digit : d.isDigit = true) :
    number cs = ⟨.token (.number (numberValue (cs.takeWhile Char.isDigit)
      ((d :: ds).takeWhile Char.isDigit))),
      cs.takeWhile Char.isDigit ++ '.' :: (d :: ds).takeWhile Char.isDigit⟩ := by
  unfold number
  rw [behind, List.takeWhile_cons_of_pos digit]
  exact if_pos digit

theorem mark_single {single : Punctuation} (isMark : Punctuation.ofChar? c = some single)
    (alone : ∀ double rest, single.withEqual? = some double → cs ≠ '=' :: rest) :
    mark c cs = ⟨.token (.punctuation single), [c]⟩ := by
  unfold mark
  rw [isMark]
  dsimp only
  split
  · next double rest becomes => exact absurd rfl (alone double rest becomes)
  · rfl

theorem mark_double {single double : Punctuation} (isMark : Punctuation.ofChar? c = some single)
    (becomes : single.withEqual? = some double) :
    mark c ('=' :: cs) = ⟨.token (.punctuation double), [c, '=']⟩ := by
  unfold mark
  rw [isMark]
  dsimp only
  rw [becomes]
  rfl

end

/-- What a piece gives where it ends on that line. -/
def scanned? (piece : Piece) (line : Nat) : Option (Except LexicalError Kind) :=
  match piece.form with
  | .blank | .comment => none
  | .token kind => some (.ok kind)
  | .stray c => some (.error ⟨.unexpected c, line⟩)
  | .unclosed => some (.error ⟨.unterminated, line⟩)

end Piece

namespace Reader

/-- The piece was read that begins the rest, and its line breaks were counted. -/
structure Cuts (r : Reader) (before whole : List Char) (piece : Piece) (r' : Reader) : Prop where
  here : ∃ after, whole = piece.text ++ after ∧ At r' before piece.text after
  line : r'.line = r.line + piece.breaks
  done : r'.done = r.done

section

variable {r : Reader} {before cs : List Char} {c : Char}

theorem exists_string? (stands : At r before ['"'] cs) :
    ∃ scanned r', r.string? = some (scanned, r') ∧
      (Piece.string cs).scanned? r'.line = some scanned ∧
      Cuts r before ('"' :: cs) (Piece.string cs) r' := by
  have whole : cs.takeWhile (· != '"') ++ cs.dropWhile (· != '"') = cs :=
    List.takeWhile_append_dropWhile
  have found := stands.find? (c := '"') (by decide)
  unfold Piece.string
  -- Whether the string is closed shows in what is behind all that is no quote.
  cases close : cs.dropWhile (· != '"') with
  | nil =>
    rw [close, List.append_nil] at whole
    rw [close, List.isEmpty_nil, if_pos rfl] at found
    have all : (encode cs).take r.src.length = encode cs :=
      List.take_of_length_le (by rw [stands.length_src]; omega)
    have line : (r.countBreaks r.src.length).line = r.line + cs.count '\n' :=
      stands.line_countBreaks all
    have read : r.string? = some (.error ⟨.unterminated, (r.countBreaks r.src.length).line⟩,
        { r.countBreaks r.src.length with curr := r.src.length }) := by
      unfold string?
      rw [found]
      rfl
    rw [whole]
    refine ⟨_, _, read, rfl, ⟨[], by simp, ?_⟩, ?_, rfl⟩
    · exact stands.move (List.append_nil _).symm rfl rfl stands.length_src
    · simpa [Piece.breaks] using line
  | cons quote rest =>
    have isQuote : quote = '"' := by
      have stop := List.head?_dropWhile_not (· != '"') cs
      rw [close] at stop
      simpa using stop
    subst isQuote
    rw [close] at found whole
    generalize cs.takeWhile (· != '"') = contents at found whole ⊢
    rw [List.isEmpty_cons, if_neg Bool.false_ne_true] at found
    have ahead : (encode cs).take (encode contents).length = encode contents := by
      rw [← whole, encode_append, List.take_left]
    have line : (r.countBreaks (encode contents).length).line = r.line + contents.count '\n' :=
      stands.line_countBreaks ahead
    have split : cs = contents ++ ['"'] ++ rest := by simp [← whole]
    have width : (encode (contents ++ ['"'])).length = (encode contents).length + 1 := by
      rw [encode_append, List.length_append, length_encode_singleton (by decide)]
    have moved : At ((r.countBreaks (encode contents).length).forward
        ((encode contents).length + 1)) before (['"'] ++ (contents ++ ['"'])) rest :=
      stands.move split rfl rfl (by rw [width]; rfl)
    -- The slice leaves out the quotes: the opening one counts as read before it.
    have opened : r.start + 1 = (encode (before ++ ['"'])).length := by
      rw [stands.start, encode_append, List.length_append, length_encode_singleton (by decide)]
    have body : slice? r.src (r.start + 1) (r.curr + (encode contents).length)
        = some (String.ofList contents) := by
      have sliced := slice?_encode (before ++ ['"']) contents ('"' :: rest)
      rw [encode_append _ contents, List.length_append, ← stands.curr] at sliced
      rw [stands.src, opened, ← whole, ← stands.curr, ← List.append_assoc]
      exact sliced
    have read : r.string? = some (.ok (.string (String.ofList contents)),
        (r.countBreaks (encode contents).length).forward ((encode contents).length + 1)) := by
      unfold string?
      simp [found, body]
    refine ⟨_, _, read, rfl, ⟨rest, ?_, ?_⟩, ?_, rfl⟩
    · simp [← whole]
    · simpa using moved
    · simpa [Piece.breaks] using line

/-- A run of characters that are no line breaks has none. -/
theorem count_takeWhile {p : Char → Bool} (stops : p '\n' = false) (cs : List Char) :
    (cs.takeWhile p).count '\n' = 0 :=
  List.count_eq_zero.mpr (Piece.not_mem_takeWhile stops cs)

theorem exists_word? (stands : At r before [c] cs) (begins : Piece.beginsWord c = true) :
    ∃ scanned r', r.word? = some (scanned, r') ∧
      (Piece.word (c :: cs)).scanned? r'.line = some scanned ∧
      Cuts r before (c :: cs) (Piece.word (c :: cs)) r' := by
  have continues : Piece.continuesWord c = true := by
    simp only [Piece.beginsWord, Piece.continuesWord, Char.isAlphanum, Bool.or_eq_true] at begins ⊢
    exact begins.imp_left Or.inl
  have passed := stands.pass Piece.uniform_continuesWord
  have text : [c] ++ cs.takeWhile Piece.continuesWord = (c :: cs).takeWhile Piece.continuesWord :=
    (List.takeWhile_cons_of_pos continues).symm
  rw [text] at passed
  have split : c :: cs = (c :: cs).takeWhile Piece.continuesWord
      ++ cs.dropWhile Piece.continuesWord := by
    rw [← text, List.append_assoc, List.takeWhile_append_dropWhile]
    rfl
  have breaks := count_takeWhile (p := Piece.continuesWord) (by decide) (c :: cs)
  unfold word? Piece.word
  simp only [passed.lexeme?, Option.map_some]
  cases Keyword.ofSpelling? (String.ofList ((c :: cs).takeWhile Piece.continuesWord)) with
  | none => exact ⟨_, _, rfl, rfl, ⟨_, split, passed⟩, by simp [Piece.breaks, breaks], rfl⟩
  | some keyword => exact ⟨_, _, rfl, rfl, ⟨_, split, passed⟩, by simp [Piece.breaks, breaks], rfl⟩

theorem valueOf_whole {ds : List Char} (digits : ds.all Char.isDigit = true) :
    valueOf ds = Piece.numberValue ds [] := by
  have all := List.all_eq_true.mp digits
  unfold valueOf
  have whole : ds.takeWhile Char.isDigit = ds := by
    simpa using @List.takeWhile_append_of_pos _ _ ds [] all
  have nothing : ds.dropWhile Char.isDigit = [] := by
    simpa using @List.dropWhile_append_of_pos _ _ ds [] all
  rw [whole, nothing]
  rfl

theorem valueOf_point {ds : List Char} (digits : ds.all Char.isDigit = true)
    (decimals : List Char) : valueOf (ds ++ '.' :: decimals) = Piece.numberValue ds decimals := by
  have all := List.all_eq_true.mp digits
  unfold valueOf
  rw [List.takeWhile_append_of_pos all, List.dropWhile_append_of_pos all]
  have point : '.'.isDigit = false := by decide
  simp [point]

/-- Whether a point with a digit behind it is next. -/
theorem At.point {text after : List Char} (stands : At r before text after) :
    (r.peek == '.' && r.peekNext.isDigit) = true ↔
      ∃ d ds, after = '.' :: d :: ds ∧ d.isDigit = true := by
  have first := stands.peek (p := (· == '.')) (uniform_beq (by decide)) (by decide)
  rw [Bool.and_eq_true, first]
  cases after with
  | nil => simp
  | cons e es =>
    by_cases isPoint : e = '.'
    · subst isPoint
      have second : r.peekNext.isDigit = es.head?.any Char.isDigit :=
        (stands.forward_one rfl (by decide)).peek Piece.uniform_isDigit (by decide)
      rw [second]
      cases es <;> simp
    · simp [isPoint]

theorem exists_number? (stands : At r before [c] cs) (digit : c.isDigit = true) :
    ∃ scanned r', r.number? = some (scanned, r') ∧
      (Piece.number (c :: cs)).scanned? r'.line = some scanned ∧
      Cuts r before (c :: cs) (Piece.number (c :: cs)) r' := by
  have passed := stands.pass Piece.uniform_isDigit
  have text : [c] ++ cs.takeWhile Char.isDigit = (c :: cs).takeWhile Char.isDigit :=
    (List.takeWhile_cons_of_pos digit).symm
  have rest : cs.dropWhile Char.isDigit = (c :: cs).dropWhile Char.isDigit :=
    (List.dropWhile_cons_of_pos digit).symm
  rw [text, rest] at passed
  have split : (c :: cs).takeWhile Char.isDigit ++ (c :: cs).dropWhile Char.isDigit = c :: cs :=
    List.takeWhile_append_dropWhile
  have digits : ((c :: cs).takeWhile Char.isDigit).all Char.isDigit = true := List.all_takeWhile
  have breaks := count_takeWhile (p := Char.isDigit) rfl (c :: cs)
  -- A point belongs to the number only if a digit is behind it.
  by_cases long : ((r.pass Char.isDigit).peek == '.' && (r.pass Char.isDigit).peekNext.isDigit)
      = true
  · obtain ⟨d, ds, behind, decimal⟩ := passed.point.mp long
    rw [Piece.number_long behind decimal]
    rw [behind] at passed split
    have decimals := count_takeWhile (p := Char.isDigit) rfl (d :: ds)
    have read := (passed.forward_one rfl (by decide)).pass Piece.uniform_isDigit
    rw [List.append_assoc, List.singleton_append] at read
    refine ⟨_, ((r.pass Char.isDigit).forward 1).pass Char.isDigit, ?_,
      congrArg some (congrArg Except.ok (congrArg Kind.number rfl)), ⟨_, ?_, read⟩, ?_, rfl⟩
    · simp only [number?, long, if_true, read.lexeme?, Option.map_some, String.toList_ofList,
        valueOf_point digits]
    · rw [List.append_assoc, List.cons_append, List.takeWhile_append_dropWhile, split]
    · simp [Piece.breaks, breaks, decimals]
  · have short : ∀ d ds, (c :: cs).dropWhile Char.isDigit = '.' :: d :: ds → d.isDigit = false := by
      intro d ds behind
      cases decimal : d.isDigit with
      | false => rfl
      | true => exact absurd (passed.point.mpr ⟨d, ds, behind, decimal⟩) long
    rw [Piece.number_short short]
    refine ⟨_, r.pass Char.isDigit, ?_, rfl, ⟨_, split.symm, passed⟩, ?_, rfl⟩
    · simp only [number?, long, Bool.false_eq_true, if_false, passed.lexeme?, Option.map_some,
        String.toList_ofList, valueOf_whole digits]
    · simp [Piece.breaks, breaks]

theorem cuts_comment (stands : At r before ['/'] ('/' :: cs)) :
    Cuts r before ('/' :: '/' :: cs) ⟨.comment, '/' :: '/' :: cs.takeWhile (· != '\n')⟩
      r.comment := by
  have split : '/' :: cs = '/' :: cs.takeWhile (· != '\n') ++ cs.dropWhile (· != '\n') := by
    rw [List.cons_append, List.takeWhile_append_dropWhile]
  have breaks := count_takeWhile (p := (· != '\n')) rfl cs
  have found := stands.find? (c := '\n') (by decide)
  rw [List.takeWhile_cons_of_pos rfl, List.dropWhile_cons_of_pos rfl] at found
  have stops : r.comment.curr = r.curr + (encode ('/' :: cs.takeWhile (· != '\n'))).length := by
    unfold comment
    rw [found]
    cases last : cs.dropWhile (· != '\n') with
    | nil =>
      -- Without a line break the comment goes to the end of the source.
      rw [last, List.append_nil] at split
      rw [List.isEmpty_nil, if_pos rfl, ← split]
      exact stands.length_src
    | cons d ds => rfl
  have same : r.comment.src = r.src ∧ r.comment.start = r.start ∧ r.comment.line = r.line ∧
      r.comment.done = r.done := by
    unfold comment
    cases r.find? '\n' <;> exact ⟨rfl, rfl, rfl, rfl⟩
  obtain ⟨src, start, line, done⟩ := same
  refine ⟨⟨cs.dropWhile (· != '\n'), ?_, stands.move split src start stops⟩, ?_, done⟩
  · exact congrArg _ split
  · rw [line]
    simp [Piece.breaks, breaks]

/-- A mark is no line break. -/
theorem ne_break_of_mark {single : Punctuation} (isMark : Punctuation.ofChar? c = some single) :
    c ≠ '\n' := by
  rintro rfl
  have none_ : Punctuation.ofChar? '\n' = none := by decide
  rw [none_] at isMark
  cases isMark

theorem cuts_mark (stands : At r before [c] cs) {single : Punctuation}
    (isMark : Punctuation.ofChar? c = some single) :
    (Piece.mark c cs).scanned? (r.mark single).2.line = some (r.mark single).1 ∧
      Cuts r before (c :: cs) (Piece.mark c cs) (r.mark single).2 := by
  have noBreak := ne_break_of_mark isMark
  have equal := stands.peek (p := (· == '=')) (uniform_beq (by decide)) (by decide)
  have alone : Cuts r before (c :: cs) ⟨.token (.punctuation single), [c]⟩ r :=
    ⟨⟨cs, rfl, stands⟩, by simp [Piece.breaks, noBreak], rfl⟩
  unfold Reader.mark
  cases becomes : single.withEqual? with
  | none =>
    rw [Piece.mark_single isMark fun _ _ double => by rw [becomes] at double; cases double]
    exact ⟨rfl, alone⟩
  | some double =>
    by_cases behind : cs.head?.any (· == '=') = true
    · obtain ⟨rest, rfl⟩ : ∃ rest, cs = '=' :: rest := by
        cases cs with
        | nil => cases behind
        | cons d ds => exact ⟨ds, by simpa using behind⟩
      -- The reader looks at the byte only if there is one.
      have more : r.atEnd = false := by
        have ahead := stands.length_src
        rw [encode_cons, List.length_append, String.length_utf8EncodeChar] at ahead
        have positive := Char.utf8Size_pos '='
        simp only [Reader.atEnd, decide_eq_false_iff_not]
        omega
      rw [Piece.mark_double isMark becomes]
      simp only [equal, behind, more, Bool.not_false, Bool.and_true, if_true]
      refine ⟨rfl, ⟨rest, rfl, stands.forward_one rfl (by decide)⟩, ?_, rfl⟩
      simp [Piece.breaks, noBreak]
    · rw [Piece.mark_single isMark fun _ rest _ follows => behind (by simp [follows])]
      simp only [equal, behind, Bool.and_false, Bool.false_eq_true, if_false]
      exact ⟨rfl, alone⟩

theorem cuts_unexpected (stands : At r before [] (c :: cs)) (noBreak : c ≠ '\n') :
    ∃ r', (r.forward 1).unexpected? = some (.error ⟨.unexpected c, r'.line⟩, r') ∧
      Cuts r before (c :: cs) ⟨.stray c, [c]⟩ r' := by
  have rest : slice? r.src r.start r.src.length = some (String.ofList (c :: cs)) := by
    have sliced := slice?_encode before (c :: cs) []
    have src := stands.src
    rw [List.append_nil] at sliced src
    rwa [← src, ← stands.start] at sliced
  have width : (encode [c]).length = c.utf8Size := by simp
  have here : r.curr = r.start := by
    rw [stands.curr, stands.start, List.append_nil]
  refine ⟨{ r.forward 1 with curr := r.start + c.utf8Size }, ?_, ⟨cs, rfl, ?_⟩, ?_, rfl⟩
  · simp [unexpected?, rest]
  · exact stands.move rfl rfl rfl (by rw [width, here])
  · simp [Piece.breaks, noBreak]

theorem Cuts.of_forward {whole : List Char} {piece : Piece} {n : Nat} {r' : Reader}
    (cuts : Cuts (r.forward n) before whole piece r') : Cuts r before whole piece r' :=
  ⟨cuts.here, cuts.line, cuts.done⟩

theorem exists_blank (stands : At r before [] (c :: cs)) (small : c.toNat < 128)
    (same : r.peek = c) (blank : Piece.isSeparator c = true) :
    ∃ r', r.piece? = some ((Piece.first c cs).scanned? r'.line, r') ∧
      Cuts r before (c :: cs) (Piece.first c cs) r' := by
  have one := stands.forward_one rfl small
  rw [show Piece.first c cs = ⟨.blank, [c]⟩ from if_pos blank]
  unfold piece?
  simp only [same, blank, if_true]
  refine ⟨_, rfl, ⟨cs, rfl, ?_⟩, ?_, ?_⟩
  · by_cases isBreak : c = '\n'
    · simp only [isBreak, beq_self_eq_true, if_true] at one ⊢
      exact one.move rfl rfl rfl rfl
    · simpa [isBreak] using one
  · by_cases isBreak : c = '\n' <;> simp [isBreak, Piece.breaks]
  · split <;> rfl

/-- What begins with a slash is a comment or a mark, and the other marks are alike. -/
theorem exists_mark (stands : At r before [] (c :: cs)) (small : c.toNat < 128)
    (same : r.peek = c) (blank : ¬Piece.isSeparator c = true) (quote : c ≠ '"')
    (digit : ¬c.isDigit = true) (letter : ¬Piece.beginsWord c = true) :
    ∃ r', r.piece? = some ((Piece.first c cs).scanned? r'.line, r') ∧
      Cuts r before (c :: cs) (Piece.first c cs) r' := by
  have one := stands.forward_one rfl small
  have next := one.peek (p := (· == '/')) (uniform_beq (by decide)) (by decide)
  unfold piece?
  rw [same]
  -- A second slash makes a comment; without it there is a mark or a stray character.
  by_cases slashes : (c == '/' && (r.forward 1).peek == '/') = true
  · obtain ⟨isSlash, second⟩ := (Bool.and_eq_true _ _).mp slashes
    obtain rfl : c = '/' := eq_of_beq isSlash
    rw [next] at second
    cases cs with
    | nil => cases second
    | cons d ds =>
      obtain rfl : d = '/' := by simpa using second
      refine ⟨(r.forward 1).comment, ?_, (cuts_comment one).of_forward⟩
      simp only [slashes]
      rfl
  · have comment : ¬(c = '/' ∧ cs.head? = some '/') := fun both =>
      slashes (by rw [next, both.1, both.2]; rfl)
    rw [Piece.first_eq_mark blank quote digit letter comment]
    cases isMark : Punctuation.ofChar? c with
    | some single =>
      obtain ⟨gives, cuts⟩ := cuts_mark one isMark
      exact ⟨_, by simp [blank, quote, digit, letter, slashes, isMark, gives], cuts.of_forward⟩
    | none =>
      have noBreak : c ≠ '\n' := fun isBreak => blank (by rw [isBreak]; rfl)
      have stray : Piece.mark c cs = ⟨.stray c, [c]⟩ := by
        unfold Piece.mark
        rw [isMark]
      obtain ⟨r', read, cuts⟩ := cuts_unexpected stands noBreak
      rw [stray]
      refine ⟨r', ?_, cuts⟩
      simp [blank, quote, digit, letter, slashes, isMark, read, Piece.scanned?]

/-- **The reader cuts off the first piece**, whatever its first byte is. -/
theorem exists_piece? (stands : At r before [] (c :: cs)) :
    ∃ r', r.piece? = some ((Piece.first c cs).scanned? r'.line, r') ∧
      Cuts r before (c :: cs) (Piece.first c cs) r' := by
  rcases stands.peek_cases with ⟨small, same⟩ | ⟨large, large'⟩
  · -- The byte is the character, and it is tested in the same order.
    by_cases blank : Piece.isSeparator c
    · exact exists_blank stands small same blank
    have one : At (r.forward 1) before [c] cs := stands.forward_one rfl small
    by_cases quote : c = '"'
    · subst quote
      obtain ⟨scanned, r', read, gives, cuts⟩ := exists_string? one
      have first : Piece.first '"' cs = Piece.string cs := rfl
      rw [first]
      exact ⟨r', by simp [piece?, same, blank, read, gives], cuts.of_forward⟩
    by_cases digit : c.isDigit
    · obtain ⟨scanned, r', read, gives, cuts⟩ := exists_number? one digit
      have first : Piece.first c cs = Piece.number (c :: cs) := by
        simp [Piece.first, blank, quote, digit]
      rw [first]
      exact ⟨r', by simp [piece?, same, blank, quote, digit, read, gives], cuts.of_forward⟩
    by_cases letter : Piece.beginsWord c
    · obtain ⟨scanned, r', read, gives, cuts⟩ := exists_word? one letter
      have first : Piece.first c cs = Piece.word (c :: cs) := by
        simp [Piece.first, blank, quote, digit, letter]
      rw [first]
      exact ⟨r', by simp [piece?, same, blank, quote, digit, letter, read, gives],
        cuts.of_forward⟩
    exact exists_mark stands small same blank quote digit letter
  · -- The byte is not the character, but neither of them passes any test.
    have noBreak : c ≠ '\n' := Piece.ne_of_large large (by decide)
    have notSlash : r.peek ≠ '/' := Piece.ne_of_large large' (by decide)
    have notQuote : r.peek ≠ '"' := Piece.ne_of_large large' (by decide)
    obtain ⟨r', read, cuts⟩ := cuts_unexpected stands noBreak
    rw [Piece.first_of_large large cs]
    refine ⟨r', ?_, cuts⟩
    simp [piece?, Piece.isSeparator_of_large large', Piece.isDigit_of_large large',
      Piece.beginsWord_of_large large', Piece.ofChar?_of_large large', notSlash, notQuote, read,
      Piece.scanned?]

end

end Reader

end Lox
