import Mathlib
import Lox.Proofs.Bytes.Lexemes

/-!
# Tokens are the longest matches

Wherever the reader stands between two characters, the piece that it reads is what the lexical grammar
says (`Reader.reads_piece?`), so this holds of all that its calls give.

The value of a number may also come from a parser that could refuse its text. Such a reader goes over
the bytes as before (`Reader.nthBy?_eq`), and it gives the parser nothing but digits, or digits with a
point between them. So if the parser takes these, no number is refused.
-/

set_option autoImplicit false

namespace Lox

open Utf8

namespace Reader

/-! ## A reader with a parser for numbers -/

/-- What is refused where the values of numbers come from a parser. -/
inductive Refusal where
  | lexical (e : LexicalError)
  | number (reason : String) (line : Nat)

/-- The refusal as it is reported. -/
def Refusal.diagnostic : Refusal → Diagnostic
  | .lexical e => e.diagnostic
  | .number reason line => ⟨.lexical, line, "Invalid number: " ++ reason⟩

/-- A parser takes what the grammar has for numbers. -/
def Accepts (parse : String → Except String Float) : Prop :=
  ∀ ds, Digits ds → (∃ value, parse (String.ofList ds) = .ok value) ∧
    ∀ decimals, Digits decimals → ∃ value, parse (String.ofList (ds ++ '.' :: decimals)) = .ok value

section

variable (parse : String → Except String Float)

/-- A number with the value that its text is parsed to. -/
def parsed (text : String) (line : Nat) : Except Refusal Kind :=
  match parse text with
  | .ok value => .ok (.number value)
  | .error reason => .error (.number reason line)

/-- Reads a number after its first digit, and has its text parsed. -/
def numberBy? (r : Reader) : Option (Except Refusal Kind × Reader) :=
  let r := r.pass Char.isDigit
  let r := if r.peek == '.' && r.peekNext.isDigit then (r.forward 1).pass Char.isDigit else r
  r.lexeme?.map fun text => (parsed parse text r.line, r)

/-- Reads a piece as before, but a number has its text parsed. -/
def pieceBy? (r : Reader) : Option (Option (Except Refusal Kind) × Reader) :=
  if r.peek.isDigit then
    ((r.forward 1).numberBy? parse).map fun (scanned, r) => (some scanned, r)
  else
    r.piece?.map fun (scanned, r) => (scanned.map (·.mapError .lexical), r)

/-- Reads pieces until one gives a token or is refused. -/
def nextWithinBy (bound : Nat) (r : Reader) : Option (Option (Except Refusal Token) × Reader) :=
  match bound with
  | 0 => none
  | n + 1 =>
    if r.atEnd then
      some (some (.ok ⟨.eof, "", r.line⟩), { r with done := true })
    else
      match { r with start := r.curr }.pieceBy? parse with
      | none => none
      | some (none, r) => nextWithinBy n r
      | some (some (.error e), r) => some (some (.error e), r)
      | some (some (.ok kind), r) =>
        r.lexeme?.map fun text => (some (.ok ⟨kind, text, r.line⟩), r)

/-- What a call gives, and the reader after it. -/
def nextBy? (r : Reader) : Option (Option (Except Refusal Token) × Reader) :=
  if r.done then some (none, r) else r.nextWithinBy parse (r.src.length + 1)

/-- What the calls give, counted from zero. -/
def nthBy? : Nat → Reader → Option (Option (Except Refusal Token))
  | 0, r => (r.nextBy? parse).map Prod.fst
  | n + 1, r => (r.nextBy? parse).bind fun given => nthBy? n given.2

/-- What a piece gives if the text of a number is parsed. -/
def revalue (text : String) (line : Nat) : Except LexicalError Kind → Except Refusal Kind
  | .error e => .error (.lexical e)
  | .ok (.number _) => parsed parse text line
  | .ok kind => .ok kind

end

end Reader

/-- What a call gives if the text of a number is parsed. -/
def Spanned.revalued (parse : String → Except String Float) (s : Spanned) :
    Except Reader.Refusal Token :=
  match s.item with
  | .error e => .error (.lexical e)
  | .token t => (Reader.revalue parse t.lexeme t.line (.ok t.kind)).map fun kind =>
      ⟨kind, t.lexeme, t.line⟩

namespace Reader

variable {r r' : Reader} {before text after cs : List Char} {c : Char}
  {parse : String → Except String Float}

/-! ## What is read at a place -/

/-- What a piece gives, its line aside. -/
theorem scanned?_given? (piece : Piece) (line : Nat) :
    (piece.scanned? line).map (·.mapError LexicalError.cause) = piece.given? := by
  unfold Piece.scanned? Piece.given?
  cases piece.form <;> rfl

/-- **The reader reads what the grammar says.** -/
theorem reads_piece? (stands : At r before [] (c :: cs)) :
    ∃ given r' text rest, r.piece? = some (given, r') ∧ c :: cs = text ++ rest ∧
      At r' before text rest ∧
      Reads (c :: cs) text (given.map (·.mapError LexicalError.cause)) := by
  obtain ⟨r', read, cuts⟩ := exists_piece? stands
  obtain ⟨rest, split, here⟩ := cuts.here
  refine ⟨_, r', _, rest, read, split, here, ?_⟩
  rw [scanned?_given?]
  exact Piece.reads_first c cs

/-! ## The parser changes nothing but values -/

theorem piece?_of_digit (digit : r.peek.isDigit = true) :
    r.piece? = (r.forward 1).number?.map fun (scanned, r) => (some scanned, r) := by
  have other {d : Char} (fails : d.isDigit = false) : r.peek ≠ d := Piece.ne_of_test digit fails
  simp [piece?, Piece.isSeparator, digit, other (d := ' ') rfl, other (d := '\r') rfl,
    other (d := '\t') rfl, other (d := '\n') rfl, other (d := '"') rfl]

/-- A number is read to the same place, and its text is what was read. -/
theorem numberBy?_eq {scanned : Except LexicalError Kind} (read : r.number? = some (scanned, r'))
    (lexeme : r'.lexeme? = some (String.ofList text)) :
    r.numberBy? parse = some (revalue parse (String.ofList text) r'.line scanned, r') := by
  unfold number? at read
  unfold numberBy?
  dsimp only at read ⊢
  obtain ⟨text', found, same⟩ := Option.map_eq_some_iff.mp read
  cases same
  rw [lexeme] at found
  obtain rfl := Option.some.inj found
  rw [lexeme]
  rfl

/-- What begins with no digit is no number. -/
theorem not_number_of_first (digit : c.isDigit = false) {value : Float} :
    (Piece.first c cs).form ≠ .token (.number value) := by
  intro token
  have begins := Piece.first_prefix c cs
  have lexeme := Piece.lexeme_first token
  generalize (Piece.first c cs).text = text at begins lexeme
  have first : ∀ ds rest, Digits ds → ds ++ rest <+: c :: cs → False := by
    intro ds rest digits within
    obtain ⟨d, others, rfl⟩ := List.exists_cons_of_ne_nil digits.nonempty
    obtain rfl : d = c := (List.cons_prefix_cons.mp within).1
    rw [digits.all_isDigit d List.mem_cons_self] at digit
    cases digit
  cases lexeme with
  | whole digits => exact first _ [] digits (by rwa [List.append_nil])
  | decimal digits => exact first _ _ digits begins

theorem pieceBy?_eq (stands : At r before [] (c :: cs)) (parse : String → Except String Float) :
    ∃ r', r.piece? = some ((Piece.first c cs).scanned? r'.line, r') ∧
      Cuts r before (c :: cs) (Piece.first c cs) r' ∧
      r.pieceBy? parse = some (((Piece.first c cs).scanned? r'.line).map
        (revalue parse (String.ofList (Piece.first c cs).text) r'.line), r') := by
  obtain ⟨r', read, cuts⟩ := exists_piece? stands
  refine ⟨r', read, cuts, ?_⟩
  obtain ⟨rest, -, here⟩ := cuts.here
  unfold pieceBy?
  by_cases digit : r.peek.isDigit = true
  · rw [piece?_of_digit digit] at read
    obtain ⟨⟨scanned, r''⟩, number, same⟩ := Option.map_eq_some_iff.mp read
    obtain ⟨given, rfl⟩ := Prod.mk.inj same
    rw [if_pos digit, numberBy?_eq number here.lexeme?, ← given]
    rfl
  · rw [if_neg digit, read, Option.map_some]
    -- The byte is no digit, so neither is the character.
    have noDigit : c.isDigit = false := by
      rcases stands.peek_cases with ⟨-, same⟩ | ⟨large, -⟩
      · rwa [same, Bool.not_eq_true] at digit
      · exact Piece.isDigit_of_large large
    have noNumber (value : Float) : (Piece.first c cs).form ≠ .token (.number value) :=
      not_number_of_first noDigit
    unfold Piece.scanned?
    cases form : (Piece.first c cs).form with
    | blank | comment | stray | unclosed => rfl
    | token kind =>
      cases kind with
      | number value => exact absurd form (noNumber value)
      | _ => rfl

/-- A call goes over the same pieces. -/
theorem nextWithinBy_eq (ready : Ready r before after) (bound : Nat) :
    r.nextWithinBy parse bound
      = (r.nextWithin bound).map fun given => (given.1.map (·.revalued parse), given.2) := by
  induction bound generalizing r before after with
  | zero => rfl
  | succ bound ih =>
    cases atEnd : r.atEnd with
    | true => simp [nextWithinBy, nextWithin, atEnd, Spanned.revalued, revalue, Except.map]
    | false =>
      cases after with
      | nil =>
        have length : r.src.length = r.curr := ready.here.length_src
        simp [Reader.atEnd, length] at atEnd
      | cons c cs =>
        obtain ⟨r', read, cuts, read'⟩ := pieceBy?_eq ready.here parse
        obtain ⟨rest, -, here, ready'⟩ := ready.after cuts
        rw [nextWithinBy, nextWithin, atEnd, if_neg Bool.false_ne_true, if_neg Bool.false_ne_true,
          read, read']
        cases (Piece.first c cs).scanned? r'.line with
        | none => exact ih ready'
        | some scanned =>
          cases scanned with
          | error e => rfl
          | ok kind =>
            -- The call gives the token or the refusal, and the reader is the same.
            simp only [Option.map_some, here.lexeme?, Spanned.revalued]
            cases revalue parse (String.ofList (Piece.first c cs).text) r'.line (.ok kind) with
            | error => rfl
            | ok => simp only [here.lexeme?, Option.map_some, Except.map]

theorem nextBy?_eq (ready : Ready r before after) (parse : String → Except String Float) :
    r.nextBy? parse = r.next?.map fun given => (given.1.map (·.revalued parse), given.2) := by
  unfold nextBy? next?
  rw [ready.done]
  exact nextWithinBy_eq ready _

theorem nthBy?_of_done (done : r.done = true) (n : Nat) : r.nthBy? parse n = some none := by
  induction n with
  | zero => simp [nthBy?, nextBy?, done]
  | succ n ih => simp [nthBy?, nextBy?, done, ih]

/-- **The calls give the same items**, but for the values of numbers. -/
theorem nthBy?_eq (ready : Ready r before after) (parse : String → Except String Float) (n : Nat) :
    r.nthBy? parse n = (r.nth? n).map fun given => given.map (·.revalued parse) := by
  induction n generalizing r before after with
  | zero =>
    rw [nthBy?, nth?, nextBy?_eq ready, Option.map_map, Option.map_map]
    rfl
  | succ n ih =>
    obtain ⟨s, r', call, ⟨done, -⟩ | ⟨before', after', ready', -⟩⟩ := gives_next? ready
    · simp [nthBy?, nth?, nextBy?_eq ready, call, nthBy?_of_done done, nth?_of_done done]
    · simp [nthBy?, nth?, nextBy?_eq ready, call, ih ready']

end Reader

/-! ## What the calls give -/

/-- What an item says, its line aside. -/
def Item.given : Item → Except LexicalError.Cause Kind
  | .token t => .ok t.kind
  | .error e => .error e.cause

/-- An item is read where its span begins, or it is the end of the input and stands there. -/
def Spanned.Read (source : String) (s : Spanned) : Prop :=
  ∃ before text rest, source.toList = before ++ text ++ rest ∧
    s.start = (encode before).length ∧ s.stop = (encode (before ++ text)).length ∧
    (∀ t, s.item = .token t → t.lexeme = String.ofList text) ∧
    (Reads (text ++ rest) text (some s.item.given) ∨
      text ++ rest = [] ∧ ∃ line, s.item = .token ⟨.eof, "", line⟩)

variable {source : String}

theorem Laid.read {p : Laid} (member : p ∈ Laid.ofSource source) {s : Spanned}
    (gives : p.spanned? = some s) : s.Read source := by
  obtain ⟨c, cs, rest, whole, piece, text, -⟩ := Piece.exists_first_of_mem_place member
  obtain ⟨item, given, rfl⟩ := Option.map_eq_some_iff.mp gives
  refine ⟨p.before, p.piece.text, rest, ?_, rfl, rfl, ?_, .inl ?_⟩
  · rw [List.append_assoc, ← text, ← whole, List.nil_append]
  · rintro t rfl
    unfold Piece.item? at given
    cases form : p.piece.form <;> rw [form] at given <;> cases given
    rfl
  · have same : p.piece.given? = some item.given := by
      unfold Piece.item? at given
      unfold Piece.given?
      cases form : p.piece.form <;> rw [form] at given <;> cases given <;> rfl
    rw [← same, ← text, piece]
    exact Piece.reads_first c cs

theorem read_ofSource : ∀ s ∈ Spanned.ofSource source, s.Read source := by
  intro s given
  rcases List.mem_append.mp given with among | atEnd
  · obtain ⟨p, member, gives⟩ := List.mem_filterMap.mp among
    exact Laid.read member gives
  · obtain rfl := List.mem_singleton.mp atEnd
    exact ⟨source.toList, [], [], by simp, rfl, by simp [Spanned.ending],
      fun t same => by cases same; rfl, .inr ⟨rfl, _, rfl⟩⟩

theorem Reader.Accepts.parse {parse : String → Except String Float} (accepts : Accepts parse)
    {text : List Char} {value : Float} (lexeme : Lexeme (.number value) text) :
    ∃ value', parse (String.ofList text) = .ok value' := by
  cases lexeme with
  | whole digits => exact (accepts _ digits).1
  | decimal digits more => exact (accepts _ digits).2 _ more

/-- A parser that takes all numbers refuses none that is read. -/
theorem Spanned.Read.revalued_ne {s : Spanned} (read : s.Read source)
    {parse : String → Except String Float} (accepts : Reader.Accepts parse) (reason : String)
    (line : Nat) : s.revalued parse ≠ .error (.number reason line) := by
  obtain ⟨before, text, rest, -, -, -, lexeme, reads | ⟨-, line', eof⟩⟩ := read
  · cases item : s.item with
    | error e => simp [Spanned.revalued, item]
    | token t =>
      rw [item] at reads
      have same := lexeme t item
      obtain ⟨kind, word, line'⟩ := t
      cases kind with
      | number value =>
        have spelled := (((reads.token _).mp rfl).1).lexeme
        obtain ⟨value', parses⟩ := accepts.parse spelled
        simp only at same
        simp [Spanned.revalued, item, Reader.revalue, Reader.parsed, same, parses, Except.map]
      | _ => simp [Spanned.revalued, item, Reader.revalue, Except.map]
  · simp [Spanned.revalued, eof, Reader.revalue, Except.map]

/-- **Tokens are the longest matches of the lexical grammar.** Wherever the reader stands before a
character, it gives what is right by the grammar and passes the text of that: a token if and only if
it is the longest that begins there and no comment does; an error for an unexpected character if and
only if no token, comment or whitespace begins there and it is no quote; an error for a string that
is not closed if and only if a quote begins there that is the last one. So each item that the calls
give is read in this way where its span begins, and the contents of a string are its lexeme without
the quotes.

If the text of a number is parsed, by whatever parser, then the calls give the same but for the values
of numbers and those that the parser refuses. A parser that takes digits, and digits with a point
between them, refuses none. -/
theorem tokens_are_longest_matches (source : String) :
    (∀ (r : Reader) (before : List Char) (c : Char) (cs : List Char),
      source.toList = before ++ c :: cs → Reader.At r before [] (c :: cs) →
      ∃ given r' text rest, r.piece? = some (given, r') ∧ c :: cs = text ++ rest ∧
        Reader.At r' before text rest ∧
        Reads (c :: cs) text (given.map (·.mapError LexicalError.cause))) ∧
    ∃ spans : List Spanned,
      (∀ n, (Reader.new source).nth? n = some spans[n]?) ∧
      spans.map Spanned.item = Item.ofSource source ∧
      (∀ s ∈ spans, s.Read source ∧ ∀ t contents, s.item = .token t → t.kind = .string contents →
        t.lexeme = "\"" ++ contents ++ "\"") ∧
      ∀ parse : String → Except String Float,
        (∀ n, (Reader.new source).nthBy? parse n = some (spans[n]?.map (·.revalued parse))) ∧
        (Reader.Accepts parse → ∀ n reason line,
          (Reader.new source).nthBy? parse n ≠ some (some (.error (.number reason line)))) := by
  have calls := Reader.nth?_eq (Reader.ready_new source)
  have callsBy (parse : String → Except String Float) (n : Nat) :
      (Reader.new source).nthBy? parse n
        = some ((Spanned.ofSource source)[n]?.map (·.revalued parse)) := by
    rw [Reader.nthBy?_eq (Reader.ready_new source), calls]
    rfl
  refine ⟨fun r before c cs _ stands => Reader.reads_piece? stands, Spanned.ofSource source, calls,
    Spanned.map_item_ofSource source, fun s member => ⟨read_ofSource s member, ?payload⟩,
    fun parse => ⟨callsBy parse, fun accepts n reason line => ?accepted⟩⟩
  case payload =>
    rintro ⟨kind, word, line⟩ contents item rfl
    -- Only the token at the end has not been read from characters, and it is no string.
    obtain ⟨before, text, rest, -, -, -, lexeme, reads | ⟨-, line', eof⟩⟩ := read_ofSource s member
    · rw [item] at reads
      rw [lexeme _ item]
      cases (((reads.token _).mp rfl).1).lexeme with
      | string => simp [String.ofList_append, String.append_assoc]
    · rw [item] at eof
      cases eof
  case accepted =>
    rw [callsBy]
    cases given : (Spanned.ofSource source)[n]? with
    | none => simp
    | some s =>
      have read := read_ofSource s (List.mem_of_getElem? given)
      simpa using read.revalued_ne accepts reason line

/-- A number stops before a second point. A parser that takes numbers takes it, and a parser that takes
none is asked for it. -/
theorem number_is_parsed_as_given :
    let parse : String → Except String Float := fun text => .ok (Reader.valueOf text.toList)
    Reader.Accepts parse ∧
      (∀ n reason line,
        (Reader.new "1.5.").nthBy? parse n ≠ some (some (.error (.number reason line)))) ∧
      (Reader.new "1.5.").nthBy? (fun text => .error text) 0
        = some (some (.error (.number "1.5" 1))) := by
  intro parse
  have accepts : Reader.Accepts parse := fun ds _ => ⟨⟨_, rfl⟩, fun decimals _ => ⟨_, rfl⟩⟩
  obtain ⟨-, spans, -, -, -, by_⟩ := tokens_are_longest_matches "1.5."
  exact ⟨accepts, (by_ parse).2 accepts, by cbv⟩

end Lox
