import Lox.Proofs.Bytes.Reader
import Lox.Proofs.Scanning
import Mathlib.Data.List.Pairwise

/-!
# What a source is scanned to

A source is cut into pieces without a gap, so each piece has its place among the bytes, and those of
two pieces do not overlap. The pieces that are tokens or faults give the items with their spans; the
others are the blanks and the comments (`Spanned.ofSource`).

The reader gives these items one by one and then nothing more (`Reader.nth?_eq`), so what is true of
them is true of what it gives.
-/

set_option autoImplicit false

namespace Lox

open Utf8

theorem length_encode (cs : List Char) : (encode cs).length = (String.ofList cs).utf8ByteSize := by
  rw [← String.size_toByteArray, String.toByteArray_ofList]
  simp [List.utf8Encode, encode]

/-! ## Pieces in their places -/

/-- A piece, and what stands before it in the source. -/
structure Laid where
  before : List Char
  piece : Piece

namespace Laid

/-- Where the bytes of a piece begin. -/
def start (p : Laid) : Nat :=
  (encode p.before).length

/-- Where the bytes of a piece end. -/
def stop (p : Laid) : Nat :=
  (encode (p.before ++ p.piece.text)).length

/-- The line on which a piece ends. -/
def line (p : Laid) : Nat :=
  1 + (p.before ++ p.piece.text).count '\n'

/-- The item that a piece gives, with its span. -/
def spanned? (p : Laid) : Option Spanned :=
  (p.piece.item? p.line).map fun item => ⟨item, p.start, p.stop⟩

/-- The item is the token or the error that a piece gives. -/
theorem spanned?_eq (p : Laid) :
    p.spanned? = (p.piece.scanned? p.line).map fun
      | .ok kind => ⟨.token ⟨kind, String.ofList p.piece.text, p.line⟩, p.start, p.stop⟩
      | .error e => ⟨.error e, p.start, p.stop⟩ := by
  unfold spanned? Piece.item? Piece.scanned?
  cases p.piece.form <;> rfl

end Laid

/-- Pieces in their places behind a text. -/
def Piece.place (before : List Char) : List Piece → List Laid
  | [] => []
  | piece :: pieces => ⟨before, piece⟩ :: place (before ++ piece.text) pieces

/-- The end of the input behind a text. -/
def Spanned.ending (whole : List Char) : Spanned :=
  ⟨.token ⟨.eof, "", 1 + whole.count '\n'⟩, (encode whole).length, (encode whole).length⟩

/-- The items of a text, and those before it aside. -/
def Spanned.behind (before after : List Char) : List Spanned :=
  (Piece.place before (Piece.cut after)).filterMap Laid.spanned? ++ [.ending (before ++ after)]

/-- What follows the first piece begins where that ends. -/
theorem Piece.rest_eq {c : Char} {cs rest : List Char}
    (split : c :: cs = (first c cs).text ++ rest) :
    rest = cs.drop ((first c cs).text.length - 1) :=
  List.append_cancel_left (split.symm.trans (first_append_drop c cs).symm)

/-- The first piece gives the first item, or none. -/
theorem Spanned.behind_cons (before : List Char) {c : Char} {cs rest : List Char}
    (split : c :: cs = (Piece.first c cs).text ++ rest) :
    Spanned.behind before (c :: cs) = (Laid.spanned? ⟨before, Piece.first c cs⟩).toList
      ++ Spanned.behind (before ++ (Piece.first c cs).text) rest := by
  unfold Spanned.behind
  rw [Piece.cut_cons, ← Piece.rest_eq split, Piece.place, List.filterMap_cons, List.append_assoc,
    ← split]
  cases Laid.spanned? ⟨before, Piece.first c cs⟩ <;> rfl

/-- The items of a source with their spans. -/
def Spanned.ofSource (source : String) : List Spanned :=
  Spanned.behind [] source.toList

/-- They are the items that scanning yields. -/
theorem Spanned.map_item_ofSource (source : String) :
    (Spanned.ofSource source).map Spanned.item = Item.ofSource source := by
  -- Scanning carries the line from piece to piece; here it is counted in all that stands before.
  have fold (pieces : List Piece) (before : List Char) (items : List Item) :
      pieces.foldl Reading.step ⟨1 + before.count '\n', items⟩ =
        ⟨1 + (before ++ pieces.flatMap Piece.text).count '\n',
          ((Piece.place before pieces).filterMap Laid.spanned?).reverse.map Spanned.item
            ++ items⟩ := by
    induction pieces generalizing before items with
    | nil => simp [Piece.place]
    | cons piece pieces ih =>
      have line : 1 + before.count '\n' + piece.breaks = 1 + (before ++ piece.text).count '\n' := by
        rw [List.count_append, Piece.breaks, Nat.add_assoc]
      have here : (⟨before, piece⟩ : Laid).spanned?
          = (piece.item? (1 + (before ++ piece.text).count '\n')).map fun item =>
            ⟨item, (encode before).length, (encode (before ++ piece.text)).length⟩ := rfl
      rw [List.foldl_cons, Reading.step, Piece.place, List.filterMap_cons, here]
      dsimp only
      rw [line]
      cases piece.item? (1 + (before ++ piece.text).count '\n') with
      | none =>
        rw [ih, List.flatMap_cons, ← List.append_assoc]
        rfl
      | some item =>
        rw [ih, List.flatMap_cons, ← List.append_assoc]
        simp
  unfold Spanned.ofSource Spanned.behind Item.ofSource Reading.finish
  have all := fold (Piece.cut source.toList) [] []
  rw [List.count_nil, Piece.flatMap_text_cut] at all
  rw [all]
  simp [Spanned.ending]

namespace Reader

/-! ## The calls -/

/-- A reader between two pieces: it has counted the line breaks, and there is more to give. -/
structure Ready (r : Reader) (before after : List Char) : Prop where
  here : At { r with start := r.curr } before [] after
  line : r.line = 1 + before.count '\n'
  done : r.done = false

theorem ready_new (source : String) : Ready (.new source) [] source.toList := by
  refine ⟨⟨?_, rfl, rfl⟩, rfl, rfl⟩
  exact data_toUTF8 source

/-- Behind a piece the reader is ready for the next one. -/
theorem Ready.after {r r' : Reader} {before whole : List Char} {piece : Piece}
    (ready : Ready r before whole) (cuts : Cuts { r with start := r.curr } before whole piece r') :
    ∃ rest, whole = piece.text ++ rest ∧ At r' before piece.text rest ∧
      Ready r' (before ++ piece.text) rest := by
  obtain ⟨rest, split, here⟩ := cuts.here
  refine ⟨rest, split, here, ⟨⟨?_, here.curr, ?_⟩, ?_, cuts.done.trans ready.done⟩⟩
  · rw [List.append_nil]
    exact here.src
  · rw [List.append_nil]
    exact here.curr
  · rw [cuts.line, List.count_append, ← Nat.add_assoc, ← ready.line]
    rfl

/-- What a call gives: an item that is ahead, and a reader that is ready for the rest or done. -/
def Gives (call : Option (Option Spanned × Reader)) (items : List Spanned) : Prop :=
  ∃ s r', call = some (some s, r') ∧
    ((r'.done = true ∧ items = [s]) ∨
      ∃ before after, Ready r' before after ∧ items = s :: Spanned.behind before after)

/-- A call passes blanks and comments up to the next item. -/
theorem gives_nextWithin {r : Reader} {before after : List Char} (ready : Ready r before after)
    {bound : Nat} (enough : after.length < bound) :
    Gives (r.nextWithin bound) (Spanned.behind before after) := by
  induction after using Piece.cut_induction generalizing r before bound with
  | nil =>
    obtain ⟨n, rfl⟩ := Nat.exists_eq_add_of_lt enough
    have length : r.src.length = r.curr := ready.here.length_src
    have curr : r.curr = (encode before).length := by
      have := ready.here.curr
      rwa [List.append_nil] at this
    have atEnd : r.atEnd = true := by simp [atEnd, length]
    refine ⟨.ending before, { r with done := true }, ?_, .inl ⟨rfl, ?_⟩⟩
    · simp [nextWithin, atEnd, Spanned.ending, ready.line, curr]
    · simp [Spanned.behind, Piece.cut_nil, Piece.place]
  | cons c cs ih =>
    obtain ⟨n, rfl⟩ := Nat.exists_eq_add_of_lt enough
    have atEnd : r.atEnd = false := by
      have length := ready.here.length_src
      have positive := length_le_encode (c :: cs)
      rw [List.length_cons] at positive
      dsimp only at length
      simp only [atEnd, decide_eq_false_iff_not]
      omega
    obtain ⟨r', read, cuts⟩ := exists_piece? ready.here
    obtain ⟨rest, split, here, ready'⟩ := ready.after cuts
    have line : r'.line = Laid.line ⟨before, Piece.first c cs⟩ := ready'.line
    rw [line] at read
    rw [Spanned.behind_cons before split, Laid.spanned?_eq]
    obtain rfl := Piece.rest_eq split
    cases gives : (Piece.first c cs).scanned? (Laid.line ⟨before, Piece.first c cs⟩) with
    | none =>
      -- A blank or a comment gives no item, so the call goes on with what is behind it.
      rw [gives] at read
      have shorter : (cs.drop ((Piece.first c cs).text.length - 1)).length
          < (c :: cs).length + n := by
        rw [List.length_drop, List.length_cons]
        omega
      simpa [nextWithin, atEnd, read] using ih ready' shorter
    | some scanned =>
      rw [gives] at read
      cases scanned with
      | ok kind =>
        refine ⟨_, r', ?_, .inr ⟨_, _, ready', rfl⟩⟩
        simp [nextWithin, atEnd, read, here.lexeme?, here.start, here.curr, line, Laid.start,
          Laid.stop]
      | error e =>
        refine ⟨_, r', ?_, .inr ⟨_, _, ready', rfl⟩⟩
        simp [nextWithin, atEnd, read, here.start, here.curr, Laid.start, Laid.stop]

theorem Ready.length_lt {r : Reader} {before after : List Char} (ready : Ready r before after) :
    after.length < r.src.length + 1 := by
  have length := ready.here.length_src
  have short := length_le_encode after
  dsimp only at length
  omega

theorem gives_next? {r : Reader} {before after : List Char} (ready : Ready r before after) :
    Gives r.next? (Spanned.behind before after) := by
  unfold next?
  rw [ready.done]
  exact gives_nextWithin ready ready.length_lt

theorem nth?_of_done {r : Reader} (done : r.done = true) (n : Nat) : r.nth? n = some none := by
  induction n with
  | zero => simp [nth?, next?, done]
  | succ n ih => simp [nth?, next?, done, ih]

/-- **The calls give the items one by one, and then nothing.** None of them fails. -/
theorem nth?_eq {r : Reader} {before after : List Char} (ready : Ready r before after) (n : Nat) :
    r.nth? n = some (Spanned.behind before after)[n]? := by
  induction n generalizing r before after with
  | zero =>
    obtain ⟨s, r', call, ⟨-, last⟩ | ⟨before', after', -, more⟩⟩ := gives_next? ready
    · simp [nth?, call, last]
    · simp [nth?, call, more]
  | succ n ih =>
    obtain ⟨s, r', call, ⟨done, last⟩ | ⟨before', after', ready', more⟩⟩ := gives_next? ready
    · simp [nth?, call, last, nth?_of_done done]
    · simp [nth?, call, more, ih ready']

end Reader

/-! ## The pieces fill the source -/

namespace Piece

/-- What the form of a first piece says of its text and of what follows. -/
def Shaped (piece : Piece) (whole : List Char) : Prop :=
  match piece.form with
  | .blank => ∃ x, piece.text = [x] ∧ isSeparator x = true
  | .comment => ∃ text rest, piece.text = '/' :: '/' :: text ∧ '\n' ∉ text ∧
      whole = piece.text ++ rest ∧ (rest = [] ∨ ∃ more, rest = '\n' :: more)
  | .token kind => kind.agrees .eof = false
  | .stray x => piece.text = [x]
  | .unclosed => ∃ text, piece.text = '"' :: text ∧ '"' ∉ text ∧ whole = piece.text

theorem shaped_string (cs : List Char) : (string cs).Shaped ('"' :: cs) := by
  have inner := inner_string cs
  have whole : cs.takeWhile (· != '"') ++ cs.dropWhile (· != '"') = cs :=
    List.takeWhile_append_dropWhile
  unfold string at inner ⊢
  cases close : cs.dropWhile (· != '"') with
  | nil =>
    rw [close, List.append_nil] at whole
    exact ⟨_, rfl, not_mem_takeWhile rfl cs, congrArg _ whole.symm⟩
  | cons quote rest =>
    rw [close] at inner
    exact inner _ rfl

theorem shaped_comment (cs : List Char) : (first '/' ('/' :: cs)).Shaped ('/' :: '/' :: cs) := by
  have whole : cs.takeWhile (· != '\n') ++ cs.dropWhile (· != '\n') = cs :=
    List.takeWhile_append_dropWhile
  refine ⟨cs.takeWhile (· != '\n'), cs.dropWhile (· != '\n'), rfl, not_mem_takeWhile rfl cs, ?_, ?_⟩
  · show _ = '/' :: '/' :: (cs.takeWhile (· != '\n') ++ cs.dropWhile (· != '\n'))
    rw [whole]
  · cases stop : cs.dropWhile (· != '\n') with
    | nil => exact .inl rfl
    | cons d ds =>
      have isBreak := List.head?_dropWhile_not (· != '\n') cs
      rw [stop] at isBreak
      obtain rfl : d = '\n' := by simpa using isBreak
      exact .inr ⟨ds, rfl⟩

/-- A token is not the end of the input, and more is not to be said of it. -/
theorem Inner.shaped {piece : Piece} (inner : piece.Inner) {kind : Kind}
    (token : piece.form = .token kind) (whole : List Char) : piece.Shaped whole := by
  unfold Shaped
  rw [token]
  exact inner kind token

theorem exists_form_number (cs : List Char) : ∃ kind, (number cs).form = .token kind := by
  unfold number
  dsimp only
  split
  · split <;> exact ⟨_, rfl⟩
  · exact ⟨_, rfl⟩

theorem exists_form_word (cs : List Char) : ∃ kind, (word cs).form = .token kind := by
  unfold word
  dsimp only
  split <;> exact ⟨_, rfl⟩

theorem shaped_mark (c : Char) (cs : List Char) : (mark c cs).Shaped (c :: cs) := by
  have inner := inner_mark cs c
  cases isMark : Punctuation.ofChar? c with
  | none =>
    unfold mark
    rw [isMark]
    rfl
  | some single =>
    have token : ∃ kind, (mark c cs).form = .token kind := by
      unfold mark
      rw [isMark]
      dsimp only
      split <;> exact ⟨_, rfl⟩
    obtain ⟨kind, token⟩ := token
    exact inner.shaped token _

theorem shaped_first (c : Char) (cs : List Char) : (first c cs).Shaped (c :: cs) := by
  by_cases blank : isSeparator c
  · rw [show first c cs = ⟨.blank, [c]⟩ from if_pos blank]
    exact ⟨c, rfl, blank⟩
  by_cases quote : c = '"'
  · subst quote
    exact shaped_string cs
  by_cases digit : c.isDigit
  · obtain ⟨kind, token⟩ := exists_form_number (c :: cs)
    have first : first c cs = number (c :: cs) := by simp [first, blank, quote, digit]
    rw [first]
    exact (inner_number (c :: cs)).shaped token _
  by_cases letter : beginsWord c
  · obtain ⟨kind, token⟩ := exists_form_word (c :: cs)
    have first : first c cs = word (c :: cs) := by simp [first, blank, quote, digit, letter]
    rw [first]
    exact (inner_word (c :: cs)).shaped token _
  by_cases slashes : c = '/' ∧ cs.head? = some '/'
  · obtain ⟨rfl, second⟩ := slashes
    cases cs with
    | nil => cases second
    | cons d ds =>
      obtain rfl : d = '/' := Option.some.inj second
      exact shaped_comment ds
  · rw [first_eq_mark blank quote digit letter slashes]
    exact shaped_mark c cs

/-- Every piece is the first one of what follows its place. -/
theorem exists_first_of_mem_place {before after : List Char} {p : Laid}
    (member : p ∈ place before (cut after)) :
    ∃ c cs rest, before ++ after = p.before ++ c :: cs ∧ p.piece = first c cs ∧
      c :: cs = p.piece.text ++ rest ∧ before <+: p.before := by
  induction after using cut_induction generalizing before with
  | nil =>
    rw [cut_nil, place] at member
    exact absurd member List.not_mem_nil
  | cons c cs ih =>
    rw [cut_cons, place] at member
    have split := first_append_drop c cs
    rcases List.mem_cons.mp member with rfl | later
    · exact ⟨c, cs, _, rfl, rfl, split.symm, List.prefix_refl _⟩
    · obtain ⟨d, ds, rest, whole, piece, text, within⟩ := ih later
      refine ⟨d, ds, rest, ?_, piece, text, (List.prefix_append _ _).trans within⟩
      rw [← whole, List.append_assoc, split]

/-- No piece begins before the last one ends. -/
theorem pairwise_place (before after : List Char) :
    (place before (cut after)).Pairwise fun p q => p.stop ≤ q.start := by
  induction after using cut_induction generalizing before with
  | nil =>
    rw [cut_nil, place]
    exact .nil
  | cons c cs ih =>
    rw [cut_cons, place]
    -- All pieces behind the first one have it in the text before them.
    refine .cons (fun q member => ?_) (ih _)
    obtain ⟨_, _, _, _, _, _, within⟩ := exists_first_of_mem_place member
    obtain ⟨more, whole⟩ := within
    show (encode (before ++ (first c cs).text)).length ≤ (encode q.before).length
    rw [← whole, encode_append _ more, List.length_append]
    exact Nat.le_add_right _ _

/-- Every byte is in some piece. -/
theorem exists_mem_place {before after : List Char} {i : Nat} (low : (encode before).length ≤ i)
    (high : i < (encode (before ++ after)).length) :
    ∃ p ∈ place before (cut after), p.start ≤ i ∧ i < p.stop := by
  induction after using cut_induction generalizing before with
  | nil =>
    rw [List.append_nil] at high
    omega
  | cons c cs ih =>
    rw [cut_cons, place]
    by_cases here : i < (encode (before ++ (first c cs).text)).length
    · exact ⟨_, List.mem_cons_self, low, here⟩
    · have split := first_append_drop c cs
      rw [← split, ← List.append_assoc] at high
      obtain ⟨p, member, within⟩ := ih (by omega) high
      exact ⟨p, List.mem_cons_of_mem _ member, within⟩

end Piece

/-! ## Spans -/

/-- The line of a token or an error. -/
def Item.line : Item → Nat
  | .token t => t.line
  | .error e => e.line

/-- What an item says of the text in its span: a token is spelled so, a character is refused, or a
string is not closed. -/
def Item.Describes : Item → String → Prop
  | .token t, inside => t.lexeme = inside
  | .error ⟨.unexpected c, _⟩, inside => inside = String.singleton c
  | .error ⟨.unterminated, _⟩, inside => ∃ text : String, inside = "\"" ++ text ∧ '"' ∉ text.toList

/-- Whether a span lies between characters of a source, its item describes the text there, and the
line of the item is that of the end of the span. A string that is not closed goes to the end. -/
def Spanned.Marks (source : String) (s : Spanned) : Prop :=
  ∃ before inside after : String, source = before ++ inside ++ after ∧
    s.start = before.utf8ByteSize ∧ s.stop = (before ++ inside).utf8ByteSize ∧
    s.item.Describes inside ∧ s.item.line = 1 + (before ++ inside).toList.count '\n' ∧
    ∀ line, s.item = .error ⟨.unterminated, line⟩ → after = ""

/-- Whether a byte of a source belongs to a blank or to a comment, which ends before the next line
break or at the end of the source. No span meets these. -/
def Ignored (source : String) (spans : List Spanned) (i : Nat) : Prop :=
  ∃ before inside after : String, source = before ++ inside ++ after ∧
    before.utf8ByteSize ≤ i ∧ i < (before ++ inside).utf8ByteSize ∧
    (∀ s ∈ spans, s.stop ≤ before.utf8ByteSize ∨ (before ++ inside).utf8ByteSize ≤ s.start) ∧
    (inside ∈ [" ", "\t", "\r", "\n"] ∨
      ∃ text : String, inside = "//" ++ text ∧ '\n' ∉ text.toList ∧
        (after = "" ∨ ∃ rest : String, after = "\n" ++ rest))

section

variable {source : String}

/-- A part of the characters is the like part of the string. -/
theorem eq_ofList_append {before inside after : List Char}
    (split : source.toList = before ++ inside ++ after) :
    source = String.ofList before ++ String.ofList inside ++ String.ofList after := by
  rw [← String.ofList_append, ← String.ofList_append, ← split, String.ofList_toList]

theorem utf8ByteSize_ofList_append (before inside : List Char) :
    (String.ofList before ++ String.ofList inside).utf8ByteSize
      = (encode (before ++ inside)).length := by
  rw [← String.ofList_append, length_encode]

theorem marks_ending : (Spanned.ending source.toList).Marks source := by
  refine ⟨source, "", "", by simp, ?_, ?_, rfl, ?_, fun _ same => nomatch same⟩
  · simp [Spanned.ending, length_encode]
  · simp [Spanned.ending, length_encode]
  · simp [Spanned.ending, Item.line]

/-- The pieces of a source, each in its place. -/
def Laid.ofSource (source : String) : List Laid :=
  Piece.place [] (Piece.cut source.toList)

/-- A piece of a source has the rest behind it. -/
theorem Laid.exists_rest {p : Laid} (member : p ∈ Laid.ofSource source) :
    ∃ rest, source.toList = p.before ++ p.piece.text ++ rest ∧
      p.piece.Shaped (p.piece.text ++ rest) := by
  obtain ⟨c, cs, rest, whole, piece, text, -⟩ := Piece.exists_first_of_mem_place member
  refine ⟨rest, ?_, ?_⟩
  · rw [List.append_assoc, ← text, ← whole, List.nil_append]
  · rw [← text, piece]
    exact Piece.shaped_first c cs

theorem Laid.stop_le {p : Laid} (member : p ∈ Laid.ofSource source) :
    p.stop ≤ (encode source.toList).length := by
  obtain ⟨rest, split, -⟩ := Laid.exists_rest member
  rw [split, encode_append _ rest, List.length_append]
  exact Nat.le_add_right _ _

/-- The span of an item is that of its piece. -/
theorem Laid.span_eq {p : Laid} {s : Spanned} (gives : p.spanned? = some s) :
    s.start = p.start ∧ s.stop = p.stop := by
  obtain ⟨item, -, rfl⟩ := Option.map_eq_some_iff.mp gives
  exact ⟨rfl, rfl⟩

theorem Laid.marks {p : Laid} (member : p ∈ Laid.ofSource source) {s : Spanned}
    (gives : p.spanned? = some s) : s.Marks source := by
  obtain ⟨rest, split, shaped⟩ := Laid.exists_rest member
  have size := utf8ByteSize_ofList_append p.before p.piece.text
  obtain ⟨item, given, rfl⟩ := Option.map_eq_some_iff.mp gives
  have described : item.Describes (String.ofList p.piece.text) ∧ item.line = p.line ∧
      ∀ line, item = .error ⟨.unterminated, line⟩ → rest = [] := by
    unfold Piece.item? at given
    unfold Piece.Shaped at shaped
    cases form : p.piece.form with
    | blank | comment =>
      rw [form] at given
      cases given
    | token kind =>
      rw [form] at given
      cases given
      exact ⟨rfl, rfl, fun _ same => nomatch same⟩
    | stray x =>
      rw [form] at given shaped
      cases given
      refine ⟨?_, rfl, fun _ same => nomatch same⟩
      show String.ofList p.piece.text = String.singleton x
      rw [shaped]
      simp
    | unclosed =>
      rw [form] at given shaped
      cases given
      obtain ⟨contents, isText, noQuote, all⟩ := shaped
      refine ⟨⟨String.ofList contents, ?_, by simpa using noQuote⟩, rfl, fun _ _ => ?_⟩
      · rw [isText]
        exact @String.ofList_append ['"'] contents
      · -- The text is all of the rest, so nothing is behind it.
        exact List.append_right_eq_self.mp all
  obtain ⟨describes, line, last⟩ := described
  refine ⟨_, _, _, eq_ofList_append split, length_encode _, size.symm, describes, ?_, ?_⟩
  · rw [line]
    simp [Laid.line]
  · intro line same
    rw [last line same]

/-- Only the last item is the end of the input. -/
theorem Laid.not_eof {p : Laid} (member : p ∈ Laid.ofSource source) {s : Spanned}
    (gives : p.spanned? = some s) (lexeme : String) (line : Nat) :
    s.item ≠ .token ⟨.eof, lexeme, line⟩ := by
  obtain ⟨rest, -, shaped⟩ := Laid.exists_rest member
  obtain ⟨item, given, rfl⟩ := Option.map_eq_some_iff.mp gives
  rintro rfl
  unfold Piece.item? at given
  unfold Piece.Shaped at shaped
  cases form : p.piece.form with
  | blank | comment | stray | unclosed =>
    rw [form] at given
    cases given
  | token kind =>
    rw [form] at given shaped
    cases given
    cases shaped

/-- Two pieces do not overlap, whichever is first. -/
theorem Laid.apart {p q : Laid} (left : p ∈ Laid.ofSource source)
    (right : q ∈ Laid.ofSource source) (different : p ≠ q) :
    p.stop ≤ q.start ∨ q.stop ≤ p.start := by
  have symmetric : Std.Symm fun a b : Laid => a.stop ≤ b.start ∨ b.stop ≤ a.start :=
    ⟨fun _ _ => Or.symm⟩
  have either : (Laid.ofSource source).Pairwise fun a b => a.stop ≤ b.start ∨ b.stop ≤ a.start :=
    (Piece.pairwise_place [] source.toList).imp Or.inl
  exact either.forall left right different

/-- A piece that gives no item is a blank or a comment, and no item overlaps it. -/
theorem Laid.ignored {p : Laid} (member : p ∈ Laid.ofSource source)
    (gives : p.spanned? = none) {i : Nat} (low : p.start ≤ i) (high : i < p.stop) :
    Ignored source (Spanned.ofSource source) i := by
  obtain ⟨rest, split, shaped⟩ := Laid.exists_rest member
  have size := utf8ByteSize_ofList_append p.before p.piece.text
  have start : (String.ofList p.before).utf8ByteSize = p.start := (length_encode _).symm
  refine ⟨_, _, _, eq_ofList_append split, start ▸ low, size ▸ high, ?_, ?_⟩
  · -- The items come from other pieces or stand at the end.
    rw [start, size]
    intro s given
    rcases List.mem_append.mp given with among | atEnd
    · obtain ⟨q, other, gives'⟩ := List.mem_filterMap.mp among
      obtain ⟨start', stop'⟩ := Laid.span_eq gives'
      rw [start', stop']
      have different : q ≠ p := by
        rintro rfl
        rw [gives] at gives'
        cases gives'
      exact Laid.apart other member different
    · obtain rfl := List.mem_singleton.mp atEnd
      exact .inr (Laid.stop_le member)
  · -- Only blanks and comments give no item.
    have nothing : p.piece.item? p.line = none := Option.map_eq_none_iff.mp gives
    unfold Piece.item? at nothing
    unfold Piece.Shaped at shaped
    cases form : p.piece.form with
    | token | stray | unclosed =>
      rw [form] at nothing
      cases nothing
    | blank =>
      rw [form] at shaped
      obtain ⟨x, text, separates⟩ := shaped
      left
      rw [text]
      have blank : x = ' ' ∨ x = '\r' ∨ x = '\t' ∨ x = '\n' := by
        simpa [Piece.isSeparator, or_assoc] using separates
      rcases blank with rfl | rfl | rfl | rfl <;> decide
    | comment =>
      rw [form] at shaped
      obtain ⟨text, rest', isText, noBreak, whole, ends⟩ := shaped
      obtain rfl := List.append_cancel_left whole
      refine .inr ⟨String.ofList text, ?_, by simpa using noBreak, ?_⟩
      · rw [isText]
        exact @String.ofList_append ['/', '/'] text
      · rcases ends with rfl | ⟨more, rfl⟩
        · exact .inl rfl
        · exact .inr ⟨String.ofList more, @String.ofList_append ['\n'] more⟩

end

/-- **Scanning loses nothing, and what it says of positions is right.** -/
theorem scanning_is_lossless (source : String) :
    ∃ spans : List Spanned,
      (∀ n, (Reader.new source).nth? n = some spans[n]?) ∧
      spans.map Spanned.item = Item.ofSource source ∧
      spans.Pairwise (fun a b => a.stop ≤ b.start) ∧
      (∀ s ∈ spans, s.Marks source) ∧
      (∀ i < source.utf8ByteSize, (∀ s ∈ spans, ¬(s.start ≤ i ∧ i < s.stop)) →
        Ignored source spans i) ∧
      ∃ earlier line, spans = earlier ++
          [⟨.token ⟨.eof, "", line⟩, source.utf8ByteSize, source.utf8ByteSize⟩] ∧
        ∀ s ∈ earlier, ∀ lexeme line, s.item ≠ .token ⟨.eof, lexeme, line⟩ := by
  have size : (encode source.toList).length = source.utf8ByteSize := by
    rw [length_encode, String.ofList_toList]
  refine ⟨Spanned.ofSource source, Reader.nth?_eq (Reader.ready_new source),
    Spanned.map_item_ofSource source, ?ordered, ?marked, ?covered,
    (Laid.ofSource source).filterMap Laid.spanned?, 1 + source.toList.count '\n', ?last, ?only⟩
  case ordered =>
    refine List.pairwise_append.mpr ⟨?_, List.pairwise_singleton _ _, ?_⟩
    · -- The items have the spans of their pieces, which are laid out in order.
      have pieces := Piece.pairwise_place [] source.toList
      refine pieces.filterMap _ fun p q ordered s gives t gives' => ?_
      rw [(Laid.span_eq gives).2, (Laid.span_eq gives').1]
      exact ordered
    · intro s among t atEnd
      obtain ⟨p, member, gives⟩ := List.mem_filterMap.mp among
      obtain rfl := List.mem_singleton.mp atEnd
      rw [(Laid.span_eq gives).2]
      exact Laid.stop_le member
  case marked =>
    intro s given
    rcases List.mem_append.mp given with among | atEnd
    · obtain ⟨p, member, gives⟩ := List.mem_filterMap.mp among
      exact Laid.marks member gives
    · obtain rfl := List.mem_singleton.mp atEnd
      exact marks_ending
  case covered =>
    intro i inside uncovered
    -- Every byte lies in some piece, and a piece without an item is ignored.
    have high : i < (encode ([] ++ source.toList)).length := by
      rwa [List.nil_append, size]
    obtain ⟨p, member, within⟩ := Piece.exists_mem_place (Nat.zero_le i) high
    cases gives : p.spanned? with
    | none => exact Laid.ignored member gives within.1 within.2
    | some s =>
      obtain ⟨start, stop⟩ := Laid.span_eq gives
      have given : s ∈ Spanned.ofSource source :=
        List.mem_append_left _ (List.mem_filterMap.mpr ⟨p, member, gives⟩)
      refine absurd ?_ (uncovered s given)
      rwa [start, stop]
  case last =>
    show _ ++ [Spanned.ending source.toList] = _
    rw [Spanned.ending, size]
    rfl
  case only =>
    intro s among
    obtain ⟨p, member, gives⟩ := List.mem_filterMap.mp among
    exact Laid.not_eof member gives

end Lox
