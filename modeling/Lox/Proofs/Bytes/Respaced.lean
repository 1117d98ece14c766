import Lox.Proofs.Bytes.Lexemes

/-!
# Lexemes with separators between them

The lexemes of a source, written one behind the other with a separator between neighbours, are
scanned to the same tokens again. Two facts carry this:

* a separator stands in no token but a string (`Lexeme.eq_string_of_separator`), and a string ends
  at its own quote; so no token begins at a lexeme and reaches over the separator behind it
  (`Lexeme.length_le_of_separated`);
* the first piece of a text is the longest token that begins there (`Piece.covers_first`).

So each lexeme is a piece of its own (`Piece.first_eq_of_lexeme`), and the induction over the lexemes
only has to put the pieces together (`Piece.cut_intercalate`).
-/

set_option autoImplicit false

namespace Lox

/-! ## Separators and tokens -/

/-- Whether a text is empty or begins with a separator. -/
def SeparatedFrom (rest : List Char) : Prop :=
  ∀ x ∈ rest.head?, Piece.isSeparator x = true

namespace Lexeme

variable {kind kind' : Kind} {text text' rest : List Char} {x : Char}

theorem ne_nil (lexeme : Lexeme kind text) : text ≠ [] := by
  cases lexeme with
  | mark m => cases m <;> decide
  | string | identifier => simp
  | whole digits => exact digits.nonempty
  | decimal => simp
  | keyword word => cases word <;> decide

/-- A separator is neither a digit nor a letter. -/
theorem not_separator (x : Char) (inWord : IsLetter x ∨ IsDigit x) :
    Piece.isSeparator x = false := by
  rw [← continuesWord_iff] at inWord
  have other {d : Char} (fails : Piece.continuesWord d = false) : x ≠ d :=
    Piece.ne_of_test inWord fails
  simp [Piece.isSeparator, other (d := ' ') rfl, other (d := '\r') rfl, other (d := '\t') rfl,
    other (d := '\n') rfl]

/-- **A token with a separator in it is a string.** -/
theorem eq_string_of_separator (lexeme : Lexeme kind text) (separator : Piece.isSeparator x = true)
    (inside : x ∈ text) : ∃ contents, '"' ∉ contents ∧ text = '"' :: contents ++ ['"'] := by
  have absent (word : ∀ d ∈ text, IsLetter d ∨ IsDigit d) : False := by
    have := not_separator x (word x inside)
    simp [separator] at this
  cases lexeme with
  | string free => exact ⟨_, free, rfl⟩
  | mark m =>
    have each : m.spelling.toList.all (!Piece.isSeparator ·) = true := by cases m <;> decide
    simpa [separator] using List.all_eq_true.mp each x inside
  | whole digits => exact (absent fun d member => .inr (digits.all d member)).elim
  | decimal digits more =>
    rcases List.mem_append.mp inside with before | behind
    · simpa [separator] using not_separator x (.inr (digits.all x before))
    · rcases List.mem_cons.mp behind with rfl | later
      · cases separator
      · simpa [separator] using not_separator x (.inr (more.all x later))
  | keyword word =>
    have each : word.spelling.toList.all (!Piece.isSeparator ·) = true := by
      cases word <;> decide
    simpa [separator] using List.all_eq_true.mp each x inside
  | identifier begins continues =>
    refine (absent fun d member => ?_).elim
    rcases List.mem_cons.mp member with rfl | later
    · exact .inl begins
    · exact continues d later

/-- What begins with a quote is a string. -/
theorem eq_string_of_quote (lexeme : Lexeme kind text) (quote : text.head? = some '"') :
    ∃ contents, '"' ∉ contents ∧ text = '"' :: contents ++ ['"'] := by
  cases lexeme with
  | string free => exact ⟨_, free, rfl⟩
  | mark m => cases m <;> exact absurd quote (by decide)
  | whole digits =>
    obtain ⟨ds, rfl⟩ := List.head?_eq_some_iff.mp quote
    exact absurd (digits.all _ List.mem_cons_self) (by unfold IsDigit; decide)
  | @decimal ds _ digits =>
    obtain ⟨d, others, rfl⟩ := List.exists_cons_of_ne_nil digits.nonempty
    obtain rfl : d = '"' := by simpa using quote
    exact absurd (digits.all _ List.mem_cons_self) (by unfold IsDigit; decide)
  | keyword word => cases word <;> exact absurd quote (by decide)
  | identifier begins =>
    obtain rfl := Option.some.inj quote
    exact absurd begins (by unfold IsLetter; decide)

/-- **No token reaches over a separator** that stands behind another one. -/
theorem length_le_of_separated (lexeme : Lexeme kind text) (lexeme' : Lexeme kind' text')
    (separated : SeparatedFrom rest) (begins : text' <+: text ++ rest) :
    text'.length ≤ text.length := by
  by_contra longer
  have within : text <+: text' :=
    List.prefix_of_prefix_length_le (List.prefix_append text rest) begins (by omega)
  obtain ⟨more, rfl⟩ := within
  cases more with
  | nil => simp at longer
  | cons x more =>
    have ahead : x :: more <+: rest := (List.prefix_append_right_inj text).mp begins
    obtain ⟨others, rfl⟩ := ahead
    have separator : Piece.isSeparator x = true := separated x rfl
    -- The longer one is a string, so both begin with a quote, and the shorter one ends with it.
    obtain ⟨contents', free', whole⟩ :=
      lexeme'.eq_string_of_separator separator (List.mem_append_right text List.mem_cons_self)
    obtain ⟨c, cs, rfl⟩ := List.exists_cons_of_ne_nil lexeme.ne_nil
    obtain rfl : c = '"' := (List.cons.inj whole).1
    obtain ⟨contents, free, same⟩ := lexeme.eq_string_of_quote rfl
    have split : contents ++ '"' :: x :: more = contents' ++ ['"'] := by
      have := congrArg List.tail whole
      rw [same] at this
      simpa using this
    -- The first quote is the same in both, and nothing is behind it in the longer one.
    have taken := congrArg (List.dropWhile (· != '"')) split
    have passes {cs : List Char} (free : '"' ∉ cs) : ∀ c ∈ cs, (c != '"') = true := fun c member => by
      simpa using ne_of_mem_of_not_mem member free
    rw [List.dropWhile_append_of_pos (passes free), List.dropWhile_append_of_pos (passes free')]
      at taken
    simp at taken

/-- In front of a separator no token begins a comment. -/
theorem not_beginsComment (lexeme : Lexeme kind text) (separated : SeparatedFrom rest) :
    ¬BeginsComment (text ++ rest) := by
  obtain ⟨c, cs, rfl⟩ := List.exists_cons_of_ne_nil lexeme.ne_nil
  rw [List.cons_append, Piece.beginsComment_iff]
  rintro ⟨rfl, second⟩
  have alone : cs = [] := by
    generalize whole : '/' :: cs = text at lexeme
    cases lexeme with
    | mark m =>
      have each : m.spelling.toList.head? = some '/' → m.spelling.toList.tail = [] := by
        cases m <;> decide
      simpa [← whole] using each (by simp [← whole])
    | string => simp at whole
    | whole digits =>
      exact absurd (digits.all '/' (whole ▸ List.mem_cons_self)) (by unfold IsDigit; decide)
    | decimal digits =>
      obtain ⟨d, others, rfl⟩ := List.exists_cons_of_ne_nil digits.nonempty
      obtain rfl : '/' = d := (List.cons.inj whole).1
      exact absurd (digits.all _ List.mem_cons_self) (by unfold IsDigit; decide)
    | keyword word =>
      have each : word.spelling.toList.head? ≠ some '/' := by cases word <;> decide
      exact absurd (whole ▸ rfl) each
    | identifier begins =>
      obtain rfl := (List.cons.inj whole).1
      exact absurd begins (by unfold IsLetter; decide)
  rw [alone, List.nil_append] at second
  exact absurd (separated _ second) (by decide)

end Lexeme

/-! ## Pieces -/

namespace Piece

variable {kind : Kind} {c : Char} {cs rest : List Char}

/-- **A lexeme is a piece of its own** in front of a separator and at the end of a text. -/
theorem first_eq_of_lexeme (lexeme : Lexeme kind (c :: cs)) (separated : SeparatedFrom rest) :
    first c (cs ++ rest) = ⟨.token kind, c :: cs⟩ := by
  have begins : c :: cs <+: c :: (cs ++ rest) := List.prefix_append (c :: cs) rest
  have begins' : (first c (cs ++ rest)).text <+: c :: (cs ++ rest) := first_prefix c _
  obtain ⟨kind', token, le, same⟩ :=
    covers_first lexeme begins (lexeme.not_beginsComment separated)
  have ge := lexeme.length_le_of_separated (lexeme_first token) separated begins'
  have length : (c :: cs).length = (first c (cs ++ rest)).text.length := by omega
  obtain rfl := same length
  have text : c :: cs = (first c (cs ++ rest)).text :=
    (List.prefix_of_prefix_length_le begins begins' le).eq_of_length length
  calc first c (cs ++ rest)
      = ⟨(first c (cs ++ rest)).form, (first c (cs ++ rest)).text⟩ := rfl
    _ = ⟨.token kind, c :: cs⟩ := by rw [token, ← text]

/-- A text that begins with a lexeme is cut behind it. -/
theorem cut_lexeme_append {text : List Char} (lexeme : Lexeme kind text)
    (separated : SeparatedFrom rest) : cut (text ++ rest) = ⟨.token kind, text⟩ :: cut rest := by
  obtain ⟨c, cs, rfl⟩ := List.exists_cons_of_ne_nil lexeme.ne_nil
  rw [List.cons_append, cut_cons, first_eq_of_lexeme lexeme separated]
  simp

/-- The kind and the text of a piece that is a token. -/
def word? (piece : Piece) : Option (Kind × List Char) :=
  match piece.form with
  | .token kind => some (kind, piece.text)
  | _ => none

/-- Whether a piece is a blank or a token. -/
def Faultless (piece : Piece) : Prop :=
  piece.form = .blank ∨ ∃ kind, piece.form = .token kind

/-- **Lexemes with separators between them** are cut into these lexemes, and else only blanks. -/
theorem cut_intercalate {x : Char} (separator : isSeparator x = true)
    (words : List (Kind × List Char)) (lexemes : ∀ word ∈ words, Lexeme word.1 word.2) :
    (cut ([x].intercalate (words.map Prod.snd))).filterMap word? = words ∧
      ∀ piece ∈ cut ([x].intercalate (words.map Prod.snd)), piece.Faultless := by
  induction words with
  | nil => simp [cut_nil]
  | cons word words ih =>
    have here := lexemes word List.mem_cons_self
    obtain ⟨read, faultless⟩ :=
      ih fun other member => lexemes other (List.mem_cons_of_mem word member)
    cases words with
    | nil =>
      have alone : cut (word.2 ++ []) = ⟨.token word.1, word.2⟩ :: cut [] :=
        cut_lexeme_append here nofun
      simp only [List.append_nil] at alone
      simp [alone, cut_nil, word?, Faultless]
    | cons next words =>
      have ahead : SeparatedFrom (x :: [x].intercalate ((next :: words).map Prod.snd)) := by
        simpa [SeparatedFrom] using separator
      have split : cut ([x].intercalate ((word :: next :: words).map Prod.snd))
          = ⟨.token word.1, word.2⟩ :: ⟨.blank, [x]⟩
            :: cut ([x].intercalate ((next :: words).map Prod.snd)) := by
        rw [List.map_cons, List.map_cons, List.intercalate_cons_cons, List.append_assoc,
          List.singleton_append, ← List.map_cons, cut_lexeme_append here ahead, cut_cons,
          first_blank separator]
        simp
      rw [split]
      constructor
      · show word :: (cut _).filterMap word? = _
        rw [read]
      · simpa [Faultless] using faultless

/-- What is read off the pieces of a text is spelled by the rules. -/
theorem lexeme_of_mem_words (cs : List Char) :
    ∀ word ∈ (cut cs).filterMap word?, Lexeme word.1 word.2 := by
  intro word member
  obtain ⟨piece, found, token⟩ := List.mem_filterMap.mp member
  obtain ⟨c, ds, rfl⟩ := eq_first_of_mem_cut found
  unfold word? at token
  cases form : (first c ds).form with
  | token kind =>
    rw [form] at token
    obtain rfl := Option.some.inj token
    exact lexeme_first form
  | blank | comment | stray | unclosed => simp [form] at token

end Piece

/-! ## Tokens -/

/-- A token without its line. -/
def Token.word (t : Token) : Kind × String :=
  (t.kind, t.lexeme)

/-- The words that are read off pieces, behind those read before. -/
theorem Reading.words_foldl_step (pieces : List Piece) (reading : Reading) :
    ((pieces.foldl step reading).items.reverse.filterMap Item.token?).map Token.word
      = (reading.items.reverse.filterMap Item.token?).map Token.word
        ++ (pieces.filterMap Piece.word?).map fun word => (word.1, String.ofList word.2) := by
  induction pieces generalizing reading with
  | nil => simp
  | cons piece pieces ih =>
    rw [List.foldl_cons, ih]
    unfold step Piece.item? Piece.word?
    cases form : piece.form <;>
      simp [List.filterMap_cons, form, Item.token?, Token.word]

/-- Pieces that are no faults leave no errors. -/
theorem Reading.clean_of_faultless {pieces : List Piece} {reading : Reading}
    (clean : reading.Clean) (faultless : ∀ piece ∈ pieces, piece.Faultless) :
    (pieces.foldl step reading).Clean := by
  induction pieces generalizing reading with
  | nil => exact clean
  | cons piece pieces ih =>
    refine ih ?_ fun other member => faultless other (List.mem_cons_of_mem piece member)
    have here := faultless piece List.mem_cons_self
    unfold step Piece.item?
    rcases here with blank | ⟨kind, token⟩
    · rw [blank]
      exact clean
    · intro item member
      simp only [token, List.mem_cons] at member
      rcases member with rfl | earlier
      · rfl
      · exact clean item earlier

/-- The tokens of a source are its words, and the end of the input behind them. -/
theorem words_scan (source : String) :
    (scan source).1.map Token.word
      = (((Piece.cut source.toList).filterMap Piece.word?).map
          fun word => (word.1, String.ofList word.2)) ++ [(.eof, "")] := by
  rw [scan_fst, Tokens.all, List.map_append]
  exact congrArg (· ++ _) (Reading.words_foldl_step _ ⟨1, []⟩)

/-- Every token but the end of the input is spelled by the rules. -/
theorem lexeme_of_mem_scan {source : String} {t : Token} (member : t ∈ (scan source).1) :
    t.kind = .eof ∨ Lexeme t.kind t.lexeme.toList := by
  have found : t.word ∈ (scan source).1.map Token.word := List.mem_map_of_mem member
  rw [words_scan] at found
  rcases List.mem_append.mp found with inside | last
  · obtain ⟨word, piece, same⟩ := List.mem_map.mp inside
    have lexeme := Piece.lexeme_of_mem_words _ _ piece
    obtain ⟨kind, text⟩ := Prod.mk.inj same
    rw [kind, ← String.toList_ofList (l := word.2), text] at lexeme
    exact .inr lexeme
  · exact .inl (congrArg Prod.fst (List.mem_singleton.mp last))

/-- The lexemes of a source, the end of the input aside. -/
def lexemes (source : String) : List String :=
  ((scan source).1.filter fun t => !t.kind.agrees .eof).map Token.lexeme

theorem lexemes_eq (source : String) :
    lexemes source
      = ((Piece.cut source.toList).filterMap Piece.word?).map fun word => String.ofList word.2 := by
  have words := Reading.words_foldl_step (Piece.cut source.toList) ⟨1, []⟩
  have body : (scan source).1.filter (fun t => !t.kind.agrees .eof)
      = (Tokens.ofSource source).body := by
    rw [scan_fst, Tokens.all, List.filter_append]
    have last : (Tokens.ofSource source).last.kind.agrees .eof = true := (Tokens.ofSource source).ended
    have kept : (Tokens.ofSource source).body.filter (fun t => !t.kind.agrees .eof)
        = (Tokens.ofSource source).body :=
      List.filter_eq_self.mpr fun t member => by simp [(Tokens.ofSource source).unended t member]
    simp [kept, last]
  calc lexemes source
      = ((Tokens.ofSource source).body.map Token.word).map Prod.snd := by
        rw [lexemes, body, List.map_map]
        rfl
    _ = _ := by
        rw [show (Tokens.ofSource source).body.map Token.word = _ from words]
        simp

/-- Whether a text is scanned without errors, and to the tokens of a source but for their lines. -/
def ScansAlike (source text : String) : Prop :=
  (scan text).2 = [] ∧ (scan text).1.map Token.word = (scan source).1.map Token.word

theorem scansAlike_intercalate (source : String) {x : Char}
    (separator : Piece.isSeparator x = true) :
    ScansAlike source ((String.singleton x).intercalate (lexemes source)) := by
  let words := (Piece.cut source.toList).filterMap Piece.word?
  have text : ((String.singleton x).intercalate (lexemes source)).toList
      = [x].intercalate (words.map Prod.snd) := by
    rw [String.toList_intercalate, lexemes_eq, List.map_map]
    simp [words, Function.comp_def]
  obtain ⟨read, faultless⟩ :=
    Piece.cut_intercalate separator words (Piece.lexeme_of_mem_words source.toList)
  rw [← text] at read faultless
  constructor
  · rw [scan_snd_eq_nil_iff]
    exact Reading.clean_of_faultless (fun _ none => absurd none List.not_mem_nil) faultless
  · rw [words_scan, words_scan, read]

/-- **The lexemes of a source, written with one space or one line break between neighbours, give its
tokens back**: they are scanned without errors, to the same kinds with the same values and lexemes,
and to the end of the input behind them. Whether the source itself has lexical errors makes no
difference, since its tokens are spelled by the rules in any case. -/
theorem lexemes_scan_back (source : String) :
    ScansAlike source (" ".intercalate (lexemes source)) ∧
      ScansAlike source ("\n".intercalate (lexemes source)) :=
  ⟨scansAlike_intercalate source (x := ' ') rfl, scansAlike_intercalate source (x := '\n') rfl⟩

/-- Without anything between them the two slashes would begin a comment. -/
example : lexemes "a/ /b <= \"x  y\"" = ["a", "/", "/", "b", "<=", "\"x  y\""] := by cbv

end Lox
