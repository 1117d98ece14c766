import Lox.Proofs.Bytes.Spans

/-!
# The lexical grammar

A token is spelled by one of five rules, and which of them applies is decided by its first character
(`Lexeme.begins`). So a piece of source only has to be compared with the spellings that begin as it
does, and there it is the longest: a string ends at the next quote, a run of digits or of letters ends
where no other one follows, and a mark takes the equals sign behind it if that makes an operator.

The other pieces are what the grammar has no token for: blanks, comments, an open quote without a
second one, and characters with which nothing begins (`Piece.read_first`).
-/

set_option autoImplicit false

namespace Lox

/-! ## The rules -/

/-- The decimal digits of ASCII. -/
def IsDigit (c : Char) : Prop :=
  '0' ≤ c ∧ c ≤ '9'

/-- The letters of ASCII and the underscore. -/
def IsLetter (c : Char) : Prop :=
  ('a' ≤ c ∧ c ≤ 'z') ∨ ('A' ≤ c ∧ c ≤ 'Z') ∨ c = '_'

/-- One digit or more. -/
structure Digits (ds : List Char) : Prop where
  nonempty : ds ≠ []
  all : ∀ d ∈ ds, IsDigit d

/-- How tokens are spelled. -/
inductive Lexeme : Kind → List Char → Prop
  | mark (mark : Punctuation) : Lexeme (.punctuation mark) mark.spelling.toList
  | string {contents : List Char} (inside : '"' ∉ contents) :
      Lexeme (.string (String.ofList contents)) ('"' :: contents ++ ['"'])
  | whole {ds : List Char} (digits : Digits ds) : Lexeme (.number (Piece.numberValue ds [])) ds
  | decimal {ds decimals : List Char} (digits : Digits ds) (more : Digits decimals) :
      Lexeme (.number (Piece.numberValue ds decimals)) (ds ++ '.' :: decimals)
  | keyword (word : Keyword) : Lexeme (.keyword word) word.spelling.toList
  | identifier {c : Char} {cs : List Char} (begins : IsLetter c)
      (continues : ∀ d ∈ cs, IsLetter d ∨ IsDigit d)
      (free : ∀ word : Keyword, word.spelling.toList ≠ c :: cs) : Lexeme .identifier (c :: cs)

/-- A token is the longest that begins a text, and no other kind is spelled as it is. -/
structure Longest (kind : Kind) (text whole : List Char) : Prop where
  lexeme : Lexeme kind text
  begins : text <+: whole
  longest : ∀ kind' text', Lexeme kind' text' → text' <+: whole →
    text'.length ≤ text.length ∧ (text'.length = text.length → kind' = kind)

/-- Some token begins a text. -/
def BeginsToken (whole : List Char) : Prop :=
  ∃ kind text, Lexeme kind text ∧ text <+: whole

/-- A comment begins a text. -/
def BeginsComment (whole : List Char) : Prop :=
  ['/', '/'] <+: whole

/-- Whitespace begins a text. -/
def BeginsBlank (whole : List Char) : Prop :=
  ∃ c ∈ [' ', '\t', '\r', '\n'], [c] <+: whole

/-! ## Characters and spellings -/

theorem isDigit_iff (c : Char) : c.isDigit = true ↔ IsDigit c := by
  simp [Char.isDigit, IsDigit, Char.le_def]

theorem isLetter_iff (c : Char) : Piece.beginsWord c = true ↔ IsLetter c := by
  have upper : c.isUpper = true ↔ 'A' ≤ c ∧ c ≤ 'Z' := decide_eq_true_iff
  have lower : c.isLower = true ↔ 'a' ≤ c ∧ c ≤ 'z' := by
    show (decide ('a' ≤ c) && decide (c ≤ 'z')) = true ↔ _
    rw [Bool.and_eq_true, decide_eq_true_eq, decide_eq_true_eq]
  have letter : c.isAlpha = true ↔ c.isUpper = true ∨ c.isLower = true := Bool.or_eq_true_iff
  simp [Piece.beginsWord, IsLetter, letter, upper, lower, or_left_comm, or_assoc]

theorem continuesWord_iff (c : Char) :
    Piece.continuesWord c = true ↔ IsLetter c ∨ IsDigit c := by
  rw [← isLetter_iff, ← isDigit_iff]
  simp [Piece.continuesWord, Piece.beginsWord, Char.isAlphanum, or_right_comm]

theorem Digits.all_isDigit {ds : List Char} (digits : Digits ds) : ∀ d ∈ ds, d.isDigit = true :=
  fun d member => (isDigit_iff d).mpr (digits.all d member)

/-- A mark is a character, or one with an equals sign behind it. -/
theorem spelling_mark_cases (mark : Punctuation) :
    ∃ c, (Punctuation.ofChar? c = some mark ∧ mark.spelling.toList = [c]) ∨
      ∃ single, Punctuation.ofChar? c = some single ∧ single.withEqual? = some mark ∧
        mark.spelling.toList = [c, '='] := by
  refine ⟨mark.spelling.toList.headD ' ', ?_⟩
  cases mark
  case bangEqual => exact .inr ⟨.bang, by decide⟩
  case equalEqual => exact .inr ⟨.equal, by decide⟩
  case greaterEqual => exact .inr ⟨.greater, by decide⟩
  case lessEqual => exact .inr ⟨.less, by decide⟩
  all_goals exact .inl (by decide)

theorem spelling_of_ofChar? {c : Char} {mark : Punctuation}
    (isMark : Punctuation.ofChar? c = some mark) : mark.spelling.toList = [c] := by
  have same : (mark.spelling == String.singleton c) = true := by
    simpa using List.find?_some isMark
  simp [eq_of_beq same]

theorem spelling_of_withEqual? {c : Char} {single double : Punctuation}
    (isMark : Punctuation.ofChar? c = some single) (becomes : single.withEqual? = some double) :
    double.spelling.toList = [c, '='] := by
  have spelled := spelling_of_ofChar? isMark
  cases single <;> cases becomes <;> cases spelled <;> decide

/-- What begins a mark begins nothing else. -/
theorem only_mark {c : Char} {mark : Punctuation} (isMark : Punctuation.ofChar? c = some mark) :
    Piece.isSeparator c = false ∧ c ≠ '"' ∧ c.isDigit = false ∧ Piece.beginsWord c = false := by
  have each (m : Punctuation) : let c := m.spelling.toList.headD ' '
      Piece.isSeparator c = false ∧ c ≠ '"' ∧ c.isDigit = false ∧ Piece.beginsWord c = false := by
    cases m <;> decide
  simpa [spelling_of_ofChar? isMark] using each mark

/-- What is a reserved word has the characters of a word. -/
theorem spelling_keyword_cases (word : Keyword) :
    ∃ c cs, word.spelling.toList = c :: cs ∧ Piece.beginsWord c = true ∧
      ∀ d ∈ c :: cs, Piece.continuesWord d = true := by
  have each (w : Keyword) : let cs := w.spelling.toList
      cs = cs.headD ' ' :: cs.tail ∧ Piece.beginsWord (cs.headD ' ') = true ∧
        (cs.headD ' ' :: cs.tail).all Piece.continuesWord = true := by
    cases w <;> decide
  obtain ⟨whole, begins, continues⟩ := each word
  exact ⟨_, _, whole, begins, List.all_eq_true.mp continues⟩

theorem ofSpelling?_eq_some_iff (text : List Char) (word : Keyword) :
    Keyword.ofSpelling? (String.ofList text) = some word ↔ word.spelling.toList = text := by
  constructor
  · intro found
    have same : (word.spelling == String.ofList text) = true := by
      simpa using List.find?_some found
    simp [eq_of_beq same]
  · rintro rfl
    rw [String.ofList_toList]
    cases word <;> decide

namespace Piece

variable {c : Char} {cs text : List Char} {kind : Kind}

/-! ## Tokens are spelled by the rules -/

theorem takeWhile_all (p : Char → Bool) (cs : List Char) : ∀ c ∈ cs.takeWhile p, p c = true :=
  List.all_eq_true.mp List.all_takeWhile

theorem digits_takeWhile (digit : c.isDigit = true) (cs : List Char) :
    Digits ((c :: cs).takeWhile Char.isDigit) where
  nonempty := by simp [digit]
  all d member := (isDigit_iff d).mp (takeWhile_all _ _ d member)

theorem lexeme_string (token : (string cs).form = .token kind) :
    Lexeme kind (string cs).text := by
  unfold string at token ⊢
  cases close : cs.dropWhile (· != '"') with
  | nil =>
    rw [close] at token
    cases token
  | cons =>
    rw [close] at token
    cases token
    exact .string (not_mem_takeWhile rfl cs)

theorem lexeme_number (digit : c.isDigit = true) (token : (number (c :: cs)).form = .token kind) :
    Lexeme kind (number (c :: cs)).text := by
  have digits := digits_takeWhile digit cs
  by_cases long : ∃ d ds, (c :: cs).dropWhile Char.isDigit = '.' :: d :: ds ∧ d.isDigit = true
  · obtain ⟨d, ds, behind, decimal⟩ := long
    rw [number_long behind decimal] at token ⊢
    cases token
    exact .decimal digits (digits_takeWhile decimal ds)
  · have short : ∀ d ds, (c :: cs).dropWhile Char.isDigit = '.' :: d :: ds → d.isDigit = false :=
      fun d ds behind => Bool.eq_false_iff.mpr fun decimal => long ⟨d, ds, behind, decimal⟩
    rw [number_short short] at token ⊢
    cases token
    exact .whole digits

theorem lexeme_word (letter : beginsWord c = true) (token : (word (c :: cs)).form = .token kind) :
    Lexeme kind (word (c :: cs)).text := by
  have continues : continuesWord c = true :=
    (continuesWord_iff c).mpr (.inl ((isLetter_iff c).mp letter))
  unfold word at token ⊢
  dsimp only at token ⊢
  rw [List.takeWhile_cons_of_pos continues] at token ⊢
  cases spelled : Keyword.ofSpelling? (String.ofList (c :: cs.takeWhile continuesWord)) with
  | some word =>
    rw [spelled] at token
    cases token
    rw [← (ofSpelling?_eq_some_iff _ word).mp spelled]
    exact .keyword word
  | none =>
    rw [spelled] at token
    cases token
    refine .identifier ((isLetter_iff c).mp letter) (fun d member => ?_) fun word same => ?_
    · exact (continuesWord_iff d).mp (takeWhile_all _ _ d member)
    · rw [(ofSpelling?_eq_some_iff _ word).mpr same] at spelled
      cases spelled

theorem lexeme_mark (token : (mark c cs).form = .token kind) : Lexeme kind (mark c cs).text := by
  cases isMark : Punctuation.ofChar? c with
  | none =>
    unfold mark at token
    rw [isMark] at token
    cases token
  | some single =>
    by_cases double : ∃ m rest, single.withEqual? = some m ∧ cs = '=' :: rest
    · obtain ⟨m, rest, becomes, rfl⟩ := double
      rw [mark_double isMark becomes] at token ⊢
      cases token
      rw [← spelling_of_withEqual? isMark becomes]
      exact .mark m
    · rw [mark_single isMark fun m rest becomes same => double ⟨m, rest, becomes, same⟩] at token ⊢
      cases token
      rw [← spelling_of_ofChar? isMark]
      exact .mark single

theorem beginsComment_iff : BeginsComment (c :: cs) ↔ c = '/' ∧ cs.head? = some '/' := by
  cases cs <;> simp [BeginsComment, eq_comm]

/-- What does not hold of a character is another one. -/
theorem ne_of_test {p : Char → Bool} (passes : p c = true) {d : Char} (fails : p d = false) :
    c ≠ d := by
  rintro rfl
  rw [passes] at fails
  cases fails

theorem first_blank (blank : isSeparator c = true) (cs : List Char) : first c cs = ⟨.blank, [c]⟩ :=
  if_pos blank

theorem first_digit (digit : c.isDigit = true) (cs : List Char) : first c cs = number (c :: cs) := by
  have other {d : Char} (fails : d.isDigit = false) : c ≠ d := ne_of_test digit fails
  simp [first, isSeparator, digit, other (d := ' ') rfl, other (d := '\r') rfl,
    other (d := '\t') rfl, other (d := '\n') rfl, other (d := '"') rfl]

theorem not_isDigit_of_letter (letter : beginsWord c = true) : c.isDigit = false := by
  rw [Bool.eq_false_iff]
  intro digit
  have below := ((isDigit_iff c).mp digit).2
  rcases (isLetter_iff c).mp letter with ⟨low, -⟩ | ⟨low, -⟩ | rfl
  · exact absurd (Char.le_trans low below) (by decide)
  · exact absurd (Char.le_trans low below) (by decide)
  · cases digit

theorem first_letter (letter : beginsWord c = true) (cs : List Char) :
    first c cs = word (c :: cs) := by
  have other {d : Char} (fails : beginsWord d = false) : c ≠ d := ne_of_test letter fails
  simp [first, isSeparator, letter, not_isDigit_of_letter letter, other (d := ' ') rfl,
    other (d := '\r') rfl, other (d := '\t') rfl, other (d := '\n') rfl, other (d := '"') rfl]

theorem first_comment (comment : BeginsComment (c :: cs)) : (first c cs).form = .comment := by
  obtain ⟨rfl, second⟩ := beginsComment_iff.mp comment
  obtain ⟨rest, rfl⟩ := List.head?_eq_some_iff.mp second
  rfl

/-- The piece that begins a text is found by its first character. -/
theorem first_cases (c : Char) (cs : List Char) :
    (isSeparator c = true ∧ first c cs = ⟨.blank, [c]⟩) ∨
    (c = '"' ∧ first c cs = string cs) ∨
    (c.isDigit = true ∧ first c cs = number (c :: cs)) ∨
    (beginsWord c = true ∧ first c cs = word (c :: cs)) ∨
    (BeginsComment (c :: cs) ∧ (first c cs).form = .comment) ∨
    (isSeparator c = false ∧ c ≠ '"' ∧ ¬BeginsComment (c :: cs) ∧ first c cs = mark c cs) := by
  by_cases blank : isSeparator c = true
  · exact .inl ⟨blank, first_blank blank cs⟩
  by_cases quote : c = '"'
  · subst quote
    exact .inr (.inl ⟨rfl, rfl⟩)
  by_cases digit : c.isDigit = true
  · exact .inr (.inr (.inl ⟨digit, first_digit digit cs⟩))
  by_cases letter : beginsWord c = true
  · exact .inr (.inr (.inr (.inl ⟨letter, first_letter letter cs⟩)))
  by_cases comment : BeginsComment (c :: cs)
  · exact .inr (.inr (.inr (.inr (.inl ⟨comment, first_comment comment⟩))))
  · exact .inr (.inr (.inr (.inr (.inr ⟨Bool.eq_false_iff.mpr blank, quote, comment,
      first_eq_mark blank quote digit letter (comment ∘ beginsComment_iff.mpr)⟩))))

/-- **A token is spelled by the rules.** -/
theorem lexeme_first (token : (first c cs).form = .token kind) :
    Lexeme kind (first c cs).text := by
  rcases first_cases c cs with ⟨-, same⟩ | ⟨-, same⟩ | ⟨digit, same⟩ | ⟨letter, same⟩ |
    ⟨-, comment⟩ | ⟨-, -, -, same⟩
  · rw [same] at token
    cases token
  · rw [same] at token ⊢
    exact lexeme_string token
  · rw [same] at token ⊢
    exact lexeme_number digit token
  · rw [same] at token ⊢
    exact lexeme_word letter token
  · rw [comment] at token
    cases token
  · rw [same] at token ⊢
    exact lexeme_mark token

/-! ## Tokens are the longest -/

/-- A piece is a token at least as long as a spelling, and of its kind if it is no longer. -/
def Covers (piece : Piece) (kind : Kind) (text : List Char) : Prop :=
  ∃ kind', piece.form = .token kind' ∧ text.length ≤ piece.text.length ∧
    (text.length = piece.text.length → kind = kind')

/-- Characters that pass a test are within the run of such characters. -/
theorem prefix_takeWhile {p : Char → Bool} {whole : List Char} (all : ∀ c ∈ text, p c = true)
    (begins : text <+: whole) : text <+: whole.takeWhile p := by
  obtain ⟨rest, rfl⟩ := begins
  rw [List.takeWhile_append_of_pos all]
  exact List.prefix_append _ _

theorem covers_string {contents : List Char} (inside : '"' ∉ contents)
    (begins : '"' :: contents ++ ['"'] <+: '"' :: cs) :
    (string cs).Covers (.string (String.ofList contents)) ('"' :: contents ++ ['"']) := by
  obtain ⟨rest, whole⟩ := begins
  obtain rfl : contents ++ '"' :: rest = cs := by simpa using whole
  have passes : ∀ c ∈ contents, (c != '"') = true := by
    intro c member
    simpa using ne_of_mem_of_not_mem member inside
  -- The next quote is the one that closes the string.
  have taken : (contents ++ '"' :: rest).takeWhile (· != '"') = contents := by
    rw [List.takeWhile_append_of_pos passes, List.takeWhile_cons_of_neg (by simp),
      List.append_nil]
  have left : (contents ++ '"' :: rest).dropWhile (· != '"') = '"' :: rest := by
    rw [List.dropWhile_append_of_pos passes, List.dropWhile_cons_of_neg (by simp)]
  unfold string
  rw [taken, left]
  exact ⟨_, rfl, Nat.le_refl _, fun _ => rfl⟩

theorem covers_whole {ds whole : List Char} (digits : Digits ds) (begins : ds <+: whole) :
    (number whole).Covers (.number (numberValue ds [])) ds := by
  have within := prefix_takeWhile digits.all_isDigit begins
  by_cases long : ∃ d rest, whole.dropWhile Char.isDigit = '.' :: d :: rest ∧ d.isDigit = true
  · obtain ⟨d, rest, behind, decimal⟩ := long
    rw [number_long behind decimal]
    -- With a point and a digit behind, the piece is longer than all its digits before the point.
    have shorter := within.length_le
    refine ⟨_, rfl, ?_, fun same => ?_⟩
    · simp only [List.length_append, List.length_cons]
      omega
    · simp only [List.length_append, List.length_cons] at same
      omega
  · rw [number_short fun d rest behind =>
      Bool.eq_false_iff.mpr fun decimal => long ⟨d, rest, behind, decimal⟩]
    refine ⟨_, rfl, within.length_le, fun same => ?_⟩
    rw [← within.eq_of_length same]

theorem covers_decimal {ds decimals whole : List Char} (digits : Digits ds)
    (more : Digits decimals) (begins : ds ++ '.' :: decimals <+: whole) :
    (number whole).Covers (.number (numberValue ds decimals)) (ds ++ '.' :: decimals) := by
  obtain ⟨rest, rfl⟩ := begins
  obtain ⟨d, others, rfl⟩ := List.exists_cons_of_ne_nil more.nonempty
  have taken : (ds ++ '.' :: d :: others ++ rest).takeWhile Char.isDigit = ds := by
    rw [List.append_assoc, List.takeWhile_append_of_pos digits.all_isDigit, List.cons_append,
      List.takeWhile_cons_of_neg (by decide), List.append_nil]
  have left : (ds ++ '.' :: d :: others ++ rest).dropWhile Char.isDigit
      = '.' :: d :: (others ++ rest) := by
    rw [List.append_assoc, List.dropWhile_append_of_pos digits.all_isDigit, List.cons_append,
      List.dropWhile_cons_of_neg (by decide), List.cons_append]
  have within := prefix_takeWhile more.all_isDigit (List.prefix_append (d :: others) rest)
  rw [number_long left (more.all_isDigit d List.mem_cons_self), taken]
  have shorter := within.length_le
  refine ⟨_, rfl, ?_, fun same => ?_⟩
  · simp only [List.length_append, List.length_cons, List.cons_append] at shorter ⊢
    omega
  · simp only [List.length_append, List.length_cons] at same
    have all := within.eq_of_length (by simp only [List.length_cons, List.cons_append]; omega)
    rw [← List.cons_append, ← all]

theorem covers_word {whole : List Char} (continues : ∀ d ∈ text, continuesWord d = true)
    (begins : text <+: whole) (spelled : kind =
      match Keyword.ofSpelling? (String.ofList text) with
      | some word => .keyword word
      | none => .identifier) : (word whole).Covers kind text := by
  have within := prefix_takeWhile continues begins
  have same (equal : text.length = (whole.takeWhile continuesWord).length) :=
    within.eq_of_length equal
  unfold word
  dsimp only
  split
  · next w found =>
    refine ⟨_, rfl, within.length_le, fun equal => ?_⟩
    rw [spelled, same equal, found]
  · next found =>
    refine ⟨_, rfl, within.length_le, fun equal => ?_⟩
    rw [spelled, same equal, found]

theorem covers_mark {m : Punctuation} (begins : m.spelling.toList <+: c :: cs) :
    (mark c cs).Covers (.punctuation m) m.spelling.toList := by
  obtain ⟨x, ⟨isMark, spelled⟩ | ⟨single, isMark, becomes, spelled⟩⟩ := spelling_mark_cases m
  · rw [spelled] at begins ⊢
    obtain rfl : x = c := by simpa using begins
    by_cases double : ∃ m' rest, m.withEqual? = some m' ∧ cs = '=' :: rest
    · obtain ⟨m', rest, becomes, rfl⟩ := double
      rw [mark_double isMark becomes]
      exact ⟨_, rfl, by simp, by simp⟩
    · rw [mark_single isMark fun m' rest becomes same => double ⟨m', rest, becomes, same⟩]
      exact ⟨_, rfl, Nat.le_refl _, fun _ => rfl⟩
  · rw [spelled] at begins ⊢
    obtain ⟨rest, whole⟩ := begins
    obtain ⟨rfl, rfl⟩ : x = c ∧ '=' :: rest = cs := by simpa using whole
    rw [mark_double isMark becomes]
    exact ⟨_, rfl, Nat.le_refl _, fun _ => rfl⟩

theorem covers_keyword {word : Keyword} (begins : word.spelling.toList <+: c :: cs) :
    (first c cs).Covers (.keyword word) word.spelling.toList := by
  obtain ⟨x, xs, spelled, letter, continues⟩ := spelling_keyword_cases word
  obtain rfl : x = c := (List.cons_prefix_cons.mp (spelled ▸ begins)).1
  rw [first_letter letter]
  refine covers_word (by rwa [spelled]) begins ?_
  rw [(ofSpelling?_eq_some_iff _ word).mpr rfl]

theorem covers_identifier {xs : List Char} (letter : IsLetter c)
    (continues : ∀ d ∈ xs, IsLetter d ∨ IsDigit d)
    (free : ∀ word : Keyword, word.spelling.toList ≠ c :: xs) (begins : c :: xs <+: c :: cs) :
    (first c cs).Covers .identifier (c :: xs) := by
  rw [first_letter ((isLetter_iff c).mpr letter)]
  refine covers_word (fun d member => (continuesWord_iff d).mpr ?_) begins ?_
  · rcases List.mem_cons.mp member with rfl | later
    · exact .inl letter
    · exact continues d later
  · cases spelled : Keyword.ofSpelling? (String.ofList (c :: xs)) with
    | none => rfl
    | some word => exact absurd ((ofSpelling?_eq_some_iff _ word).mp spelled) (free word)

/-- **The first piece is at least as long as every token** that begins a text, where that is no
comment. -/
theorem covers_first (lexeme : Lexeme kind text) (begins : text <+: c :: cs)
    (noComment : ¬BeginsComment (c :: cs)) : (first c cs).Covers kind text := by
  -- The rule of the token and the form of the piece go by the same character.
  cases lexeme with
  | mark m =>
    obtain ⟨x, ⟨isMark, spelled⟩ | ⟨single, isMark, -, spelled⟩⟩ := spelling_mark_cases m <;>
    · obtain rfl : x = c := (List.cons_prefix_cons.mp (spelled ▸ begins)).1
      obtain ⟨blank, quote, digit, letter⟩ := only_mark isMark
      rw [first_eq_mark (by simp [blank]) quote (by simp [digit]) (by simp [letter])
        (noComment ∘ beginsComment_iff.mpr)]
      exact covers_mark begins
  | string inside =>
    obtain rfl : '"' = c := (List.cons_prefix_cons.mp begins).1
    exact covers_string inside begins
  | whole digits =>
    obtain ⟨d, ds, rfl⟩ := List.exists_cons_of_ne_nil digits.nonempty
    obtain rfl : d = c := (List.cons_prefix_cons.mp begins).1
    rw [first_digit (digits.all_isDigit d List.mem_cons_self)]
    exact covers_whole digits begins
  | decimal digits more =>
    obtain ⟨d, ds, rfl⟩ := List.exists_cons_of_ne_nil digits.nonempty
    obtain rfl : d = c := (List.cons_prefix_cons.mp begins).1
    rw [first_digit (digits.all_isDigit d List.mem_cons_self)]
    exact covers_decimal digits more begins
  | keyword word => exact covers_keyword begins
  | identifier letter continues free =>
    obtain rfl := (List.cons_prefix_cons.mp begins).1
    exact covers_identifier letter continues free begins

theorem not_beginsComment_of_token (token : (first c cs).form = .token kind) :
    ¬BeginsComment (c :: cs) := by
  intro comment
  rw [first_comment comment] at token
  cases token

/-- **A token is the longest one.** -/
theorem longest_first (token : (first c cs).form = .token kind) :
    Longest kind (first c cs).text (c :: cs) where
  lexeme := lexeme_first token
  begins := first_prefix c cs
  longest kind' text' lexeme begins := by
    obtain ⟨kind'', token', longer, same⟩ :=
      covers_first lexeme begins (not_beginsComment_of_token token)
    rw [token] at token'
    cases token'
    exact ⟨longer, same⟩

theorem form_first_token_iff :
    (∃ kind, (first c cs).form = .token kind) ↔
      BeginsToken (c :: cs) ∧ ¬BeginsComment (c :: cs) := by
  constructor
  · rintro ⟨kind, token⟩
    exact ⟨⟨kind, _, lexeme_first token, first_prefix c cs⟩, not_beginsComment_of_token token⟩
  · rintro ⟨⟨kind, text, lexeme, begins⟩, noComment⟩
    obtain ⟨kind', token, -⟩ := covers_first lexeme begins noComment
    exact ⟨kind', token⟩

theorem beginsBlank_iff : BeginsBlank (c :: cs) ↔ isSeparator c = true := by
  simp [BeginsBlank, isSeparator, or_assoc, or_left_comm]

/-! ## What is read at a place -/

/-- A string without a quote behind it is not closed. -/
theorem string_unclosed (open_ : '"' ∉ cs) : (string cs).form = .unclosed := by
  have nothing : cs.dropWhile (· != '"') = [] := by
    have all : ∀ c ∈ cs, (c != '"') = true := fun c member => by
      simpa using ne_of_mem_of_not_mem member open_
    rw [← List.append_nil cs, List.dropWhile_append_of_pos all]
    rfl
  unfold string
  rw [nothing]

/-- Each piece has one of five forms. -/
theorem form_first_cases (c : Char) (cs : List Char) :
    (BeginsBlank (c :: cs) ∧ (first c cs).form = .blank) ∨
    (BeginsComment (c :: cs) ∧ (first c cs).form = .comment) ∨
    (∃ kind, (first c cs).form = .token kind) ∨
    ((c = '"' ∧ '"' ∉ cs) ∧ (first c cs).form = .unclosed) ∨
    (c ≠ '"' ∧ (first c cs).form = .stray c) := by
  rcases first_cases c cs with ⟨blank, same⟩ | ⟨rfl, same⟩ | ⟨-, same⟩ | ⟨-, same⟩ | comment |
    ⟨-, quote, -, same⟩
  · exact .inl ⟨beginsBlank_iff.mpr blank, by rw [same]⟩
  · by_cases closed : '"' ∈ cs
    · obtain ⟨contents, rest, rfl, inside⟩ := List.eq_append_cons_of_mem closed
      have begins : '"' :: contents ++ ['"'] <+: '"' :: (contents ++ '"' :: rest) := by simp
      obtain ⟨kind, token, -⟩ := covers_string inside begins
      exact .inr (.inr (.inl ⟨kind, same ▸ token⟩))
    · exact .inr (.inr (.inr (.inl ⟨⟨rfl, closed⟩, same ▸ string_unclosed closed⟩)))
  · exact .inr (.inr (.inl (same ▸ exists_form_number (c :: cs))))
  · exact .inr (.inr (.inl (same ▸ exists_form_word (c :: cs))))
  · exact .inr (.inl comment)
  · rw [same]
    cases isMark : Punctuation.ofChar? c with
    | none =>
      refine .inr (.inr (.inr (.inr ⟨quote, ?_⟩)))
      unfold mark
      rw [isMark]
    | some single =>
      refine .inr (.inr (.inl ?_))
      unfold mark
      rw [isMark]
      dsimp only
      split <;> exact ⟨_, rfl⟩

theorem form_first_blank_iff : (first c cs).form = .blank ↔ BeginsBlank (c :: cs) := by
  constructor
  · intro blank
    rcases form_first_cases c cs with here | other | ⟨kind, other⟩ | other | other
    · exact here.1
    all_goals simp [blank] at other
  · intro blank
    rw [first_blank (beginsBlank_iff.mp blank)]

theorem form_first_comment_iff : (first c cs).form = .comment ↔ BeginsComment (c :: cs) := by
  constructor
  · intro comment
    rcases form_first_cases c cs with other | here | ⟨kind, other⟩ | other | other
    · simp [comment] at other
    · exact here.1
    all_goals simp [comment] at other
  · exact first_comment

theorem form_first_unclosed_iff : (first c cs).form = .unclosed ↔ c = '"' ∧ '"' ∉ cs := by
  constructor
  · intro unclosed
    rcases form_first_cases c cs with other | other | ⟨kind, other⟩ | here | other
    · simp [unclosed] at other
    · simp [unclosed] at other
    · simp [unclosed] at other
    · exact here.1
    · simp [unclosed] at other
  · rintro ⟨rfl, open_⟩
    exact string_unclosed open_

theorem form_first_stray_iff {x : Char} :
    (first c cs).form = .stray x ↔ c = x ∧ c ≠ '"' ∧ ¬BeginsToken (c :: cs) ∧
      ¬BeginsComment (c :: cs) ∧ ¬BeginsBlank (c :: cs) := by
  constructor
  · intro stray
    have noComment : ¬BeginsComment (c :: cs) := by simp [← form_first_comment_iff, stray]
    have noBlank : ¬BeginsBlank (c :: cs) := by simp [← form_first_blank_iff, stray]
    have noToken : ¬BeginsToken (c :: cs) := fun token => by
      obtain ⟨kind, form⟩ := form_first_token_iff.mpr ⟨token, noComment⟩
      simp [stray] at form
    rcases form_first_cases c cs with other | other | ⟨kind, other⟩ | other | ⟨quote, here⟩
    · exact absurd other.1 noBlank
    · exact absurd other.1 noComment
    · simp [stray] at other
    · simp [stray] at other
    · simp only [here, Form.stray.injEq] at stray
      exact ⟨stray, quote, noToken, noComment, noBlank⟩
  · rintro ⟨rfl, quote, noToken, noComment, noBlank⟩
    rcases form_first_cases c cs with other | other | token | other | here
    · exact absurd other.1 noBlank
    · exact absurd other.1 noComment
    · exact absurd (form_first_token_iff.mp token).1 noToken
    · exact absurd other.1.1 quote
    · exact here.2

/-- What a piece gives, apart from its line. -/
def given? (piece : Piece) : Option (Except LexicalError.Cause Kind) :=
  match piece.form with
  | .blank | .comment => none
  | .token kind => some (.ok kind)
  | .stray c => some (.error (.unexpected c))
  | .unclosed => some (.error .unterminated)

end Piece

/-- What is right to give for a text where `whole` is left to be read: a token if it is the longest
one and no comment begins there, an error for a character with which nothing begins and for a quote
that is the last one, and nothing for whitespace and comments. -/
structure Reads (whole text : List Char) (given : Option (Except LexicalError.Cause Kind)) :
    Prop where
  token (kind : Kind) :
    given = some (.ok kind) ↔ Longest kind text whole ∧ ¬BeginsComment whole
  unexpected (c : Char) :
    given = some (.error (.unexpected c)) ↔ whole.head? = some c ∧ c ≠ '"' ∧
      ¬BeginsToken whole ∧ ¬BeginsComment whole ∧ ¬BeginsBlank whole
  unterminated :
    given = some (.error .unterminated) ↔ ∃ contents, whole = '"' :: contents ∧ '"' ∉ contents
  nothing : given = none ↔ BeginsBlank whole ∨ BeginsComment whole

/-- **What a piece gives is right.** -/
theorem Piece.reads_first (c : Char) (cs : List Char) :
    Reads (c :: cs) (first c cs).text (first c cs).given? where
  token kind := by
    have form : (first c cs).given? = some (.ok kind) ↔ (first c cs).form = .token kind := by
      unfold given?
      cases (first c cs).form <;> simp
    rw [form]
    constructor
    · intro token
      exact ⟨longest_first token, not_beginsComment_of_token token⟩
    · rintro ⟨longest, noComment⟩
      obtain ⟨kind', token, -, same⟩ := covers_first longest.lexeme longest.begins noComment
      rw [token, same rfl]
  unexpected x := by
    have form : (first c cs).given? = some (.error (.unexpected x)) ↔
        (first c cs).form = .stray x := by
      unfold given?
      cases (first c cs).form <;> simp
    rw [form, form_first_stray_iff, List.head?_cons, Option.some_inj]
    exact and_congr_right fun same => by rw [same]
  unterminated := by
    have form : (first c cs).given? = some (.error .unterminated) ↔
        (first c cs).form = .unclosed := by
      unfold given?
      cases (first c cs).form <;> simp
    rw [form, form_first_unclosed_iff]
    simp [and_assoc]
  nothing := by
    have form : (first c cs).given? = none ↔
        (first c cs).form = .blank ∨ (first c cs).form = .comment := by
      unfold given?
      cases (first c cs).form <;> simp
    rw [form, form_first_blank_iff, form_first_comment_iff]

end Lox
