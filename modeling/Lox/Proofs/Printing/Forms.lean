import Mathlib
import Lox.Syntax.Printer

/-!
# Nested forms

What stands in parentheses is read back without knowing what it means: a word ends where a space or a
parenthesis stands, and a list of parts where a closing parenthesis stands instead of a space. So no
form is a proper beginning of another one followed by such a character. The induction is on both
forms at once, with what follows them kept along (`Form.chars_inj`).
-/

set_option autoImplicit false

namespace Lox

/-- A word, or a head with parts between parentheses. -/
inductive Form where
  | word (text : String)
  | node (head : String) (parts : List Form)

namespace Form

/-- The characters that no word contains. -/
def isDelimiter (c : Char) : Bool :=
  c == ' ' || c == '(' || c == ')'

/-- A text of one piece. -/
def Solid (text : String) : Prop :=
  text.toList.all (fun c => !isDelimiter c) = true

theorem solid_iff {text : String} : Solid text ↔ ∀ c ∈ text.toList, isDelimiter c = false := by
  simp [Solid]

mutual

/-- The characters of a form. -/
def chars : Form → List Char
  | word text => text.toList
  | node head parts => '(' :: (head.toList ++ charsAll parts)

/-- The characters of the parts and the closing parenthesis behind them. -/
def charsAll : List Form → List Char
  | [] => [')']
  | part :: parts => ' ' :: (part.chars ++ charsAll parts)

end

mutual

/-- Words and heads are of one piece, and no word is empty. -/
def Sound : Form → Prop
  | word text => text.toList ≠ [] ∧ Solid text
  | node head parts => Solid head ∧ AllSound parts

/-- All parts are sound. -/
def AllSound : List Form → Prop
  | [] => True
  | part :: parts => part.Sound ∧ AllSound parts

end

/-- What may follow a form inside of another one, or at the end. -/
def Stops (rest : List Char) : Prop :=
  ∀ c ∈ rest.head?, isDelimiter c = true

theorem stops_nil : Stops [] :=
  nofun

theorem stops_charsAll (parts : List Form) (rest : List Char) : Stops (charsAll parts ++ rest) := by
  cases parts <;> rintro c ⟨⟩ <;> rfl

/-- A text of one piece ends at the first character that stops it. -/
theorem takeWhile_solid {text : String} {rest : List Char} (solid : Solid text)
    (stops : Stops rest) :
    (text.toList ++ rest).takeWhile (fun c => !isDelimiter c) = text.toList := by
  rw [List.takeWhile_append_of_pos (List.all_eq_true.mp solid)]
  cases rest with
  | nil => simp
  | cons c cs => simp [stops c rfl]

theorem solid_inj {a b : String} {rest rest' : List Char} (ha : Solid a) (hb : Solid b)
    (stops : Stops rest) (stops' : Stops rest') (same : a.toList ++ rest = b.toList ++ rest') :
    a = b ∧ rest = rest' := by
  have begins : a.toList = b.toList := by
    rw [← takeWhile_solid ha stops, same, takeWhile_solid hb stops']
  rw [begins] at same
  exact ⟨String.toList_inj.mp begins, List.append_cancel_left same⟩

/-- A word does not begin with a parenthesis. -/
theorem word_ne_node {text : String} {rest rest' : List Char} (some : text.toList ≠ [])
    (solid : Solid text) : text.toList ++ rest ≠ '(' :: rest' := by
  intro same
  cases chars : text.toList with
  | nil => exact some chars
  | cons c cs =>
    rw [chars, List.cons_append, List.cons.injEq] at same
    have opening := solid_iff.mp solid c (chars ▸ List.mem_cons_self)
    rw [same.1] at opening
    exact absurd opening (by decide)

mutual

/-- **A form is read back from its characters**, and what follows it too. -/
theorem chars_inj (f g : Form) (hf : f.Sound) (hg : g.Sound) {rest rest' : List Char}
    (stops : Stops rest) (stops' : Stops rest') (same : f.chars ++ rest = g.chars ++ rest') :
    f = g ∧ rest = rest' := by
  match f, g, hf, hg with
  | word a, word b, hf, hg =>
    obtain ⟨rfl, rest⟩ := solid_inj hf.2 hg.2 stops stops' same
    exact ⟨rfl, rest⟩
  | word a, node _ _, hf, _ => exact (word_ne_node hf.1 hf.2 same).elim
  | node _ _, word b, _, hg => exact (word_ne_node hg.1 hg.2 same.symm).elim
  | node a fs, node b gs, hf, hg =>
    simp only [chars, List.cons_append, List.append_assoc, List.cons.injEq, true_and] at same
    obtain ⟨rfl, behind⟩ :=
      solid_inj hf.1 hg.1 (stops_charsAll fs rest) (stops_charsAll gs rest') same
    obtain ⟨rfl, rest⟩ := charsAll_inj fs gs hf.2 hg.2 behind
    exact ⟨rfl, rest⟩

theorem charsAll_inj (fs gs : List Form) (hf : AllSound fs) (hg : AllSound gs)
    {rest rest' : List Char} (same : charsAll fs ++ rest = charsAll gs ++ rest') :
    fs = gs ∧ rest = rest' := by
  match fs, gs, hf, hg with
  | [], [], _, _ => exact ⟨rfl, (List.cons.inj same).2⟩
  | [], _ :: _, _, _ => exact absurd (List.cons.inj same).1 (by decide)
  | _ :: _, [], _, _ => exact absurd (List.cons.inj same).1 (by decide)
  | f :: fs, g :: gs, hf, hg =>
    simp only [charsAll, List.cons_append, List.append_assoc, List.cons.injEq, true_and] at same
    obtain ⟨rfl, behind⟩ := chars_inj f g hf.1 hg.1 (stops_charsAll fs rest)
      (stops_charsAll gs rest') same
    obtain ⟨rfl, rest⟩ := charsAll_inj fs gs hf.2 hg.2 behind
    exact ⟨rfl, rest⟩

end

/-! ## The text of a form -/

/-- The text of a form. -/
def text (form : Form) : String :=
  String.ofList form.chars

theorem toList_join (parts : List Form) :
    (String.join (parts.map (" " ++ ·.text))).toList ++ [')'] = charsAll parts := by
  induction parts with
  | nil => rfl
  | cons part parts ih =>
    rw [charsAll, ← ih]
    simp [text, String.toList_join]

/-- A head and its parts as the printer writes them. -/
theorem form_text (head : String) (parts : List Form) :
    Expr.form head (parts.map text) = (node head parts).text := by
  apply String.toList_inj.mp
  rw [Expr.form, text, chars, ← toList_join]
  simp [Function.comp_def]

theorem text_inj {f g : Form} (hf : f.Sound) (hg : g.Sound) (same : f.text = g.text) : f = g := by
  have chars : f.chars ++ [] = g.chars ++ [] := by
    simpa [text, String.ofList_inj] using same
  exact (chars_inj f g hf hg stops_nil stops_nil chars).1

end Form

end Lox
