import ProofProse.Proofs.Lexeme
import ProofProse.Proofs.Prepared

/-! # Joints

The lexer reads two texts that are put together as it reads them apart, unless what is pending at
the end of the first goes on with the front of the second. What is pending is told by the end of the
first text: a backslash if it ends in an odd number of them, and else something that neither a blank
nor a character which structures a source can go on with (`Lexer.after_backslashes`); behind a
control word it is the word (`Lexer.EndsInWord.after_eq`).

So a brace, a dollar sign or a command is read in the same way behind every text that does not
escape it (`structure_is_read_alone`), and a blank ends a control word
(`Lexer.EndsInWord.tokenize_append_blank`). -/

namespace ProofProse

namespace Lexer

open Source (backslashes backslashes_concat)
open Text (isBlank)

variable {c : Char} {cs rest front blanks : List Char} {mode : Mode}

/-! ### What is pending -/

/-- The characters that structure a source. -/
def structural : List Char := '\\' :: signs.map Prod.fst

/-- The blanks between and inside of lines. -/
def lineBlanks : List Char := [' ', '\t', '\n']

/-- Nothing is pending that a structural character or a blank could go on with. -/
def IsSettled : Mode → Prop
  | .escape => False
  | .quote mark => isQuote mark = true
  | _ => True

/-- The tokens that a blank completes. -/
def gapTokens : Mode → List Token
  | .word letters => flush (.word letters)
  | .blanks => []
  | mode => flush mode ++ [.space]

/-- The text ends in a control word: letters behind an odd number of backslashes. -/
def EndsInWord (cs : List Char) : Prop :=
  ∃ front letters, cs = front ++ letters ∧ backslashes front % 2 = 1 ∧ letters ≠ [] ∧
    ∀ c ∈ letters, isNameLetter c = true

theorem not_endsInWord_nil : ¬EndsInWord [] := by
  rintro ⟨front, letters, hcs, -, hne, -⟩
  exact hne (List.append_eq_nil_iff.mp hcs.symm).2

/-- A letter goes on with a word, or begins one behind a backslash that escapes. -/
theorem endsInWord_concat : EndsInWord (cs ++ [c]) ↔
    isNameLetter c = true ∧ (backslashes cs % 2 = 1 ∨ EndsInWord cs) := by
  constructor
  · rintro ⟨front, letters, hcs, hodd, hne, hletters⟩
    obtain ⟨letters, d, rfl⟩ := List.eq_nil_or_concat letters |>.resolve_left hne
    rw [List.concat_eq_append, ← List.append_assoc] at hcs
    obtain ⟨rfl, hd⟩ := List.append_inj' hcs rfl
    obtain ⟨rfl, -⟩ := List.cons.inj hd
    rw [List.concat_eq_append, List.forall_mem_append] at hletters
    refine ⟨hletters.2 c (List.mem_singleton_self c), ?_⟩
    by_cases hnil : letters = []
    · exact .inl (by rwa [hnil, List.append_nil])
    · exact .inr ⟨front, letters, rfl, hodd, hnil, hletters.1⟩
  · rintro ⟨hc, hodd | ⟨front, letters, rfl, hodd, -, hletters⟩⟩
    · exact ⟨cs, [c], rfl, hodd, List.cons_ne_nil _ _, List.forall_mem_singleton.mpr hc⟩
    · refine ⟨front, letters ++ [c], List.append_assoc _ _ _, hodd, by simp, ?_⟩
      exact List.forall_mem_append.mpr ⟨hletters, List.forall_mem_singleton.mpr hc⟩

theorem EndsInWord.backslashes_eq (h : EndsInWord cs) : backslashes cs = 0 := by
  obtain rfl | ⟨cs, c, rfl⟩ := List.eq_nil_or_concat cs
  · exact absurd h not_endsInWord_nil
  · rw [List.concat_eq_append] at h ⊢
    have hc : c ≠ '\\' := by
      rintro rfl
      exact Bool.false_ne_true (endsInWord_concat.mp h).1
    rw [backslashes_concat, if_neg hc]

theorem classes_of_ending (h : c ∈ structural ++ lineBlanks) : isNameLetter c = false ∧
    isParameterDigit c = false ∧ c ≠ '#' ∧ c ≠ '-' ∧ isQuote c = false := by
  have hall : ((structural ++ lineBlanks).all fun c => !isNameLetter c && !isParameterDigit c &&
      c != '#' && c != '-' && !isQuote c) = true := by decide
  simpa [and_assoc] using List.all_eq_true.mp hall c h

theorem restart_eq_ite (mode : Mode) (c : Char) : restart mode c =
    if isBlank c then (.blanks, flush mode ++ [.space]) else restart mode c := by
  split
  · next hc =>
    unfold restart
    rw [begin_of_isBlank hc]
  · rfl

/-- A settled mode does not go on with what is no letter, digit, hash sign, hyphen or quotation mark,
but for blanks behind blanks. -/
theorem step_of_classes (hmode : IsSettled mode) (h : isNameLetter c = false ∧
    isParameterDigit c = false ∧ c ≠ '#' ∧ c ≠ '-' ∧ isQuote c = false) :
    step mode c = if isBlank c then (.blanks, gapTokens mode) else restart mode c := by
  obtain ⟨hletter, hdigit, hhash, hhyphen, hquote⟩ := h
  have hrestart (hstep : step mode c = restart mode c)
      (hgap : gapTokens mode = flush mode ++ [.space]) :
      step mode c = if isBlank c then (.blanks, gapTokens mode) else restart mode c := by
    rw [hstep, hgap]
    exact restart_eq_ite mode c
  cases mode with
  | text => exact hrestart rfl rfl
  | escape => exact hmode.elim
  | word letters => simp [step, gapTokens, hletter]
  | blanks => rfl
  | hash => exact hrestart (by simp [step, hdigit, hhash]) rfl
  | hashes => exact hrestart (by simp [step, hdigit, hhash]) rfl
  | hyphen => exact hrestart (by simp [step, hhyphen]) rfl
  | hyphens => exact hrestart (by simp [step, hhyphen]) rfl
  | quote mark =>
    have hmark : isQuote mark = true := hmode
    have hne : c ≠ mark := by
      rintro rfl
      exact Bool.false_ne_true (hquote.symm.trans hmark)
    exact hrestart (by simp [step, hne]) rfl

theorem step_of_ending (hmode : IsSettled mode) (h : c ∈ structural ++ lineBlanks) :
    step mode c = if isBlank c then (.blanks, gapTokens mode) else restart mode c :=
  step_of_classes hmode (classes_of_ending h)

theorem step_of_structural (hmode : IsSettled mode) (h : c ∈ structural) :
    step mode c = restart mode c := by
  have hall : (structural.all fun c => !isBlank c) = true := by decide
  have hc : isBlank c = false := by simpa using List.all_eq_true.mp hall c h
  rw [step_of_ending hmode (List.mem_append_left _ h), hc, if_neg Bool.false_ne_true]

theorem isBlank_of_mem_lineBlanks (h : c ∈ lineBlanks) : isBlank c = true := by
  have hall : lineBlanks.all isBlank = true := by decide
  exact List.all_eq_true.mp hall c h

theorem step_of_mem_lineBlanks (hmode : IsSettled mode) (h : c ∈ lineBlanks) :
    step mode c = (.blanks, gapTokens mode) := by
  rw [step_of_ending hmode (List.mem_append_right _ h), isBlank_of_mem_lineBlanks h, if_pos rfl]

/-- What is pending is settled behind every character but a backslash that escapes. -/
theorem isSettled_begin (h : c ≠ '\\') : IsSettled (begin c).1 := by
  unfold begin
  split
  case h_1 => exact absurd rfl h
  case h_11 => rfl
  case h_12 => rfl
  case h_13 => split <;> trivial
  all_goals trivial

theorem isSettled_ite {p : Prop} [Decidable p] {r r' : Mode × List Token} (h : IsSettled r.1)
    (h' : IsSettled r'.1) : IsSettled (if p then r else r').1 := by
  split
  · exact h
  · exact h'

theorem isSettled_step (h : mode = .escape ∨ c ≠ '\\') : IsSettled (step mode c).1 := by
  have hbegin : mode ≠ .escape → IsSettled (begin c).1 :=
    fun hmode => isSettled_begin (h.resolve_left hmode)
  cases mode with
  | text => exact hbegin nofun
  | escape => exact isSettled_ite trivial trivial
  | word letters => exact isSettled_ite trivial (isSettled_ite trivial (hbegin nofun))
  | blanks => exact isSettled_ite trivial (hbegin nofun)
  | hash => exact isSettled_ite trivial (isSettled_ite trivial (hbegin nofun))
  | hashes => exact isSettled_ite trivial (isSettled_ite trivial (hbegin nofun))
  | hyphen => exact isSettled_ite trivial (hbegin nofun)
  | hyphens => exact isSettled_ite trivial (hbegin nofun)
  | quote mark => exact isSettled_ite trivial (hbegin nofun)

/-- **What is pending behind a text**: the backslash that it ends in if their number is odd, and
something settled if it is even. -/
theorem after_backslashes (cs : List Char) :
    (backslashes cs % 2 = 1 → machine.after .text cs = .escape) ∧
      (backslashes cs % 2 = 0 → IsSettled (machine.after .text cs)) := by
  induction cs using List.reverseRecOn with
  | nil => exact ⟨nofun, fun _ => trivial⟩
  | append_singleton cs c ih =>
    obtain ⟨hodd, heven⟩ := ih
    rw [backslashes_concat, machine.after_append]
    show (_ → (step (machine.after .text cs) c).1 = .escape) ∧
      (_ → IsSettled (step (machine.after .text cs) c).1)
    by_cases hc : c = '\\'
    · rw [if_pos hc]
      refine ⟨fun h => ?_, fun h => isSettled_step (.inl (hodd (by omega)))⟩
      have hsettled := heven (by omega)
      rw [step_of_structural hsettled (by rw [hc]; decide), hc]
      rfl
    · rw [if_neg hc]
      exact ⟨nofun, fun _ => isSettled_step (.inr hc)⟩

theorem after_letters : ∀ (letters before : List Char), (∀ c ∈ letters, isNameLetter c = true) →
    machine.after (.word before) letters = .word (letters.reverse ++ before)
  | [], _, _ => rfl
  | c :: letters, before, h => by
    obtain ⟨hc, hletters⟩ := List.forall_mem_cons.mp h
    have hstep : step (.word before) c = (.word (c :: before), []) := if_pos hc
    show machine.after (step (.word before) c).1 letters = _
    rw [hstep, after_letters letters _ hletters]
    simp

theorem EndsInWord.after_eq (h : EndsInWord cs) :
    ∃ letters, machine.after .text cs = .word letters := by
  obtain ⟨front, letters, rfl, hodd, hne, hletters⟩ := h
  obtain ⟨c, letters, rfl⟩ := List.exists_cons_of_ne_nil hne
  obtain ⟨hc, hletters⟩ := List.forall_mem_cons.mp hletters
  have hstep : step .escape c = (.word [c], []) := if_pos hc
  rw [machine.after_append, (after_backslashes front).1 hodd]
  refine ⟨letters.reverse ++ [c], ?_⟩
  show machine.after (step .escape c).1 letters = _
  rw [hstep]
  exact after_letters letters [c] hletters

/-! ### Structural characters -/

theorem output_structural (hmode : IsSettled mode) (h : cs.head?.all structural.contains = true) :
    machine.output mode cs = flush mode ++ machine.output .text cs := by
  refine output_pending fun c hc => step_of_structural hmode ?_
  rw [hc] at h
  exact List.contains_iff_mem.mp h

theorem tokenize_append (cs rest : List Char) :
    tokenize (cs ++ rest) =
      machine.written .text cs ++ machine.output (machine.after .text cs) rest := by
  rw [tokenize_eq_output]
  exact machine.output_append cs rest .text

theorem tokenize_eq_written (cs : List Char) :
    tokenize cs = machine.written .text cs ++ flush (machine.after .text cs) := by
  rw [tokenize_eq_output]
  exact machine.output_eq cs .text

theorem tokenize_append_of_even (heven : backslashes cs % 2 = 0)
    (hrest : rest.head?.all structural.contains = true) :
    tokenize (cs ++ rest) = tokenize cs ++ tokenize rest := by
  have hsettled := (after_backslashes cs).2 heven
  rw [tokenize_append, output_structural hsettled hrest, tokenize_eq_written cs, List.append_assoc,
    tokenize_eq_output]

/-- An escaped character makes a control symbol with the backslash, which alone is a character. -/
theorem tokenize_append_of_odd (hodd : backslashes cs % 2 = 1) (hc : c ∈ structural) :
    tokenize (cs ++ c :: rest) ≠ tokenize cs ++ tokenize (c :: rest) := by
  have hletter := (classes_of_ending (List.mem_append_left _ hc)).1
  have hstep : step .escape c = (.text, [.control (symbolName c)]) :=
    if_neg (by rw [hletter]; exact Bool.false_ne_true)
  rw [tokenize_append, tokenize_eq_written cs, (after_backslashes cs).1 hodd, output_cons, hstep,
    List.append_assoc]
  intro heq
  cases (List.cons.inj (List.append_cancel_left heq)).1

/-! ### Blanks -/

theorem output_lineBlank (hmode : IsSettled mode) (h : c ∈ lineBlanks) :
    machine.output mode (c :: cs) = gapTokens mode ++ machine.output .blanks cs := by
  rw [output_cons, step_of_mem_lineBlanks hmode h]

theorem output_blanks_append (h : ∀ c ∈ blanks, isBlank c = true) :
    machine.output .blanks (blanks ++ cs) = machine.output .blanks cs := by
  rw [output_blanks, List.dropWhile_append_of_pos h, output_blanks]

/-- **A blank ends a control word**, which takes the blanks behind it with it. -/
theorem EndsInWord.tokenize_append_blank (h : EndsInWord cs) (hc : c ∈ lineBlanks) :
    tokenize (cs ++ c :: rest) = tokenize cs ++ tokenize (rest.dropWhile isBlank) := by
  obtain ⟨letters, hafter⟩ := h.after_eq
  have hsettled : IsSettled (.word letters) := trivial
  rw [tokenize_append, tokenize_eq_written cs, hafter, output_lineBlank hsettled hc, output_blanks,
    List.append_assoc, tokenize_eq_output]
  rfl

end Lexer

open Lexer Source

/-- **Structure is read alone.** A text that begins with a backslash, a brace or another structural
character is read behind another text as it is read alone if that text does not end in an odd number
of backslashes, and only then; so are the command, the brace or the sign that it begins with. -/
theorem structure_is_read_alone (a b : List Char) (hb : b.head?.all structural.contains = true) :
    (tokenize (a ++ b) = tokenize a ++ tokenize b ↔ b = [] ∨ backslashes a % 2 = 0) ∧
      ∀ t rest, Lexeme b t rest → backslashes a % 2 = 0 →
        tokenize (a ++ b) = tokenize a ++ t :: tokenize rest := by
  refine ⟨⟨fun h => ?_, ?_⟩, fun t rest hlexeme ha => ?_⟩
  · cases b with
    | nil => exact .inl rfl
    | cons c b =>
      refine .inr (Nat.mod_two_ne_one.mp fun hodd => ?_)
      exact tokenize_append_of_odd hodd (List.contains_iff_mem.mp hb) h
  · rintro (rfl | ha)
    · rw [List.append_nil, show tokenize [] = [] from rfl, List.append_nil]
    · exact tokenize_append_of_even ha hb
  · rw [tokenize_append_of_even ha hb, (Lexes.cons hlexeme (tokenize_eq_iff.mp rfl)).tokenize_eq]

/-- A command behind a line break, and behind a hyphen and a quotation mark that a second one would
go on with. -/
theorem command_behind_a_line_break :
    "\\begin\x7bproof\x7d".toList.head?.all structural.contains = true ∧
      Lexeme "\\begin\x7bproof\x7d".toList (.control "begin") "\x7bproof\x7d".toList ∧
      backslashes "a -`\\\\".toList % 2 = 0 ∧
      tokenize ("a -`\\\\".toList ++ "\\begin\x7bproof\x7d".toList) =
        tokenize "a -`\\\\".toList ++ .control "begin" :: tokenize "\x7bproof\x7d".toList := by
  have hb : "\\begin\x7bproof\x7d".toList.head?.all structural.contains = true := by decide
  have hlexeme : Lexeme "\\begin\x7bproof\x7d".toList (.control "begin") "\x7bproof\x7d".toList :=
    @Lexeme.word "begin".toList "\x7bproof\x7d".toList (by decide)
      (List.all_eq_true.mp (by decide)) (by decide)
  have heven : backslashes "a -`\\\\".toList % 2 = 0 := by decide
  exact ⟨hb, hlexeme, heven, (structure_is_read_alone _ _ hb).2 _ _ hlexeme heven⟩

end ProofProse
