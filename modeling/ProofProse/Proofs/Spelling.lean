import ProofProse.Proofs.Call
import ProofProse.Proofs.Joint

/-! # Commands and groups in a source

What the front of a source is read as, where it is written plainly: a control word in front of
something that is no letter (`Lexer.tokenize_word`), characters that stand for themselves
(`Lexer.tokenize_chars`), and a group whose last brace is not escaped (`Lexer.tokenize_group`), which
makes the group of the tokens in it. A scan takes the text of such a group as an argument
(`Scan.argumentText_braced`). -/

namespace ProofProse

namespace Lexer

open Source (backslashes backslashes_concat)
open Text (isBlank)

variable {c : Char} {cs letters rest : List Char} {t : Token}

theorem tokenize_nil : tokenize [] = [] := rfl

theorem Lexeme.tokenize_eq (h : Lexeme cs t rest) : tokenize cs = t :: tokenize rest :=
  (Lexes.cons h (tokenize_eq_iff.mp rfl)).tokenize_eq

theorem tokenize_word (hne : letters ≠ []) (h : ∀ c ∈ letters, isNameLetter c = true)
    (hrest : rest.head?.any isNameLetter = false) :
    tokenize ('\\' :: (letters ++ rest)) =
      .control (String.ofList letters) :: tokenize (rest.dropWhile isBlank) :=
  (Lexeme.word hne h hrest).tokenize_eq

theorem tokenize_word_structural (hne : letters ≠ []) (h : ∀ c ∈ letters, isNameLetter c = true)
    (hrest : rest.head?.all structural.contains = true) :
    tokenize ('\\' :: (letters ++ rest)) = .control (String.ofList letters) :: tokenize rest := by
  cases rest with
  | nil => exact tokenize_word hne h rfl
  | cons c rest =>
    have hall : (structural.all fun c => !isNameLetter c && !isBlank c) = true := by decide
    have hclasses := List.all_eq_true.mp hall c (List.contains_iff_mem.mp hrest)
    obtain ⟨hletter, hblank⟩ : isNameLetter c = false ∧ isBlank c = false := by
      simpa using hclasses
    have hhead : (c :: rest).head?.any isNameLetter = false := hletter
    rw [tokenize_word hne h hhead, List.dropWhile_cons_of_neg (ne_true_of_eq_false hblank)]

theorem tokenize_sign (h : (c, t) ∈ signs) : tokenize (c :: rest) = t :: tokenize rest :=
  (Lexeme.sign h).tokenize_eq

theorem tokenize_plain (h : isPlain c = true) : tokenize (c :: rest) = .char c :: tokenize rest :=
  (Lexeme.plain h).tokenize_eq

theorem tokenize_chars (h : ∀ c ∈ cs, isPlain c = true) :
    tokenize (cs ++ rest) = cs.map .char ++ tokenize rest := by
  induction cs with
  | nil => rfl
  | cons c cs ih =>
    obtain ⟨hc, hcs⟩ := List.forall_mem_cons.mp h
    rw [List.cons_append, tokenize_plain hc, ih hcs]
    rfl

/-- A group is read on its own, if its content does not escape the brace that closes it. -/
theorem tokenize_group (heven : backslashes cs % 2 = 0) (rest : List Char) :
    tokenize ('\x7b' :: (cs ++ '\x7d' :: rest)) = braced (tokenize cs) ++ tokenize rest := by
  have hopen : ('\x7b', Token.openGroup) ∈ signs := by decide
  have hclose : ('\x7d', Token.closeGroup) ∈ signs := by decide
  have hstart : ('\x7d' :: rest).head?.all structural.contains = true := by
    show structural.contains '\x7d' = true
    decide
  rw [tokenize_sign hopen, tokenize_append_of_even heven hstart, tokenize_sign hclose,
    braced_append]

theorem tokenize_command (hne : letters ≠ []) (h : ∀ c ∈ letters, isNameLetter c = true)
    (heven : backslashes cs % 2 = 0) (rest : List Char) :
    tokenize ('\\' :: (letters ++ '\x7b' :: (cs ++ '\x7d' :: rest))) =
      .control (String.ofList letters) :: (braced (tokenize cs) ++ tokenize rest) := by
  rw [tokenize_word hne h (by rfl)]
  exact congrArg (_ :: ·) (tokenize_group heven rest)

theorem toNat_lt_of_isNameLetter (h : isNameLetter c = true) : c.toNat < 128 := by
  have hle : ∀ d : Char, c ≤ d → c.toNat ≤ d.toNat := fun d hd => UInt32.le_iff_toNat_le.mp hd
  simp only [isNameLetter, Text.isAsciiLetter, Bool.or_eq_true, Bool.and_eq_true, decide_eq_true_eq,
    beq_iff_eq] at h
  obtain (⟨-, h⟩ | ⟨-, h⟩) | rfl := h
  · exact Nat.lt_of_le_of_lt (hle _ h) (by decide)
  · exact Nat.lt_of_le_of_lt (hle _ h) (by decide)
  · decide

theorem isPlain_of_isNameLetter (h : isNameLetter c = true) : isPlain c = true := by
  have hall : ∀ n < 128, isNameLetter (Char.ofNat n) = true → isPlain (Char.ofNat n) = true := by
    decide
  have hascii := toNat_lt_of_isNameLetter h
  rw [← Char.ofNat_toNat c] at h ⊢
  exact hall _ hascii h

theorem backslashes_eq_zero (h : '\\' ∉ cs) : backslashes cs = 0 := by
  obtain rfl | ⟨front, c, rfl⟩ := List.eq_nil_or_concat cs
  · rfl
  · rw [List.concat_eq_append] at h ⊢
    have hc : c ≠ '\\' := fun heq => h (by rw [heq]; exact List.mem_append_right _ List.mem_cons_self)
    rw [backslashes_concat, if_neg hc]

end Lexer

theorem isGroup_of_standsInGroup {tokens : List Token} (h : ∀ t ∈ tokens, t.StandsInGroup) :
    IsGroup tokens where
  noEnd := (nested_of_standsInGroup h).2.1
  noMarks := (nested_of_standsInGroup h).2.2
  nested := (nested_of_standsInGroup h).1

theorem Scan.argumentText_braced {s : State} {content : List Token} (h : IsGroup content)
    (rest : List Token) :
    argumentText (s.facing (braced content ++ rest)) =
      .ok (plainText content) (s.past (braced content).length rest) := by
  unfold argumentText
  rw [bind_ok (argument_braced h)]
  rfl

end ProofProse
