import Mathlib.Data.List.Chain
import ProofProse.Token.Lexer

/-! # Lexemes

What the lexer does is said here without a machine: a text is cut into lexemes from left to right,
each the longest there is, and each stands for one token (`Lexer.Lexeme`, `Lexer.Lexes`). The lexer
writes these tokens and no others (`tokenize_eq_iff`).

A lexeme also says what cannot stand behind it, so of two neighbours in a list of tokens that was
read, the texts run together in one way only: a letter stands behind a control word
(`Lexer.Lexes.parted`). In a list without such neighbours each token is a lexeme of the printed text
with the same token, and the list is read back from it; a list with such neighbours is not
(`printed_reads_back`). -/

namespace ProofProse

namespace Lexer

open Text (isBlank)

variable {c : Char} {cs rest : List Char} {t : Token} {ts : List Token}

/-! ### Lexemes -/

/-- A quotation mark that doubles to a double quote. -/
def isQuote (c : Char) : Bool := c == '\x60' || c == '\x27'

/-- The signs that are tokens of their own. -/
def signs : List (Char × Token) :=
  [('\x7b', .openGroup), ('\x7d', .closeGroup), ('$', .mathShift), ('&', .alignTab),
   ('^', .superscript), ('_', .subscript), ('~', .active '~')]

/-- The characters with which more than a character can begin. -/
def specials : List Char := ['\\', '#', '-', '\x60', '\x27'] ++ signs.map Prod.fst

/-- A character that always stands for itself. -/
def isPlain (c : Char) : Bool := !isBlank c && !specials.contains c

theorem isQuote_iff : isQuote c = true ↔ c = '\x60' ∨ c = '\x27' := by
  unfold isQuote
  rw [Bool.or_eq_true, beq_iff_eq, beq_iff_eq]

theorem isPlain_iff : isPlain c = true ↔ isBlank c = false ∧ c ∉ specials := by
  unfold isPlain
  rw [Bool.and_eq_true, Bool.not_eq_true', Bool.not_eq_true', List.contains_eq_mem,
    decide_eq_false_iff_not]

theorem notMem_specials : c ∉ specials ↔
    c ≠ '\\' ∧ c ≠ '#' ∧ ¬(c == '-' || isQuote c) = true ∧ c ∉ signs.map Prod.fst := by
  rw [Bool.or_eq_true, beq_iff_eq, isQuote_iff]
  simp only [specials, List.mem_append, List.mem_cons, List.not_mem_nil, or_false]
  tauto

theorem all_symbolName (h : isNameLetter c = false) :
    (symbolName c).toList.all isNameLetter = false := by
  unfold symbolName
  split
  · decide
  · rw [String.toList_singleton, List.all_cons, h, Bool.false_and]

/-- A text that a hash sign in front would make a parameter of. -/
def numbers : List Char → Bool
  | [] => false
  | c :: cs => isParameterDigit c || (c == '#' && cs.head?.any isParameterDigit)

/-- A text begins with the lexeme of a token, and what is behind the lexeme is left. -/
inductive Lexeme : List Char → Token → List Char → Prop
  | blanks {c : Char} {rest : List Char} (h : isBlank c = true) :
      Lexeme (c :: rest) .space (rest.dropWhile isBlank)
  /-- A control word takes all letters, and the blanks behind them. -/
  | word {letters rest : List Char} (hne : letters ≠ []) (h : ∀ c ∈ letters, isNameLetter c = true)
      (hrest : rest.head?.any isNameLetter = false) :
      Lexeme ('\\' :: (letters ++ rest)) (.control (String.ofList letters))
        (rest.dropWhile isBlank)
  | symbol {c : Char} {rest : List Char} (h : isNameLetter c = false) :
      Lexeme ('\\' :: c :: rest) (.control (symbolName c)) rest
  /-- A backslash at the end. -/
  | backslash : Lexeme ['\\'] (.char '\\') []
  | parameter {d : Char} {rest : List Char} (h : isParameterDigit d = true) :
      Lexeme ('#' :: d :: rest) (.parameter (digitValue d)) rest
  | deferred {d : Char} {rest : List Char} (h : isParameterDigit d = true) :
      Lexeme ('#' :: '#' :: d :: rest) (.deferred (digitValue d)) rest
  | hash {rest : List Char} (h : numbers rest = false) : Lexeme ('#' :: rest) (.char '#') rest
  | hyphen {rest : List Char} (h : rest.head? ≠ some '-') : Lexeme ('-' :: rest) (.char '-') rest
  | shortDash {rest : List Char} (h : rest.head? ≠ some '-') :
      Lexeme ('-' :: '-' :: rest) (.char Lexer.shortDash) rest
  | longDash {rest : List Char} : Lexeme ('-' :: '-' :: '-' :: rest) (.char Lexer.longDash) rest
  | quote {mark : Char} {rest : List Char} (hmark : isQuote mark = true)
      (h : rest.head? ≠ some mark) : Lexeme (mark :: rest) (.char mark) rest
  | quotes {mark : Char} {rest : List Char} (hmark : isQuote mark = true) :
      Lexeme (mark :: mark :: rest) (.char '"') rest
  | sign {c : Char} {t : Token} {rest : List Char} (h : (c, t) ∈ signs) : Lexeme (c :: rest) t rest
  | plain {c : Char} {rest : List Char} (h : isPlain c = true) : Lexeme (c :: rest) (.char c) rest

/-- A text is cut into lexemes. -/
inductive Lexes : List Char → List Token → Prop
  | nil : Lexes [] []
  | cons {cs rest : List Char} {t : Token} {ts : List Token} (h : Lexeme cs t rest)
      (hrest : Lexes rest ts) : Lexes cs (t :: ts)

theorem Lexes.lexeme (h : Lexes cs (t :: ts)) : ∃ rest, Lexeme cs t rest := by
  cases h with
  | cons h _ => exact ⟨_, h⟩

theorem Lexeme.length_lt (h : Lexeme cs t rest) : rest.length < cs.length := by
  have hdrop : ∀ cs : List Char, (cs.dropWhile isBlank).length ≤ cs.length :=
    fun cs => (List.dropWhile_suffix isBlank).length_le
  cases h with
  | @blanks c rest h => exact Nat.lt_succ_of_le (hdrop rest)
  | @word letters rest hne h hrest =>
    have hle := hdrop rest
    simp only [List.length_cons, List.length_append]
    omega
  | _ => simp only [List.length_cons, List.length_nil]; omega

theorem any_head?_dropWhile (p : Char → Bool) (cs : List Char) :
    (cs.dropWhile p).head?.any p = false := by
  have h := List.head?_dropWhile_not p cs
  cases hhead : (cs.dropWhile p).head? with
  | none => rfl
  | some c =>
    rw [hhead] at h
    exact h

/-- **Every text begins with a lexeme**, by its first characters. -/
theorem exists_lexeme (c : Char) (cs : List Char) : ∃ t rest, Lexeme (c :: cs) t rest := by
  by_cases hblank : isBlank c = true
  · exact ⟨_, _, .blanks hblank⟩
  by_cases hslash : c = '\\'
  · subst hslash
    cases cs with
    | nil => exact ⟨_, _, .backslash⟩
    | cons d cs =>
      cases hletter : isNameLetter d with
      | false => exact ⟨_, _, .symbol hletter⟩
      | true =>
        have hletters : ∀ c ∈ (d :: cs).takeWhile isNameLetter, isNameLetter c = true :=
          List.all_eq_true.mp List.all_takeWhile
        have hne : (d :: cs).takeWhile isNameLetter ≠ [] := by
          rw [List.takeWhile_cons, if_pos hletter]
          exact List.cons_ne_nil _ _
        have hrest := any_head?_dropWhile isNameLetter (d :: cs)
        have hword := Lexeme.word hne hletters hrest
        rw [List.takeWhile_append_dropWhile] at hword
        exact ⟨_, _, hword⟩
  by_cases hhash : c = '#'
  · subst hhash
    cases hnumbers : numbers cs with
    | false => exact ⟨_, _, .hash hnumbers⟩
    | true =>
      cases cs with
      | nil => cases hnumbers
      | cons d cs =>
        unfold numbers at hnumbers
        rw [Bool.or_eq_true, Bool.and_eq_true, beq_iff_eq] at hnumbers
        rcases hnumbers with hd | ⟨rfl, hd⟩
        · exact ⟨_, _, .parameter hd⟩
        · cases cs with
          | nil => cases hd
          | cons d cs => exact ⟨_, _, .deferred hd⟩
  by_cases hhyphen : c = '-'
  · subst hhyphen
    by_cases hone : cs.head? = some '-'
    · obtain ⟨cs, rfl⟩ : ∃ cs', cs = '-' :: cs' := List.head?_eq_some_iff.mp hone
      by_cases htwo : cs.head? = some '-'
      · obtain ⟨cs, rfl⟩ : ∃ cs', cs = '-' :: cs' := List.head?_eq_some_iff.mp htwo
        exact ⟨_, _, .longDash⟩
      · exact ⟨_, _, .shortDash htwo⟩
    · exact ⟨_, _, .hyphen hone⟩
  by_cases hquote : isQuote c = true
  · by_cases hone : cs.head? = some c
    · obtain ⟨cs, rfl⟩ : ∃ cs', cs = c :: cs' := List.head?_eq_some_iff.mp hone
      exact ⟨_, _, .quotes hquote⟩
    · exact ⟨_, _, .quote hquote hone⟩
  by_cases hsign : c ∈ signs.map Prod.fst
  · obtain ⟨⟨c, t⟩, hmem, rfl⟩ := List.mem_map.mp hsign
    exact ⟨_, _, .sign hmem⟩
  · have hmark : ¬(c == '-' || isQuote c) = true := by
      rw [Bool.or_eq_true, beq_iff_eq, not_or]
      exact ⟨hhyphen, hquote⟩
    have hspecial : c ∉ specials := notMem_specials.mpr ⟨hslash, hhash, hmark, hsign⟩
    exact ⟨_, _, .plain (isPlain_iff.mpr ⟨Bool.eq_false_iff.mpr hblank, hspecial⟩)⟩

theorem exists_lexes (cs : List Char) : ∃ ts, Lexes cs ts := by
  induction hlength : cs.length using Nat.strongRecOn generalizing cs with
  | ind n ih =>
    cases cs with
    | nil => exact ⟨[], .nil⟩
    | cons c cs =>
      obtain ⟨t, rest, h⟩ := exists_lexeme c cs
      obtain ⟨ts, hrest⟩ := ih _ (hlength ▸ h.length_lt) rest rfl
      exact ⟨t :: ts, .cons h hrest⟩

/-! ### The lexer reads lexemes -/

theorem begin_of_notMem (h : c ∉ specials) :
    begin c = if isBlank c then (.blanks, [.space]) else (.text, [.char c]) := by
  unfold begin
  split
  case h_13 => rfl
  all_goals exact absurd (by decide) h

theorem begin_of_isBlank (h : isBlank c = true) : begin c = (.blanks, [.space]) := by
  have hspecials : specials.any isBlank = false := by decide
  have hspecial : c ∉ specials := fun hc =>
    Bool.false_ne_true (hspecials.symm.trans (List.any_eq_true.mpr ⟨c, hc, h⟩))
  rw [begin_of_notMem hspecial, if_pos h]

theorem begin_of_isPlain (h : isPlain c = true) : begin c = (.text, [.char c]) := by
  obtain ⟨hblank, hspecial⟩ := isPlain_iff.mp h
  rw [begin_of_notMem hspecial, hblank, if_neg Bool.false_ne_true]

theorem begin_of_sign (h : (c, t) ∈ signs) : begin c = (.text, [t]) := by
  have hsigns : ∀ p ∈ signs, begin p.1 = (.text, [p.2]) := by decide
  exact hsigns _ h

theorem begin_of_isQuote (h : isQuote c = true) : begin c = (.quote c, []) := by
  rcases isQuote_iff.mp h with rfl | rfl <;> rfl

theorem output_cons (mode : Mode) (c : Char) (cs : List Char) :
    machine.output mode (c :: cs) = (step mode c).2 ++ machine.output (step mode c).1 cs := rfl

/-- What is pending is written when it cannot go on, and the rest is read afresh. -/
theorem output_pending {mode : Mode} (h : ∀ c, cs.head? = some c → step mode c = restart mode c) :
    machine.output mode cs = flush mode ++ machine.output .text cs := by
  cases cs with
  | nil => exact (List.append_nil _).symm
  | cons c cs =>
    rw [output_cons, h c rfl, output_cons .text]
    exact List.append_assoc _ _ _

theorem output_blanks (cs : List Char) :
    machine.output .blanks cs = machine.output .text (cs.dropWhile isBlank) := by
  induction cs with
  | nil => rfl
  | cons c cs ih =>
    rw [output_cons, List.dropWhile_cons]
    unfold step
    dsimp only
    split
    · exact ih
    · rfl

/-- By induction on the letters, with those before them collected. -/
theorem output_word : ∀ (letters before : List Char), (∀ c ∈ letters, isNameLetter c = true) →
    rest.head?.any isNameLetter = false →
    machine.output (.word before) (letters ++ rest) =
      .control (String.ofList (before.reverse ++ letters)) ::
        machine.output .text (rest.dropWhile isBlank)
  | [], before, _, hrest => by
    rw [List.nil_append, List.append_nil]
    cases rest with
    | nil => rfl
    | cons c rest =>
      have hc : isNameLetter c = false := hrest
      rw [output_cons, List.dropWhile_cons]
      unfold step
      dsimp only
      rw [hc, if_neg Bool.false_ne_true]
      split
      · exact congrArg (_ :: ·) (output_blanks rest)
      · rfl
  | c :: letters, before, h, hrest => by
    have hc := h c List.mem_cons_self
    have hstep : step (.word before) c = (.word (c :: before), []) := if_pos hc
    have hletters := output_word letters (c :: before)
      (fun d hd => h d (List.mem_cons_of_mem c hd)) hrest
    rw [List.cons_append, output_cons, hstep, List.nil_append, hletters]
    simp

/-- Of two hash signs and a text that makes no parameter of them the first is written. -/
theorem output_hashes (h : rest.head?.any isParameterDigit = false) :
    machine.output .hashes rest = .char '#' :: machine.output .hash rest := by
  cases rest with
  | nil => rfl
  | cons c rest =>
    have hc : isParameterDigit c = false := h
    rw [output_cons, output_cons .hash]
    unfold step
    dsimp only
    rw [hc, if_neg Bool.false_ne_true, if_neg Bool.false_ne_true]
    split <;> rfl

theorem output_hash (h : numbers rest = false) :
    machine.output .hash rest = .char '#' :: machine.output .text rest := by
  cases rest with
  | nil => rfl
  | cons c rest =>
    unfold numbers at h
    rw [Bool.or_eq_false_iff, Bool.and_eq_false_iff] at h
    by_cases hc : c = '#'
    · subst hc
      have hrest := h.2.resolve_left (by decide)
      exact output_hashes hrest
    · refine output_pending fun d hd => ?_
      cases hd
      show (if isParameterDigit c then _ else if c == '#' then _ else _) = _
      rw [h.1, if_neg Bool.false_ne_true, if_neg (mt beq_iff_eq.mp hc)]

/-- **The lexer reads a lexeme** and goes on behind it. -/
theorem Lexeme.output_eq (h : Lexeme cs t rest) :
    machine.output .text cs = t :: machine.output .text rest := by
  cases h with
  | @blanks c rest h =>
    have hstep : step .text c = (.blanks, [.space]) := begin_of_isBlank h
    rw [output_cons, hstep, ← output_blanks]
    rfl
  | @word letters rest hne h hrest =>
    obtain ⟨c, letters, rfl⟩ := List.exists_cons_of_ne_nil hne
    have hc := h c List.mem_cons_self
    have hstep : step .escape c = (.word [c], []) := if_pos hc
    have hword := output_word letters [c] (fun d hd => h d (List.mem_cons_of_mem c hd)) hrest
    show machine.output .escape (c :: (letters ++ rest)) = _
    rw [output_cons, hstep]
    exact hword
  | @symbol c rest h =>
    have hstep : step .escape c = (.text, [.control (symbolName c)]) :=
      if_neg (by rw [h]; exact Bool.false_ne_true)
    show machine.output .escape (c :: rest) = _
    rw [output_cons, hstep]
    rfl
  | backslash => rfl
  | @parameter d rest h =>
    have hstep : step .hash d = (.text, [.parameter (digitValue d)]) := if_pos h
    show machine.output .hash (d :: rest) = _
    rw [output_cons, hstep]
    rfl
  | @deferred d rest h =>
    have hstep : step .hashes d = (.text, [.deferred (digitValue d)]) := if_pos h
    show machine.output .hashes (d :: rest) = _
    rw [output_cons, hstep]
    rfl
  | hash h => exact output_hash h
  | @hyphen rest h =>
    show machine.output .hyphen rest = _
    refine output_pending fun c hc => ?_
    have hne : c ≠ '-' := fun heq => h (heq ▸ hc)
    exact if_neg (mt beq_iff_eq.mp hne)
  | @shortDash rest h =>
    show machine.output .hyphens rest = _
    refine output_pending fun c hc => ?_
    have hne : c ≠ '-' := fun heq => h (heq ▸ hc)
    exact if_neg (mt beq_iff_eq.mp hne)
  | longDash => rfl
  | @quote mark rest hmark h =>
    have hstep : step .text mark = (.quote mark, []) := begin_of_isQuote hmark
    rw [output_cons, hstep]
    show machine.output (.quote mark) rest = _
    refine output_pending fun c hc => ?_
    have hne : c ≠ mark := fun heq => h (heq ▸ hc)
    exact if_neg (mt beq_iff_eq.mp hne)
  | @quotes mark rest hmark =>
    have hstep : step .text mark = (.quote mark, []) := begin_of_isQuote hmark
    have hdouble : step (.quote mark) mark = (.text, [.char '"']) := if_pos (beq_self_eq_true mark)
    rw [output_cons, hstep]
    show machine.output (.quote mark) (mark :: rest) = _
    rw [output_cons, hdouble]
    rfl
  | @sign c t rest h =>
    have hstep : step .text c = (.text, [t]) := begin_of_sign h
    rw [output_cons, hstep]
    rfl
  | @plain c rest h =>
    have hstep : step .text c = (.text, [.char c]) := begin_of_isPlain h
    rw [output_cons, hstep]
    rfl

theorem tokenize_eq_output (cs : List Char) : tokenize cs = machine.output .text cs :=
  machine.run_eq_output cs

theorem Lexes.tokenize_eq (h : Lexes cs ts) : tokenize cs = ts := by
  rw [tokenize_eq_output]
  induction h with
  | nil => rfl
  | cons h _ ih => rw [h.output_eq, ih]

/-- **The lexer** writes the tokens of the lexemes that a text is cut into. -/
theorem tokenize_eq_iff : tokenize cs = ts ↔ Lexes cs ts := by
  refine ⟨fun h => ?_, Lexes.tokenize_eq⟩
  obtain ⟨us, hus⟩ := exists_lexes cs
  rwa [← h, hus.tokenize_eq]

end Lexer

/-! ### Tokens that are read -/

namespace Token

open Lexer (signs isParameterDigit)

/-- A token that the lexer can write. -/
def IsLexical : Token → Prop
  | control name =>
    (name.toList ≠ [] ∧ ∀ c ∈ name.toList, Lexer.isNameLetter c = true) ∨
      ∃ c, Lexer.isNameLetter c = false ∧ c ≠ '\n' ∧ name = String.singleton c
  | parameter n => 1 ≤ n ∧ n ≤ 9
  | deferred n => 1 ≤ n ∧ n ≤ 9
  | char c => Text.isBlank c = false ∧ c ∉ signs.map Prod.fst
  | active c => c = '~'
  | inert _ => False
  | endOfInput => False
  | _ => True

/-- A control sequence with a name of letters. -/
def isControlWord : Token → Bool
  | control name => name.toList.all Lexer.isNameLetter
  | _ => false

/-- A character that a name can have. -/
def isNameLetter : Token → Bool
  | char c => Lexer.isNameLetter c
  | _ => false

/-- A token whose text a hash sign in front would make a parameter of. -/
def isNumber : Token → Bool
  | char c => isParameterDigit c
  | parameter _ => true
  | _ => false

/-- The texts of two neighbours make one lexeme, or one that ends elsewhere. -/
def runsInto (t u : Token) : Bool :=
  match t with
  | space => u.isSpace
  | control name => name.toList.all Lexer.isNameLetter && (u.isSpace || u.isNameLetter)
  | char c =>
    if c == '\\' then true
    else if c == '#' then u.isNumber
    else (c == '-' || Lexer.isQuote c) && u.isChar c
  | _ => false

/-- A letter stands behind a control word. -/
def Lengthens (t u : Token) : Prop := t.isControlWord = true ∧ u.isNameLetter = true

/-- The texts of two neighbours run together only as a letter does with the control word before it.
-/
def Parted (t u : Token) : Prop := t.runsInto u = true → t.Lengthens u

end Token

namespace Lexer

open Text (isBlank)

variable {c d : Char} {cs rest rest' : List Char} {t u : Token} {ts : List Token}

theorem digitValue_mem (h : isParameterDigit d = true) : 1 ≤ digitValue d ∧ digitValue d ≤ 9 := by
  unfold isParameterDigit at h
  rw [Bool.and_eq_true, decide_eq_true_iff, decide_eq_true_iff] at h
  have hlow : '1'.toNat ≤ d.toNat := h.1
  have hhigh : d.toNat ≤ '9'.toNat := h.2
  have hone : '1'.toNat = 49 := rfl
  have hnine : '9'.toNat = 57 := rfl
  have hzero : '0'.toNat = 48 := rfl
  unfold digitValue
  omega

/-- **A lexeme stands for a lexical token.** -/
theorem Lexeme.isLexical (h : Lexeme cs t rest) : t.IsLexical := by
  cases h with
  | blanks h => trivial
  | @word letters rest hne h hrest =>
    refine .inl ⟨?_, ?_⟩
    · rwa [String.toList_ofList]
    · rwa [String.toList_ofList]
  | @symbol c rest h =>
    refine .inr ⟨_, ?_, ?_, rfl⟩
    · split
      · decide
      · exact h
    · split
      · decide
      · next hc => exact mt beq_iff_eq.mpr hc
  | backslash => exact ⟨by decide, by decide⟩
  | parameter h => exact digitValue_mem h
  | deferred h => exact digitValue_mem h
  | hash h => exact ⟨by decide, by decide⟩
  | hyphen h => exact ⟨by decide, by decide⟩
  | shortDash h => exact ⟨by decide, by decide⟩
  | longDash => exact ⟨by decide, by decide⟩
  | @quote mark rest hmark h =>
    rcases isQuote_iff.mp hmark with rfl | rfl
    · exact ⟨by decide, by decide⟩
    · exact ⟨by decide, by decide⟩
  | quotes hmark => exact ⟨by decide, by decide⟩
  | @sign c t rest h =>
    simp only [signs, List.mem_cons, List.not_mem_nil, or_false, Prod.mk.injEq] at h
    rcases h with ⟨-, rfl⟩ | ⟨-, rfl⟩ | ⟨-, rfl⟩ | ⟨-, rfl⟩ | ⟨-, rfl⟩ | ⟨-, rfl⟩ | ⟨-, rfl⟩
    case inr.inr.inr.inr.inr.inr => rfl
    all_goals trivial
  | @plain c rest h =>
    obtain ⟨hblank, hspecial⟩ := isPlain_iff.mp h
    exact ⟨hblank, (notMem_specials.mp hspecial).2.2.2⟩

/-! ### Neighbours -/

theorem Lexeme.of_isSpace (h : Lexeme cs u rest) (hu : u.isSpace = true) :
    cs.head?.any isBlank = true := by
  cases h with
  | blanks h => exact h
  | sign h =>
    have hsigns : ∀ p ∈ signs, p.2.isSpace = false := by decide
    exact absurd ((hsigns _ h).symm.trans hu) Bool.false_ne_true
  | _ => cases hu

/-- A number is read from a text that a hash sign in front would make a parameter of. -/
theorem Lexeme.of_isNumber (h : Lexeme cs u rest) (hu : u.isNumber = true) :
    numbers cs = true := by
  cases h with
  | @parameter d rest h =>
    unfold numbers
    rw [Bool.or_eq_true]
    exact .inr h
  | @plain c rest h =>
    unfold numbers
    rw [Bool.or_eq_true]
    exact .inl hu
  | @quote mark rest hmark h =>
    rcases isQuote_iff.mp hmark with rfl | rfl
    · cases hu
    · cases hu
  | sign h =>
    have hsigns : ∀ p ∈ signs, p.2.isNumber = false := by decide
    exact absurd ((hsigns _ h).symm.trans hu) Bool.false_ne_true
  | _ => cases hu

theorem Lexeme.of_isChar (h : Lexeme cs u rest) (hc : (c == '-' || isQuote c) = true)
    (hu : u.isChar c = true) : cs.head? = some c := by
  have hother : ∀ d, (d == '-' || isQuote d) = false → (d == c) = false := by
    intro d hd
    rw [beq_eq_false_iff_ne]
    rintro rfl
    exact Bool.false_ne_true (hd.symm.trans hc)
  cases h with
  | hyphen h => rw [← beq_iff_eq.mp hu]; rfl
  | quote hmark h => rw [← beq_iff_eq.mp hu]; rfl
  | plain h => rw [← beq_iff_eq.mp hu]; rfl
  | sign h =>
    have hsigns : ∀ p ∈ signs, ∀ c, p.2.isChar c = false := by
      simp [signs, Token.isChar]
    exact absurd ((hsigns _ h c).symm.trans hu) Bool.false_ne_true
  | backslash => exact absurd ((hother _ (by decide)).symm.trans hu) Bool.false_ne_true
  | hash h => exact absurd ((hother _ (by decide)).symm.trans hu) Bool.false_ne_true
  | shortDash h => exact absurd ((hother _ (by decide)).symm.trans hu) Bool.false_ne_true
  | longDash => exact absurd ((hother _ (by decide)).symm.trans hu) Bool.false_ne_true
  | quotes hmark => exact absurd ((hother _ (by decide)).symm.trans hu) Bool.false_ne_true
  | _ => cases hu

/-- **The lexeme behind a lexeme** makes one with it in one way only: a letter stands behind a
control word, which took the blanks between them. -/
theorem Lexeme.parted (h : Lexeme cs t rest) (h' : Lexeme rest u rest') : t.Parted u := by
  intro hruns
  have hblanks : ∀ cs : List Char, Lexeme (cs.dropWhile isBlank) u rest' → u.isSpace = false := by
    intro cs hu
    rw [Bool.eq_false_iff]
    intro hspace
    have hhead := any_head?_dropWhile isBlank cs
    exact Bool.false_ne_true (hhead.symm.trans (hu.of_isSpace hspace))
  cases h with
  | blanks h => exact absurd ((hblanks _ h').symm.trans hruns) Bool.false_ne_true
  | @word letters rest hne h hrest =>
    unfold Token.runsInto at hruns
    dsimp only at hruns
    rw [hblanks _ h', Bool.false_or, Bool.and_eq_true] at hruns
    exact hruns
  | @symbol c rest h =>
    unfold Token.runsInto at hruns
    dsimp only at hruns
    rw [all_symbolName h, Bool.false_and] at hruns
    cases hruns
  | backslash => cases h'
  | hash h => exact absurd (h.symm.trans (h'.of_isNumber hruns)) Bool.false_ne_true
  | hyphen h => exact absurd (h'.of_isChar (c := '-') rfl hruns) h
  | @quote mark rest hmark h =>
    have hmark' : (mark == '-' || isQuote mark) = true := by rw [hmark, Bool.or_true]
    have hu : u.isChar mark = true := by
      rcases isQuote_iff.mp hmark with rfl | rfl
      · exact hruns
      · exact hruns
    exact absurd (h'.of_isChar hmark' hu) h
  | @sign c t rest h =>
    have hsigns : ∀ p ∈ signs, ∀ u, p.2.runsInto u = false := by
      simp [signs, Token.runsInto]
    exact absurd ((hsigns _ h u).symm.trans hruns) Bool.false_ne_true
  | @plain c rest h =>
    obtain ⟨hslash, hhash, hmark, -⟩ := notMem_specials.mp (isPlain_iff.mp h).2
    unfold Token.runsInto at hruns
    dsimp only at hruns
    rw [if_neg (mt beq_iff_eq.mp hslash), if_neg (mt beq_iff_eq.mp hhash), Bool.and_eq_true] at hruns
    exact absurd hruns.1 hmark
  | _ => cases hruns

/-! ### Lists that are read -/

theorem Lexes.isLexical (h : Lexes cs ts) : ∀ t ∈ ts, t.IsLexical := by
  induction h with
  | nil => exact nofun
  | cons h _ ih => exact List.forall_mem_cons.mpr ⟨h.isLexical, ih⟩

/-- **Neighbours in a list that was read** run together in one way only. -/
theorem Lexes.parted (h : Lexes cs ts) : ts.IsChain Token.Parted := by
  induction h with
  | nil => exact .nil
  | cons h hrest ih =>
    refine List.isChain_cons.mpr ⟨fun u hu => ?_, ih⟩
    cases hrest with
    | nil => cases hu
    | cons h' _ =>
      cases hu
      exact h.parted h'

theorem Lexes.length_le (h : Lexes cs ts) : ts.length ≤ cs.length := by
  induction h with
  | nil => exact Nat.le_refl 0
  | cons h _ ih =>
    have hlength := h.length_lt
    rw [List.length_cons]
    omega

/-! ### Printed lists -/

/-- The characters of a printed list. -/
def chars (ts : List Token) : List Char := (printed ts).toList

theorem chars_cons (t : Token) (ts : List Token) : chars (t :: ts) = t.text.toList ++ chars ts := by
  unfold chars printed
  rw [List.map_cons, String.join_cons, String.toList_append]

/-- The first character of the text of a token. -/
def front : Token → Char
  | .control _ => '\\'
  | .openGroup => '\x7b'
  | .closeGroup => '\x7d'
  | .parameter _ => '#'
  | .deferred _ => '#'
  | .char c => c
  | .mathShift => '$'
  | .alignTab => '&'
  | .superscript => '^'
  | .subscript => '_'
  | .active c => c
  | _ => ' '

theorem toList_control (name : String) : (Token.control name).text.toList = '\\' :: name.toList := by
  show ("\\" ++ name).toList = _
  rw [String.toList_append]
  rfl

theorem toList_parameter (n : Nat) : (Token.parameter n).text.toList = '#' :: (toString n).toList := by
  show ("#" ++ toString n).toList = _
  rw [String.toList_append]
  rfl

theorem toList_deferred (n : Nat) :
    (Token.deferred n).text.toList = '#' :: '#' :: (toString n).toList := by
  show ("##" ++ toString n).toList = _
  rw [String.toList_append]
  rfl

theorem toList_char (c : Char) : (Token.char c).text.toList = [c] :=
  String.toList_singleton c

theorem exists_text_eq (ht : t.IsLexical) : ∃ cs, t.text.toList = front t :: cs := by
  cases t with
  | inert name => exact ht.elim
  | endOfInput => exact ht.elim
  | control name => exact ⟨_, toList_control name⟩
  | parameter n => exact ⟨_, toList_parameter n⟩
  | deferred n => exact ⟨_, toList_deferred n⟩
  | char c => exact ⟨_, toList_char c⟩
  | active c => exact ⟨[], String.toList_singleton c⟩
  | _ => exact ⟨[], rfl⟩

theorem head?_chars (h : ∀ t ∈ ts, t.IsLexical) : (chars ts).head? = ts.head?.map front := by
  cases ts with
  | nil => rfl
  | cons t ts =>
    obtain ⟨cs, hcs⟩ := exists_text_eq (h t List.mem_cons_self)
    rw [chars_cons, hcs]
    rfl

theorem isBlank_front (ht : t.IsLexical) : isBlank (front t) = t.isSpace := by
  cases t with
  | char c => exact ht.1
  | active c =>
    have hc : c = '~' := ht
    rw [hc]
    decide
  | inert name => exact ht.elim
  | endOfInput => exact ht.elim
  | _ => rfl

theorem isNameLetter_front (ht : t.IsLexical) : isNameLetter (front t) = t.isNameLetter := by
  cases t with
  | char c => rfl
  | active c =>
    have hc : c = '~' := ht
    rw [hc]
    decide
  | inert name => exact ht.elim
  | endOfInput => exact ht.elim
  | _ => rfl

theorem isNumber_of_front (ht : t.IsLexical) (h : isParameterDigit (front t) = true) :
    t.isNumber = true := by
  cases t with
  | char c => exact h
  | active c =>
    have hc : c = '~' := ht
    rw [hc] at h
    cases h
  | inert name => exact ht.elim
  | endOfInput => exact ht.elim
  | _ => cases h

/-- The front of a printed list has a property of characters only if its first token does. -/
theorem any_head?_chars {p : Char → Bool} {q : Token → Bool}
    (hp : ∀ t : Token, t.IsLexical → p (front t) = true → q t = true)
    (h : ∀ t ∈ ts, t.IsLexical) (hq : ∀ t, ts.head? = some t → q t = false) :
    (chars ts).head?.any p = false := by
  rw [head?_chars h]
  cases ts with
  | nil => rfl
  | cons t ts =>
    show p (front t) = false
    rw [Bool.eq_false_iff]
    intro hfront
    have htrue := hp t (h t List.mem_cons_self) hfront
    exact Bool.false_ne_true ((hq t rfl).symm.trans htrue)

theorem dropWhile_eq_self {p : Char → Bool} (h : cs.head?.any p = false) : cs.dropWhile p = cs := by
  cases cs with
  | nil => rfl
  | cons c cs =>
    have hc : p c = false := h
    rw [List.dropWhile_cons, if_neg (by rw [hc]; exact Bool.false_ne_true)]

theorem exists_digit {n : Nat} (h : 1 ≤ n ∧ n ≤ 9) :
    ∃ d, isParameterDigit d = true ∧ digitValue d = n ∧ (toString n).toList = [d] := by
  have hdigits : ∀ n < 10, 1 ≤ n → isParameterDigit (Nat.digitChar n) = true ∧
      digitValue (Nat.digitChar n) = n ∧ (toString n).toList = [Nat.digitChar n] := by
    decide
  exact ⟨_, hdigits n (by omega) h.1⟩

theorem isChar_of_front (ht : t.IsLexical) (hc : (c == '-' || isQuote c) = true)
    (h : front t = c) : t.isChar c = true := by
  subst h
  cases t with
  | char c => exact beq_self_eq_true c
  | active c =>
    have hc' : c = '~' := ht
    rw [hc'] at hc
    cases hc
  | inert name => exact ht.elim
  | endOfInput => exact ht.elim
  | _ => cases hc

theorem head?_chars_ne (hc : (c == '-' || isQuote c) = true) (h : ∀ t ∈ ts, t.IsLexical)
    (hnext : ∀ t, ts.head? = some t → t.isChar c = false) : (chars ts).head? ≠ some c := by
  rw [head?_chars h]
  intro hhead
  obtain ⟨t, ht, hfront⟩ := Option.map_eq_some_iff.mp hhead
  have hchar := isChar_of_front (h t (List.mem_of_mem_head? ht)) hc hfront
  exact Bool.false_ne_true ((hnext t ht).symm.trans hchar)

/-- Behind a hash sign a printed list makes a number only where its first token is one. -/
theorem numbers_chars (h : ∀ t ∈ ts, t.IsLexical) (hparted : ts.IsChain Token.Parted)
    (hnext : ∀ t, ts.head? = some t → t.isNumber = false) : numbers (chars ts) = false := by
  cases ts with
  | nil => rfl
  | cons t ts =>
    have ht := h t List.mem_cons_self
    have hts : ∀ u ∈ ts, u.IsLexical := fun u hu => h u (List.mem_cons_of_mem t hu)
    have hdigit : isParameterDigit (front t) = false := by
      rw [Bool.eq_false_iff]
      intro hfront
      exact Bool.false_ne_true ((hnext t rfl).symm.trans (isNumber_of_front ht hfront))
    obtain ⟨cs, hcs⟩ := exists_text_eq ht
    rw [chars_cons, hcs, List.cons_append]
    show (isParameterDigit (front t) || (front t == '#' && _)) = false
    rw [hdigit, Bool.false_or, Bool.and_eq_false_iff]
    by_cases hhash : front t = '#'
    · refine .inr ?_
      cases t with
      | char c =>
        -- A second hash sign: the token behind it is no number either.
        have hc : c = '#' := hhash
        subst hc
        obtain ⟨-, rfl⟩ := List.cons.inj ((toList_char '#').symm.trans hcs)
        rw [List.nil_append]
        refine any_head?_chars (fun _ => isNumber_of_front) hts fun u hu => ?_
        rw [Bool.eq_false_iff]
        intro hnumber
        have hchain := (List.isChain_cons.mp hparted).1 u hu hnumber
        cases hchain.1
      | parameter n => cases hnext _ rfl
      | deferred n =>
        obtain ⟨-, rfl⟩ := List.cons.inj ((toList_deferred n).symm.trans hcs)
        rfl
      | active c =>
        have hc : c = '~' := ht
        rw [hc] at hhash
        cases hhash
      | _ => cases hhash
    · exact .inl (beq_eq_false_iff_ne.mpr hhash)

/-- **A printed token is a lexeme** with the same token, where the next token does not run into it.
-/
theorem lexeme_chars (h : ∀ u ∈ t :: ts, u.IsLexical) (hparted : ts.IsChain Token.Parted)
    (hnext : ∀ u, ts.head? = some u → t.runsInto u = false) :
    Lexeme (chars (t :: ts)) t (chars ts) := by
  obtain ⟨ht, hts⟩ := List.forall_mem_cons.mp h
  have hblank : (∀ u, ts.head? = some u → u.isSpace = false) →
      (chars ts).dropWhile isBlank = chars ts := fun hspace =>
    dropWhile_eq_self (any_head?_chars (fun u hu hb => (isBlank_front hu).symm.trans hb) hts hspace)
  rw [chars_cons]
  cases t with
  | space =>
    have hlexeme : Lexeme (' ' :: chars ts) .space _ := .blanks (by decide)
    rwa [hblank hnext] at hlexeme
  | control name =>
    rw [toList_control]
    rcases ht with ⟨hne, hletters⟩ | ⟨c, hc, hline, rfl⟩
    · have hword : name.toList.all isNameLetter = true := List.all_eq_true.mpr hletters
      have hboth : ∀ u, ts.head? = some u → u.isSpace = false ∧ u.isNameLetter = false := by
        intro u hu
        have hu := hnext u hu
        unfold Token.runsInto at hu
        dsimp only at hu
        rwa [hword, Bool.true_and, Bool.or_eq_false_iff] at hu
      have hlexeme : Lexeme ('\\' :: (name.toList ++ chars ts)) _ _ := .word hne hletters
        (any_head?_chars (fun u hu hl => (isNameLetter_front hu).symm.trans hl) hts
          fun u hu => (hboth u hu).2)
      rwa [hblank fun u hu => (hboth u hu).1, String.ofList_toList] at hlexeme
    · have hlexeme : Lexeme ('\\' :: c :: chars ts) _ _ := .symbol hc
      have hname : symbolName c = String.singleton c := by
        unfold symbolName
        rw [if_neg (mt beq_iff_eq.mp hline)]
      rw [hname] at hlexeme
      simpa using hlexeme
  | parameter n =>
    obtain ⟨d, hd, rfl, hn⟩ := exists_digit ht
    rw [toList_parameter, hn]
    exact .parameter hd
  | deferred n =>
    obtain ⟨d, hd, rfl, hn⟩ := exists_digit ht
    rw [toList_deferred, hn]
    exact .deferred hd
  | char c =>
    rw [toList_char]
    by_cases hslash : c = '\\'
    · subst hslash
      cases ts with
      | nil => exact .backslash
      | cons u ts => cases hnext u rfl
    by_cases hhash : c = '#'
    · subst hhash
      exact .hash (numbers_chars hts hparted hnext)
    by_cases hmark : (c == '-' || isQuote c) = true
    · have hne : (chars ts).head? ≠ some c := by
        refine head?_chars_ne hmark hts fun u hu => ?_
        have hu := hnext u hu
        unfold Token.runsInto at hu
        dsimp only at hu
        rwa [if_neg (mt beq_iff_eq.mp hslash), if_neg (mt beq_iff_eq.mp hhash), hmark,
          Bool.true_and] at hu
      rw [Bool.or_eq_true, beq_iff_eq] at hmark
      rcases hmark with rfl | hquote
      · exact .hyphen hne
      · exact .quote hquote hne
    · have hspecial : c ∉ specials := notMem_specials.mpr ⟨hslash, hhash, hmark, ht.2⟩
      exact .plain (isPlain_iff.mpr ⟨ht.1, hspecial⟩)
  | active c =>
    have hc : c = '~' := ht
    subst hc
    exact .sign (c := '~') (by decide)
  | inert name => exact ht.elim
  | endOfInput => exact ht.elim
  | openGroup => exact .sign (c := '\x7b') (by decide)
  | closeGroup => exact .sign (c := '\x7d') (by decide)
  | mathShift => exact .sign (c := '$') (by decide)
  | alignTab => exact .sign (c := '&') (by decide)
  | superscript => exact .sign (c := '^') (by decide)
  | subscript => exact .sign (c := '_') (by decide)

/-- In front of a letter a printed control word is no lexeme of its own. -/
theorem not_lexeme_of_lengthens (h : t.Lengthens u) (hne : t.IsLexical) :
    ¬Lexeme (chars (t :: u :: ts)) t rest := by
  intro hlexeme
  obtain ⟨hword, hletter⟩ := h
  cases t with
  | control name =>
    cases u with
    | char c =>
      have hc : isNameLetter c = true := hletter
      have hchars : chars (.control name :: .char c :: ts) =
          '\\' :: (name.toList ++ c :: chars ts) := by
        rw [chars_cons, chars_cons, toList_control, toList_char]
        rfl
      rw [hchars] at hlexeme
      generalize htext : '\\' :: (name.toList ++ c :: chars ts) = cs at hlexeme
      cases hlexeme with
      | @word letters rest hne h hrest =>
        rw [String.toList_ofList] at htext
        have hrest' := List.append_cancel_left (List.cons.inj htext).2
        rw [← hrest'] at hrest
        exact Bool.false_ne_true (hrest.symm.trans hc)
      | @symbol d rest hd => exact Bool.false_ne_true ((all_symbolName hd).symm.trans hword)
      | sign h => simp [signs] at h
    | _ => cases hletter
  | _ => cases hword

/-- **Lists read back.** A list of lexical tokens whose neighbours are parted is read back from its
text if no control word in it has a letter behind it, and only then. By induction on the list. -/
theorem tokenize_chars_iff : ∀ ts : List Token, (∀ t ∈ ts, t.IsLexical) → ts.IsChain Token.Parted →
    (tokenize (chars ts) = ts ↔ ts.IsChain fun t u => ¬t.Lengthens u)
  | [], _, _ => ⟨fun _ => .nil, fun _ => rfl⟩
  | t :: ts, h, hparted => by
    obtain ⟨ht, hts⟩ := List.forall_mem_cons.mp h
    obtain ⟨hnext, hrest⟩ := List.isChain_cons.mp hparted
    rw [List.isChain_cons, ← tokenize_chars_iff ts hts hrest]
    have hstep : (∀ u, ts.head? = some u → ¬t.Lengthens u) →
        tokenize (chars (t :: ts)) = t :: tokenize (chars ts) := by
      intro hlengthens
      have hlexeme : Lexeme (chars (t :: ts)) t (chars ts) := by
        refine lexeme_chars h hrest fun u hu => ?_
        rw [Bool.eq_false_iff]
        exact fun hruns => hlengthens u hu (hnext u hu hruns)
      exact (Lexes.cons hlexeme (tokenize_eq_iff.mp rfl)).tokenize_eq
    constructor
    · intro hback
      have hlengthens : ∀ u, ts.head? = some u → ¬t.Lengthens u := by
        intro u hu hlong
        obtain ⟨us, rfl⟩ := List.head?_eq_some_iff.mp hu
        obtain ⟨rest, hlexeme⟩ := (tokenize_eq_iff.mp hback).lexeme
        exact not_lexeme_of_lengthens hlong ht hlexeme
      rw [hstep hlengthens] at hback
      exact ⟨hlengthens, (List.cons.inj hback).2⟩
    · rintro ⟨hlengthens, hback⟩
      rw [hstep hlengthens, hback]

end Lexer

open Lexer

/-- **Printing and reading.** The tokens of a text are read back from their own text if no control
word among them has a letter behind it, and only then. No space among them stands behind a space or
a control word, each of them is lexical, and there are no more of them than characters. -/
theorem printed_reads_back (s : String) :
    (tokenize (printed (tokenize s.toList)).toList = tokenize s.toList ↔
      (tokenize s.toList).IsChain fun t u => ¬t.Lengthens u) ∧
    (tokenize s.toList).IsChain (fun t u => u = .space → t ≠ .space ∧ t.isControlWord = false) ∧
    (∀ t ∈ tokenize s.toList, t.IsLexical) ∧
    (tokenize s.toList).length ≤ s.length := by
  have hlexes : Lexes s.toList (tokenize s.toList) := tokenize_eq_iff.mp rfl
  refine ⟨tokenize_chars_iff _ hlexes.isLexical hlexes.parted, ?_, hlexes.isLexical, ?_⟩
  · refine hlexes.parted.imp fun t u hparted => ?_
    rintro rfl
    have hspace : t.runsInto .space = false := by
      rw [Bool.eq_false_iff]
      intro hruns
      cases (hparted hruns).2
    refine ⟨?_, ?_⟩
    · rintro rfl
      cases hspace
    · cases t with
      | control name =>
        have hall : (name.toList.all isNameLetter && true) = false := hspace
        rwa [Bool.and_true] at hall
      | _ => rfl
  · rw [← String.length_toList]
    exact hlexes.length_le

/-- Blanks behind a control word are lost in print, and the letter behind them joins it. -/
example : (tokenize "\\if  x".toList, tokenize (printed (tokenize "\\if  x".toList)).toList) =
    ([.control "if", .char 'x'], [.control "ifx"]) := by
  decide

end ProofProse
