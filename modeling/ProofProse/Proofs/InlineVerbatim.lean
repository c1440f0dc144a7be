import ProofProse.Proofs.Spelling
import ProofProse.Proofs.Undefined

/-! # Verbatim text in a line

Verbatim text in a line stands between two marks. It is cut into lexemes before its command is known,
as all text is, and the command looks for the first token that is the mark. A backslash at the end
of the text takes the mark behind it into a control symbol, and quotation marks or hyphens may make
the mark themselves (`Lexer.ligatures`). Where neither happens exactly the text and its marks are passed
over, and what is behind them is read as it stands alone; else it never is, unless there is nothing
behind them (`Scan.inline_verbatim_is_passed_over_iff`). -/

namespace ProofProse

namespace Lexer

open Source (backslashes backslashes_concat)
open Text (isBlank)

variable {c mark : Char} {cs content rest : List Char} {t : Token} {ts : List Token}

/-- A character that verbatim text can stand between: it is a token of its own behind everything
but a backslash, and no star. -/
structure IsMark (mark : Char) : Prop where
  plain : isPlain mark = true
  noLetter : isNameLetter mark = false
  noDigit : isParameterDigit mark = false
  noStar : mark ≠ '*'

/-- The characters that two or three others are read as. -/
def ligatures : List Char := ['"', shortDash, longDash]

namespace IsMark

variable (h : IsMark mark)
include h

theorem ne_backslash : mark ≠ '\\' := (notMem_specials.mp (isPlain_iff.mp h.plain).2).1

theorem tokenize_append_of_even (heven : backslashes cs % 2 = 0) (rest : List Char) :
    tokenize (cs ++ mark :: rest) = tokenize cs ++ .char mark :: tokenize rest := by
  obtain ⟨hblank, hspecial⟩ := isPlain_iff.mp h.plain
  obtain ⟨-, hhash, hdouble, -⟩ := notMem_specials.mp hspecial
  rw [Bool.or_eq_true, not_or, beq_iff_eq, Bool.not_eq_true] at hdouble
  have hstep : step (machine.after .text cs) mark = restart (machine.after .text cs) mark := by
    rw [step_of_classes ((after_backslashes cs).2 heven)
      ⟨h.noLetter, h.noDigit, hhash, hdouble.1, hdouble.2⟩, hblank, if_neg Bool.false_ne_true]
  have houtput : machine.output (machine.after .text cs) (mark :: rest) =
      flush (machine.after .text cs) ++ machine.output .text (mark :: rest) :=
    output_pending fun c hc => Option.some.inj hc ▸ hstep
  rw [tokenize_append, houtput, ← tokenize_eq_output, tokenize_plain h.plain, tokenize_eq_written cs,
    List.append_assoc]

theorem exists_tokenize_of_odd (hodd : backslashes cs % 2 = 1) :
    ∃ front, cs = front ++ ['\\'] ∧ tokenize cs = tokenize front ++ [.char '\\'] ∧
      ∀ rest, tokenize (cs ++ mark :: rest) =
        tokenize front ++ .control (symbolName mark) :: tokenize rest := by
  obtain rfl | ⟨front, c, rfl⟩ := List.eq_nil_or_concat cs
  · cases hodd
  rw [List.concat_eq_append] at hodd ⊢
  rw [backslashes_concat] at hodd
  split at hodd
  · next hc =>
    subst hc
    have heven : backslashes front % 2 = 0 := by omega
    have hstart (rest : List Char) : ('\\' :: rest).head?.all structural.contains = true := by
      show structural.contains '\\' = true
      decide
    refine ⟨front, rfl, Lexer.tokenize_append_of_even heven (hstart []), fun rest => ?_⟩
    rw [List.append_assoc, List.singleton_append, Lexer.tokenize_append_of_even heven (hstart _)]
    exact congrArg (tokenize front ++ ·) (Lexeme.symbol h.noLetter).tokenize_eq
  · cases hodd

end IsMark

/-- What the text and the mark behind it are read as: some tokens, among which the mark is just if it
is among those of the text, and one more, which is the mark just if it is not escaped. -/
theorem IsMark.exists_front (h : IsMark mark) (content : List Char) : ∃ front x,
    (∀ rest, tokenize (content ++ mark :: rest) = front ++ x :: tokenize rest) ∧
      (.char mark ∈ front ↔ .char mark ∈ tokenize content) ∧
      (x = .char mark ∧ backslashes content % 2 = 0 ∧ front.length ≤ content.length ∨
        x ≠ .char mark ∧ backslashes content % 2 = 1 ∧ front.length < content.length) := by
  have hlength (cs : List Char) : (tokenize cs).length ≤ cs.length :=
    (tokenize_eq_iff.mp rfl).length_le
  rcases Nat.mod_two_eq_zero_or_one (backslashes content) with heven | hodd
  · exact ⟨tokenize content, .char mark, h.tokenize_append_of_even heven, Iff.rfl,
      .inl ⟨rfl, heven, hlength content⟩⟩
  · obtain ⟨front, hcontent, htokens, hrest⟩ := h.exists_tokenize_of_odd hodd
    refine ⟨tokenize front, .control (symbolName mark), hrest, ?_, .inr ⟨nofun, hodd, ?_⟩⟩
    · rw [htokens, List.mem_append, List.mem_singleton, Token.char.injEq]
      exact (or_iff_left h.ne_backslash).symm
    · rw [hcontent, List.length_append]
      exact Nat.lt_succ_of_le (hlength front)

/-! ### The characters that are read -/

theorem Lexeme.isSuffix (h : Lexeme cs t rest) : rest <:+ cs := by
  cases h with
  | blanks h => exact (List.dropWhile_suffix isBlank).trans (List.suffix_cons _ _)
  | @word letters rest hne h hrest =>
    exact (List.dropWhile_suffix isBlank).trans
      ((List.suffix_append letters rest).trans (List.suffix_cons _ _))
  | symbol h => exact ⟨['\\', _], rfl⟩
  | backslash => exact ⟨['\\'], rfl⟩
  | parameter h => exact ⟨['#', _], rfl⟩
  | deferred h => exact ⟨['#', '#', _], rfl⟩
  | shortDash h => exact ⟨['-', '-'], rfl⟩
  | longDash => exact ⟨['-', '-', '-'], rfl⟩
  | @quotes mark rest hmark => exact ⟨[mark, mark], rfl⟩
  | _ => exact List.suffix_cons _ _

/-- A character that is read stands in the text, or is read from others. -/
theorem Lexeme.mem_of_char (h : Lexeme cs (.char c) rest) : c ∈ cs ∨ c ∈ ligatures := by
  cases h with
  | backslash => exact .inl List.mem_cons_self
  | hash h => exact .inl List.mem_cons_self
  | hyphen h => exact .inl List.mem_cons_self
  | shortDash h => exact .inr (by decide)
  | longDash => exact .inr (by decide)
  | quote hmark h => exact .inl List.mem_cons_self
  | quotes hmark => exact .inr (by decide)
  | sign h =>
    have hsigns : ∀ p ∈ signs, ∀ c, p.2 ≠ .char c := by simp [signs]
    exact absurd rfl (hsigns _ h c)
  | plain h => exact .inl List.mem_cons_self

theorem Lexes.mem_of_char (h : Lexes cs ts) (hc : .char c ∈ ts) : c ∈ cs ∨ c ∈ ligatures := by
  induction h with
  | nil => cases hc
  | cons h _ ih =>
    rcases List.mem_cons.mp hc with rfl | hc
    · exact h.mem_of_char
    · exact (ih hc).imp_left fun hmem => h.isSuffix.subset hmem

theorem tokenize_ne_nil (h : cs ≠ []) : tokenize cs ≠ [] := by
  obtain ⟨c, cs, rfl⟩ := List.exists_cons_of_ne_nil h
  obtain ⟨t, rest, hlexeme⟩ := exists_lexeme c cs
  rw [hlexeme.tokenize_eq]
  exact List.cons_ne_nil _ _

end Lexer

open Lexer Source

/-! ### The search for the mark -/

section Search

variable {mark : Char} {front rest : List Token} {count left : Nat}

theorem inlineFrom_append (h : .char mark ∉ front) (hleft : front.length ≤ left) :
    inlineFrom mark count left (front ++ rest) =
      inlineFrom mark (count + front.length) (left - front.length) rest := by
  induction front generalizing count left with
  | nil => rfl
  | cons t front ih =>
    obtain ⟨left, rfl⟩ : ∃ k, left = k + 1 := ⟨left - 1, by simp at hleft; omega⟩
    rw [List.mem_cons, not_or] at h
    have ht : t.isChar mark = false := by
      cases t with
      | char c => exact beq_eq_false_iff_ne.mpr fun hc => h.1 (by rw [hc])
      | _ => rfl
    have hle : front.length ≤ left := by simpa using hleft
    have hstep : inlineFrom mark count (left + 1) (t :: (front ++ rest)) =
        inlineFrom mark (count + 1) left (front ++ rest) := if_neg (by rw [ht]; exact nofun)
    rw [List.cons_append, hstep, ih h.2 hle, List.length_cons, Nat.add_sub_add_right,
      Nat.add_assoc, Nat.add_comm 1]

theorem inlineFrom_found (h : .char mark ∉ front) (hleft : front.length < left) :
    inlineFrom mark count left (front ++ .char mark :: rest) =
      ⟨(), rest, count + front.length + 1, 0⟩ := by
  obtain ⟨k, hk⟩ : ∃ k, left - front.length = k + 1 := ⟨left - front.length - 1, by omega⟩
  rw [inlineFrom_append h hleft.le, hk]
  exact if_pos (beq_self_eq_true mark)

theorem length_inlineFrom (hne : rest ≠ []) (hleft : 0 < left) :
    (inlineFrom mark count left rest).rest.length < rest.length := by
  obtain ⟨t, rest, rfl⟩ := List.exists_cons_of_ne_nil hne
  obtain ⟨left, rfl⟩ : ∃ k, left = k + 1 := ⟨left - 1, by omega⟩
  unfold inlineFrom
  split
  · exact Nat.lt_succ_self _
  · exact Nat.lt_succ_of_le (passes_inlineFrom mark left rest (count + 1)).suffix.length_le

end Search

namespace Scan

variable {setting : Setting} {nested : Frame → Scan Flow} {frame : Frame} {s : State} {mark : Char}
  {starred : Bool} {content behind : List Char}

/-- Verbatim text in a line, with what stands behind it. -/
def inlineVerbatim (starred : Bool) (mark : Char) (content behind : List Char) : List Char :=
  "\\verb".toList ++ ((if starred then ['*'] else []) ++ mark :: (content ++ mark :: behind))

theorem tokenize_inlineVerbatim (hmark : IsMark mark) (starred : Bool) (content behind : List Char) :
    tokenize (inlineVerbatim starred mark content behind) =
      .control "verb" :: ((if starred then [.char '*'] else []) ++
        .char mark :: tokenize (content ++ mark :: behind)) := by
  have hblank := (isPlain_iff.mp hmark.plain).1
  have hletters : ∀ c ∈ "verb".toList, isNameLetter c = true := List.all_eq_true.mp (by decide)
  have hstar : isPlain '*' = true := by decide
  cases starred with
  | false =>
    have hword : tokenize ('\\' :: ("verb".toList ++ mark :: (content ++ mark :: behind))) = _ :=
      tokenize_word (by decide) hletters hmark.noLetter
    rw [List.dropWhile_cons, hblank, if_neg Bool.false_ne_true, tokenize_plain hmark.plain] at hword
    exact hword
  | true =>
    have hword : tokenize ('\\' :: ("verb".toList ++ '*' :: mark :: (content ++ mark :: behind))) =
        _ := tokenize_word (by decide) hletters (by rfl)
    rw [List.dropWhile_cons, if_neg (by decide), tokenize_plain hstar, tokenize_plain hmark.plain]
      at hword
    exact hword

theorem readInlineVerbatim_eq (hmark : IsMark mark) (starred : Bool) (tokens : List Token) :
    ∃ count, readInlineVerbatim ((if starred then [.char '*'] else []) ++ .char mark :: tokens) =
      inlineFrom mark count inlineLimit tokens := by
  cases starred with
  | false =>
    have hstart : (Stream.ofList (.char mark :: tokens)).skipChar '*' =
        Stream.ofList (.char mark :: tokens) :=
      if_neg (mt beq_iff_eq.mp hmark.noStar)
    refine ⟨1, ?_⟩
    unfold readInlineVerbatim
    rw [if_neg Bool.false_ne_true, List.nil_append, hstart]
    rfl
  | true => exact ⟨2, rfl⟩

theorem fileEnds_inlineFrom (mark : Char) : ∀ (left count : Nat) (tokens : List Token),
    (inlineFrom mark count left tokens).fileEnds = 0
  | 0, _, _ => rfl
  | _ + 1, _, [] => rfl
  | left + 1, count, t :: rest => by
    unfold inlineFrom
    split
    · rfl
    · exact fileEnds_inlineFrom mark left (count + 1) rest

theorem round_inlineVerbatim (hmark : IsMark mark) (starred : Bool) (content behind : List Char) :
    ∃ n count, round setting nested frame
        (s.facing (tokenize (inlineVerbatim starred mark content behind))) =
      .ok .goOn (s.past n
        (inlineFrom mark count inlineLimit (tokenize (content ++ mark :: behind))).rest) := by
  have hverb : Structural.ofName? "verb" = some .verbatim := Structural.ofName?_of_mem (by decide)
  have hclosed : frame.closedBy "verb" = false := by cases frame <;> rfl
  obtain ⟨count, hread⟩ := readInlineVerbatim_eq hmark starred (tokenize (content ++ mark :: behind))
  rw [tokenize_inlineVerbatim hmark, round_cons rfl]
  refine ⟨(inlineFrom mark count inlineLimit (tokenize (content ++ mark :: behind))).count + 1,
    count, ?_⟩
  show command setting nested frame "verb" _ = _
  unfold command
  rw [hclosed, if_neg Bool.false_ne_true, hverb]
  show goingOn (take fun _ => readInlineVerbatim) _ = _
  unfold goingOn
  rw [bind_ok (take_of_eq _ _ hread), fileEnds_inlineFrom, ← State.past_past s 1 _ []]
  rfl

/-- **What the search leaves.** By cases of where the first mark is: among the tokens of the text,
right behind them, or escaped. -/
theorem rest_inlineFrom_iff (hmark : IsMark mark) (hlength : content.length < inlineLimit)
    (count : Nat) (behind : List Char) :
    (inlineFrom mark count inlineLimit (tokenize (content ++ mark :: behind))).rest =
        tokenize behind ↔
      .char mark ∉ tokenize content ∧ (backslashes content % 2 = 0 ∨ behind = []) := by
  obtain ⟨front, x, htokens, hmem, hx⟩ := hmark.exists_front content
  have hfront : front.length < inlineLimit := by omega
  rw [htokens behind, ← hmem]
  by_cases hin : .char mark ∈ front
  · obtain ⟨before, after, rfl, hbefore⟩ := List.eq_append_cons_of_mem hin
    have hshort : before.length < inlineLimit := by
      rw [List.length_append] at hfront
      omega
    rw [List.append_assoc, List.cons_append, inlineFrom_found hbefore hshort]
    refine ⟨fun h => ?_, fun h => absurd hin h.1⟩
    have hlonger := congrArg List.length h
    simp only [List.length_append, List.length_cons] at hlonger
    omega
  rcases hx with ⟨rfl, heven, -⟩ | ⟨hne, hodd, hlt⟩
  · rw [inlineFrom_found hin hfront]
    exact ⟨fun _ => ⟨hin, .inl heven⟩, fun _ => rfl⟩
  · have hpassed : .char mark ∉ front ++ [x] := by
      rw [List.mem_append, List.mem_singleton, not_or]
      exact ⟨hin, hne.symm⟩
    have hjoin : front ++ x :: tokenize behind = front ++ [x] ++ tokenize behind := by simp
    have hle : (front ++ [x]).length < inlineLimit := by
      rw [List.length_append, List.length_singleton]
      omega
    rw [hjoin, inlineFrom_append hpassed hle.le]
    have hparity : ¬backslashes content % 2 = 0 := by omega
    by_cases hbehind : behind = []
    · subst hbehind
      refine ⟨fun _ => ⟨hin, .inr rfl⟩, fun _ => ?_⟩
      obtain ⟨k, hk⟩ : ∃ k, inlineLimit - (front ++ [x]).length = k + 1 :=
        ⟨inlineLimit - (front ++ [x]).length - 1, by omega⟩
      rw [hk]
      rfl
    · refine ⟨fun h => ?_, fun h => (h.2.elim hparity hbehind).elim⟩
      have hshorter : (inlineFrom mark (count + (front ++ [x]).length) _ (tokenize behind)).rest.length <
          _ := length_inlineFrom (tokenize_ne_nil hbehind) (Nat.sub_pos_of_lt hle)
      rw [h] at hshorter
      exact absurd hshorter (Nat.lt_irrefl _)

/-- The command leaves what is behind the text just if the search does. -/
theorem passedOver_iff (hmark : IsMark mark) (starred : Bool) (hlength : content.length < inlineLimit)
    (behind : List Char) :
    (∃ n, round setting nested frame
        (s.facing (tokenize (inlineVerbatim starred mark content behind))) =
          .ok .goOn (s.past n (tokenize behind))) ↔
      .char mark ∉ tokenize content ∧ (backslashes content % 2 = 0 ∨ behind = []) := by
  obtain ⟨n, count, hround⟩ : ∃ n count, round setting nested frame (s.facing _) = _ :=
    round_inlineVerbatim hmark starred content behind
  rw [hround, ← rest_inlineFrom_iff hmark hlength count behind]
  constructor
  · rintro ⟨m, h⟩
    injection h with _ hstate
    exact congrArg (fun t : State => t.stream.ahead) hstate
  · intro h
    exact ⟨n, by rw [h]⟩

/-- **Verbatim text in a line is passed over as it is written** if it does not make its mark and does
not escape it. Then behind the text and its marks the source is read as it stands alone, and nothing
else is changed. If it makes the mark, or escapes it where more is to come, something else is left
ahead. Only a double quote or a dash can be made. -/
theorem inline_verbatim_is_passed_over_iff (setting : Setting) (nested : Frame → Scan Flow)
    (frame : Frame) (s : State) (hmark : IsMark mark) (starred : Bool) (hcontent : mark ∉ content)
    (hlength : content.length < inlineLimit) (behind : List Char) :
    ((∃ n, round setting nested frame
        (s.facing (tokenize (inlineVerbatim starred mark content behind))) =
          .ok .goOn (s.past n (tokenize behind))) ↔
      .char mark ∉ tokenize content ∧ (backslashes content % 2 = 0 ∨ behind = [])) ∧
    (.char mark ∈ tokenize content → mark ∈ ligatures) :=
  ⟨passedOver_iff hmark starred hlength behind,
    fun h => ((tokenize_eq_iff.mp rfl).mem_of_char h).resolve_left hcontent⟩

/-! ### Bars and quotes -/

theorem isMark_bar : IsMark '|' := ⟨by decide, by decide, by decide, by decide⟩

theorem isMark_doubleQuote : IsMark '"' := ⟨by decide, by decide, by decide, by decide⟩

/-- Unbalanced braces and dollar signs between bars. -/
theorem verbatim_between_bars :
    IsMark '|' ∧ '|' ∉ "a\\\x7b$^2".toList ∧ "a\\\x7b$^2".toList.length < inlineLimit ∧
      ∃ n, round ⟨.standard, .empty⟩ (fun _ => pure .goOn) .file
          ((State.start "main.tex" []).facing
            (tokenize (inlineVerbatim true '|' "a\\\x7b$^2".toList "y".toList))) =
        .ok .goOn ((State.start "main.tex" []).past n (tokenize "y".toList)) := by
  have hcontent : '|' ∉ "a\\\x7b$^2".toList := by decide
  have hlength : "a\\\x7b$^2".toList.length < inlineLimit := by decide
  have hread := inline_verbatim_is_passed_over_iff ⟨.standard, .empty⟩ (fun _ => pure .goOn) .file
    (State.start "main.tex" []) isMark_bar true hcontent hlength "y".toList
  exact ⟨isMark_bar, hcontent, hlength, hread.1.mpr (by decide)⟩

/-- A backslash hides the bar behind it, and two apostrophes are taken for the double quote. -/
theorem closing_marks_missed :
    ¬(∃ n, round ⟨.standard, .empty⟩ (fun _ => pure .goOn) .file
        ((State.start "main.tex" []).facing
          (tokenize (inlineVerbatim false '|' "\\".toList "x".toList))) =
        .ok .goOn ((State.start "main.tex" []).past n (tokenize "x".toList))) ∧
    ¬(∃ n, round ⟨.standard, .empty⟩ (fun _ => pure .goOn) .file
        ((State.start "main.tex" []).facing
          (tokenize (inlineVerbatim false '"' "''".toList "x".toList))) =
        .ok .goOn ((State.start "main.tex" []).past n (tokenize "x".toList))) := by
  refine ⟨fun h => ?_, fun h => ?_⟩
  · have hbar := (passedOver_iff isMark_bar false (by decide) "x".toList).mp h
    revert hbar
    decide
  · have hquote := (passedOver_iff isMark_doubleQuote false (by decide) "x".toList).mp h
    revert hquote
    decide

end Scan

end ProofProse
