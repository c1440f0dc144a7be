import Mathlib.Data.List.TakeWhile
import ProofProse.Proofs.Comment

/-! # Gaps

A gap is what stands between two words or two paragraphs: blanks and line ends. Little of it reaches
the tokens. The margin of a line is not seen (`Source.readAlike_margin`), nor how many blank lines
there are (`Source.readAlike_blankLine`), nor a space before them (`Source.readAlike_space`). Such
texts are read alike behind every text that does not end in a backslash that escapes
(`Source.ReadAlike`), for behind such a text nothing is pending in the lexer that a blank does not
end.

With the comments left out, a line that holds only a comment differs in such gaps from no line at
all, so it makes the same tokens, and what a comment says makes none
(`Source.comment_lines_say_nothing`). -/

namespace ProofProse

namespace Source

open Lexer (IsSettled gapTokens isNameLetter lineBlanks machine output_blanks_append
  output_lineBlank)
open Text (isMargin)

variable {c : Char} {cs xs ys front blanks blanks' written taken : List Char}

/-! ### Texts that are read alike -/

/-- Two texts make the same tokens behind every text that does not end in a backslash that escapes.
-/
def ReadAlike (xs ys : List Char) : Prop :=
  ∀ front, backslashes front % 2 = 0 →
    tokenize (markParagraphs (front ++ xs)) = tokenize (markParagraphs (front ++ ys))

theorem Margins.backslashes_eq (h : Margins blanks) (front : List Char) :
    backslashes (front ++ '\n' :: blanks.reverse) = 0 := by
  cases blanks with
  | nil => exact backslashes_concat_of_ne (by decide) front
  | cons c blanks =>
    have hc : c ≠ '\\' := h.ne (by decide) List.mem_cons_self
    rw [List.reverse_cons, ← List.cons_append, ← List.append_assoc]
    exact backslashes_concat_of_ne hc _

theorem paragraphs_cons (mode : ParagraphMode) (c : Char) (cs : List Char) :
    paragraphs.output mode (c :: cs) =
      (paragraphStep mode c).2 ++ paragraphs.output (paragraphStep mode c).1 cs := rfl

theorem backslashes_mark (front : List Char) : backslashes (front ++ paragraphMark) = 0 := by
  have hmark : paragraphMark = " \\par".toList ++ [' '] := by decide
  rw [hmark, ← List.append_assoc]
  exact backslashes_concat_of_ne (by decide) _

/-- A step keeps the number of backslashes that a text ends in, with what is held written. -/
theorem backslashes_paragraphStep {mode : ParagraphMode} (hmode : Margins mode.held)
    (h : backslashes (written ++ paragraphEnd mode) = backslashes taken) :
    Margins (paragraphStep mode c).1.held ∧
      backslashes (written ++ (paragraphStep mode c).2 ++ paragraphEnd (paragraphStep mode c).1) =
        backslashes (taken ++ [c]) := by
  have hwrite : backslashes (written ++ (paragraphEnd mode ++ [c]) ++ []) =
      backslashes (taken ++ [c]) := by
    rw [List.append_nil, ← List.append_assoc, backslashes_concat, backslashes_concat, h]
  have hhold (hc : c ≠ '\\') {ds : List Char} (hds : backslashes (written ++ [] ++ ds) = 0) :
      backslashes (written ++ [] ++ ds) = backslashes (taken ++ [c]) :=
    hds.trans (backslashes_concat_of_ne hc taken).symm
  have hmargin (hc : isMargin c = true) : c ≠ '\\' := by
    rintro rfl
    cases hc
  have hline (hc : (c == '\n') = true) : c ≠ '\\' := by
    rw [beq_iff_eq.mp hc]
    decide
  cases mode with
  | line =>
    unfold paragraphStep
    dsimp only
    split
    · next hc =>
      have hheld : Margins [] := nofun
      exact ⟨hheld, hhold (hline hc) (hheld.backslashes_eq _)⟩
    · exact ⟨nofun, hwrite⟩
  | newline blanks =>
    unfold paragraphStep
    dsimp only
    split
    · next hc =>
      have hheld : Margins (c :: blanks) := hmode.cons hc
      exact ⟨hheld, hhold (hmargin hc) (hheld.backslashes_eq _)⟩
    split
    · next hc => exact ⟨nofun, hhold (hline hc) (backslashes_mark _)⟩
    · exact ⟨nofun, hwrite⟩
  | gap =>
    unfold paragraphStep
    dsimp only
    split
    · next hc =>
      rw [Bool.or_eq_true] at hc
      exact ⟨nofun, hhold (hc.elim hmargin hline) (backslashes_mark _)⟩
    · exact ⟨nofun, hwrite⟩

/-- Marking the paragraphs keeps the number of backslashes that a text ends in. -/
theorem backslashes_paragraphs : ∀ (cs : List Char) {mode : ParagraphMode}
    {written taken : List Char}, Margins mode.held →
    backslashes (written ++ paragraphEnd mode) = backslashes taken →
    backslashes (written ++ paragraphs.output mode cs) = backslashes (taken ++ cs)
  | [], _, _, _, _, h => by
    rw [List.append_nil]
    exact h
  | c :: cs, mode, written, taken, hmode, h => by
    obtain ⟨hnext, hstep⟩ := backslashes_paragraphStep (c := c) hmode h
    have hrest := backslashes_paragraphs cs hnext hstep
    rw [List.append_assoc, List.append_assoc] at hrest
    exact hrest

/-- In a line, what is pending behind the marked text is told by the end of the text. -/
theorem isSettled_after (hfront : backslashes front % 2 = 0)
    (hline : paragraphs.after .line front = .line) :
    IsSettled (machine.after .text (paragraphs.written .line front)) := by
  have houtput : backslashes ([] ++ paragraphs.output .line front) = backslashes ([] ++ front) :=
    backslashes_paragraphs front nofun rfl
  have hwritten : paragraphs.output .line front = paragraphs.written .line front := by
    rw [Text.Transducer.output_eq, hline]
    exact List.append_nil _
  rw [List.nil_append, List.nil_append, hwritten] at houtput
  exact (Lexer.after_backslashes _).2 (by rw [houtput, hfront])

/-- Two texts are read alike if they are read so in every mode of the reader of paragraphs and with
everything pending in the lexer that a blank can end. -/
theorem ReadAlike.of_modes (h : ∀ (mode : ParagraphMode) (pending : Lexer.Mode),
    (mode = .line → IsSettled pending) →
    machine.output pending (paragraphs.output mode xs) =
      machine.output pending (paragraphs.output mode ys)) : ReadAlike xs ys := by
  intro front hfront
  have hread (cs : List Char) : tokenize (markParagraphs (front ++ cs)) =
      machine.written .text (paragraphs.written .line front) ++
        machine.output (machine.after .text (paragraphs.written .line front))
          (paragraphs.output (paragraphs.after .line front) cs) := by
    rw [markParagraphs_eq_output, paragraphs.output_append, Lexer.tokenize_append]
  rw [hread xs, hread ys, h _ _ (isSettled_after hfront)]

/-! ### Gaps -/

theorem paragraphs_gap : ∀ {blanks : List Char}, Margins blanks →
    paragraphs.output .gap (blanks ++ cs) = paragraphs.output .gap cs
  | [], _ => rfl
  | c :: blanks, h => by
    obtain ⟨hc, hblanks⟩ := List.forall_mem_cons.mp h
    have hstep : paragraphStep .gap c = (.gap, []) := if_pos (by rw [hc]; rfl)
    rw [List.cons_append, paragraphs_cons, hstep]
    exact paragraphs_gap hblanks

theorem paragraphs_newline : ∀ {blanks : List Char}, Margins blanks → ∀ held : List Char,
    paragraphs.output (.newline held) (blanks ++ cs) =
      paragraphs.output (.newline (blanks.reverse ++ held)) cs
  | [], _, _ => rfl
  | c :: blanks, h, held => by
    obtain ⟨hc, hblanks⟩ := List.forall_mem_cons.mp h
    have hstep : paragraphStep (.newline held) c = (.newline (c :: held), []) := if_pos hc
    rw [List.cons_append, paragraphs_cons, hstep, List.nil_append, paragraphs_newline hblanks]
    simp

/-- A newline, blanks and a newline end the paragraph, wherever they stand. -/
theorem paragraphs_blankLine (h : Margins blanks) (mode : ParagraphMode) :
    paragraphs.output mode ('\n' :: (blanks ++ '\n' :: cs)) = paragraphs.output .gap cs := by
  have hgap : paragraphs.output .gap (blanks ++ '\n' :: cs) = paragraphs.output .gap cs :=
    paragraphs_gap h
  cases mode with
  | line =>
    show paragraphs.output (.newline []) (blanks ++ '\n' :: cs) = _
    rw [paragraphs_newline h]
    rfl
  | newline held => exact hgap
  | gap => exact hgap

theorem exists_paragraphs_gap : ∀ cs : List Char, ∃ rest,
    paragraphs.output .gap cs = ' ' :: rest
  | [] => ⟨_, rfl⟩
  | c :: cs => by
    rw [paragraphs_cons]
    unfold paragraphStep
    dsimp only
    split
    · exact exists_paragraphs_gap cs
    · exact ⟨_, rfl⟩

theorem Margins.mem_lineBlanks (h : Margins blanks) : ∀ c ∈ blanks, c ∈ lineBlanks := by
  intro c hc
  have hmargin := h c hc
  unfold Text.isMargin at hmargin
  rw [Bool.or_eq_true, beq_iff_eq, beq_iff_eq] at hmargin
  rcases hmargin with rfl | rfl
  · decide
  · decide

theorem Margins.isBlank (h : Margins blanks) : ∀ c ∈ blanks, Text.isBlank c = true :=
  fun c hc => Lexer.isBlank_of_mem_lineBlanks (h.mem_lineBlanks c hc)

theorem output_lineEnd {pending : Lexer.Mode} (hpending : IsSettled pending) (h : Margins blanks) :
    machine.output pending ('\n' :: blanks.reverse ++ cs) =
      gapTokens pending ++ machine.output .blanks cs := by
  rw [List.cons_append, output_lineBlank hpending (by decide),
    output_blanks_append h.reverse.isBlank]

/-- Which blanks are held behind a newline is not seen. By induction on the text, as long as the
line stays blank. -/
theorem output_newline {pending : Lexer.Mode} (hpending : IsSettled pending) :
    ∀ (cs : List Char) {blanks blanks' : List Char}, Margins blanks → Margins blanks' →
      machine.output pending (paragraphs.output (.newline blanks) cs) =
        machine.output pending (paragraphs.output (.newline blanks') cs)
  | [], blanks, blanks', h, h' => by
    show machine.output pending ('\n' :: blanks.reverse) =
      machine.output pending ('\n' :: blanks'.reverse)
    rw [← List.append_nil ('\n' :: blanks.reverse), ← List.append_nil ('\n' :: blanks'.reverse),
      output_lineEnd hpending h, output_lineEnd hpending h']
  | c :: cs, blanks, blanks', h, h' => by
    rw [paragraphs_cons, paragraphs_cons]
    unfold paragraphStep
    dsimp only
    split
    · next hc => exact output_newline hpending cs (h.cons hc) (h'.cons hc)
    split
    · rfl
    · show machine.output pending ('\n' :: blanks.reverse ++ [c] ++ paragraphs.output .line cs) =
        machine.output pending ('\n' :: blanks'.reverse ++ [c] ++ paragraphs.output .line cs)
      rw [List.append_assoc, List.append_assoc, output_lineEnd hpending h,
        output_lineEnd hpending h']

/-- **The margin of a line is not seen.** -/
theorem readAlike_margin (h : Margins blanks) (h' : Margins blanks') (cs : List Char) :
    ReadAlike ('\n' :: (blanks ++ cs)) ('\n' :: (blanks' ++ cs)) := by
  refine .of_modes fun mode pending hpending => ?_
  have hgap : paragraphs.output .gap (blanks ++ cs) = paragraphs.output .gap (blanks' ++ cs) := by
    rw [paragraphs_gap h, paragraphs_gap h']
  cases mode with
  | line =>
    show machine.output pending (paragraphs.output (.newline []) (blanks ++ cs)) =
      machine.output pending (paragraphs.output (.newline []) (blanks' ++ cs))
    rw [paragraphs_newline h, paragraphs_newline h', List.append_nil, List.append_nil]
    exact output_newline (hpending rfl) cs h.reverse h'.reverse
  | newline held => exact congrArg _ hgap
  | gap => exact congrArg _ hgap

/-- **Blank lines are not counted.** -/
theorem readAlike_blankLine (h : Margins blanks) (h' : Margins blanks') (cs : List Char) :
    ReadAlike ('\n' :: (blanks ++ '\n' :: (blanks' ++ '\n' :: cs)))
      ('\n' :: (blanks' ++ '\n' :: cs)) := by
  refine .of_modes fun mode pending _ => congrArg _ ?_
  have hgap : paragraphs.output .gap (blanks' ++ '\n' :: cs) = paragraphs.output .gap cs :=
    paragraphs_gap h'
  rw [paragraphs_blankLine h, paragraphs_blankLine h', hgap]

/-- **A space before a blank line is not seen.** -/
theorem readAlike_space (h : Margins blanks) (cs : List Char) :
    ReadAlike (' ' :: '\n' :: (blanks ++ '\n' :: cs)) ('\n' :: (blanks ++ '\n' :: cs)) := by
  refine .of_modes fun mode pending hpending => ?_
  have hbreak (mode : ParagraphMode) : paragraphs.output mode ('\n' :: (blanks ++ '\n' :: cs)) =
      paragraphs.output .gap cs := paragraphs_blankLine h mode
  cases mode with
  | line =>
    have hspace : paragraphs.output .line (' ' :: '\n' :: (blanks ++ '\n' :: cs)) =
        ' ' :: paragraphs.output .gap cs := congrArg (' ' :: ·) (hbreak .line)
    obtain ⟨rest, hrest⟩ := exists_paragraphs_gap cs
    rw [hspace, hbreak, hrest, output_lineBlank (hpending rfl) (by decide),
      output_lineBlank (hpending rfl) (by decide)]
    rfl
  | newline held =>
    refine congrArg _ ?_
    rw [hbreak]
    exact hbreak (.newline (' ' :: held))
  | gap =>
    refine congrArg _ ?_
    rw [hbreak]
    exact hbreak .gap

/-! ### Lines of a comment -/

theorem comments_lineBlank (hc : c ∈ lineBlanks) (word : Bool) :
    comments.output (.text word) (c :: cs) = c :: comments.output (.text false) cs := by
  have hall : (lineBlanks.all fun c => c != '\\' && c != '%' && !isNameLetter c) = true := by
    decide
  obtain ⟨hslash, hpercent, hletter⟩ : c ≠ '\\' ∧ c ≠ '%' ∧ isNameLetter c = false := by
    simpa [and_assoc] using List.all_eq_true.mp hall c hc
  have hstep : commentStep (.text word) c = (.text false, [c]) := by
    show commentText word c = _
    unfold commentText
    rw [if_neg (mt beq_iff_eq.mp hslash), if_neg (mt beq_iff_eq.mp hpercent), hletter,
      Bool.and_false]
  rw [comments_cons, hstep]
  rfl

theorem comments_blanks : ∀ {blanks : List Char}, Margins blanks →
    comments.output (.text false) (blanks ++ cs) = blanks ++ comments.output (.text false) cs
  | [], _ => rfl
  | c :: blanks, h => by
    have hmem : c ∈ lineBlanks := h.mem_lineBlanks c List.mem_cons_self
    rw [List.cons_append, comments_lineBlank hmem, comments_blanks (List.forall_mem_cons.mp h).2]
    rfl

/-- Behind a newline and blanks, the text behind a comment is read like the text itself. -/
theorem readAlike_behind_comment {b : List Char} (h : Margins blanks)
    (hb : b.dropWhile isMargin ≠ []) :
    ReadAlike ('\n' :: (blanks ++ comments.output (.margin false []) b))
      ('\n' :: comments.output (.text false) b) := by
  obtain ⟨margin, c, rest, hmargin, hc, rfl, -⟩ := exists_margin hb
  rw [comments_margin hmargin, comments_blanks hmargin]
  by_cases hline : c = '\n'
  · subst hline
    rw [comments_blankLine, comments_lineBlank (by decide), List.append_nil, List.reverse_reverse]
    exact readAlike_blankLine h hmargin _
  · rw [comments_line hc hline]
    exact readAlike_margin h hmargin _

theorem readAlike_commentLine {text b : List Char} (h : Margins blanks) (htext : '\n' ∉ text)
    (hb : b.dropWhile isMargin ≠ []) (word : Bool) :
    ReadAlike (comments.output (.text word) ('\n' :: (blanks ++ '%' :: (text ++ '\n' :: b))))
      (comments.output (.text word) ('\n' :: b)) := by
  have hcomment : comments.output (.text false) ('%' :: (text ++ '\n' :: b)) =
      comments.output (.margin false []) b := comments_comment htext
  rw [comments_lineBlank (by decide), comments_blanks h, hcomment, comments_lineBlank (by decide)]
  exact readAlike_behind_comment h hb

theorem readAlike_commentLine_of_comment {text b : List Char} (h : Margins blanks)
    (htext : '\n' ∉ text) (hb : b.dropWhile isMargin ≠ []) (word : Bool) :
    ReadAlike (comments.output (.comment word) ('\n' :: (blanks ++ '%' :: (text ++ '\n' :: b))))
      (comments.output (.comment word) ('\n' :: b)) := by
  have hline (cs : List Char) : comments.output (.comment word) ('\n' :: cs) =
      comments.output (.margin word []) cs := rfl
  have hcomment : comments.output (.text false) ('%' :: (text ++ '\n' :: b)) =
      comments.output (.margin false []) b := comments_comment htext
  obtain ⟨margin, c, rest, hmargin, hc, rfl, -⟩ := exists_margin hb
  rw [hline, hline, comments_margin h, comments_line (by decide) (by decide), hcomment,
    comments_margin hmargin, comments_margin hmargin]
  by_cases hnewline : c = '\n'
  · subst hnewline
    rw [comments_blankLine, comments_blankLine, comments_lineBlank (by decide), List.append_nil,
      List.reverse_reverse]
    cases word with
    | true => exact readAlike_space hmargin _
    | false => exact fun _ _ => rfl
  · rw [comments_line hc hnewline, comments_line hc hnewline]
    exact fun _ _ => rfl

/-- **A line that holds only a comment is not seen**, whatever it stands behind. -/
theorem tokenize_commentLine {a b text : List Char} (ha : backslashes a % 2 = 0)
    (h : Margins blanks) (htext : '\n' ∉ text) (hb : b.dropWhile isMargin ≠ []) :
    tokenize (markParagraphs
        (stripComments (a ++ '\n' :: (blanks ++ '%' :: (text ++ '\n' :: b))))) =
      tokenize (markParagraphs (stripComments (a ++ '\n' :: b))) := by
  have htells := tells_after a
  have heven := htells.even_written (escapes_after ha)
  rw [stripComments_append, stripComments_append]
  cases hmode : comments.after (.text false) a with
  | text word => exact readAlike_commentLine h htext hb word _ heven
  | escape =>
    have hescapes := escapes_after ha
    rw [hmode] at hescapes
    cases hescapes
  | comment word => exact readAlike_commentLine_of_comment h htext hb word _ heven
  | margin word held =>
    -- The line end makes the line before a blank one, and the text goes on.
    rw [hmode] at htells
    have hheld : Margins held := htells.margins
    have hzero := hheld.backslashes_eq (comments.written (.text false) a)
    rw [comments_blankLine, comments_blankLine, ← List.append_assoc, ← List.append_assoc]
    exact readAlike_commentLine h htext hb false _ (by rw [hzero])

/-- **Comments say nothing.** What a comment says changes nothing: neither in the text without
comments nor, where there are no carriage returns, in the tokens. And a line that holds only a
comment makes the same tokens as no line, if there is more than spaces and tabs behind it. -/
theorem comment_lines_say_nothing {a c c' : String} (b : String)
    (ha : backslashes a.toList % 2 = 0) (hc : '\n' ∉ c.toList) (hc' : '\n' ∉ c'.toList) :
    stripComments (a ++ "%" ++ c ++ "\n" ++ b).toList =
        stripComments (a ++ "%" ++ c' ++ "\n" ++ b).toList ∧
      ('\r' ∉ (a ++ c ++ c' ++ b).toList →
        (∀ path corrections, tokens (a ++ "%" ++ c ++ "\n" ++ b) path corrections =
          tokens (a ++ "%" ++ c' ++ "\n" ++ b) path corrections) ∧
        ∀ w path : String, (∀ d ∈ w.toList, isMargin d = true) →
          (∃ d ∈ b.toList, isMargin d = false) →
          tokens (a ++ "\n" ++ w ++ "%" ++ c ++ "\n" ++ b) path [] =
            tokens (a ++ "\n" ++ b) path []) := by
  have hcomment (text : String) : (a ++ "%" ++ text ++ "\n" ++ b).toList =
      a.toList ++ '%' :: (text.toList ++ '\n' :: b.toList) := by simp
  have hstrip : stripComments (a ++ "%" ++ c ++ "\n" ++ b).toList =
      stripComments (a ++ "%" ++ c' ++ "\n" ++ b).toList := by
    rw [hcomment, hcomment]
    exact stripComments_percent ha hc hc'
  refine ⟨hstrip, fun hreturns => ?_⟩
  simp only [String.toList_append, List.mem_append, not_or] at hreturns
  obtain ⟨⟨⟨hra, hrc⟩, hrc'⟩, hrb⟩ := hreturns
  constructor
  · intro path corrections
    unfold tokens prepare
    rw [unifyLineEnds_eq_self (by simp [hra, hrc, hrb]),
      unifyLineEnds_eq_self (by simp [hra, hrc', hrb]), hstrip]
  · intro w path hw hb
    have hrw : '\r' ∉ w.toList := fun hr => Bool.false_ne_true (hw _ hr)
    have hline : (a ++ "\n" ++ w ++ "%" ++ c ++ "\n" ++ b).toList =
        a.toList ++ '\n' :: (w.toList ++ '%' :: (c.toList ++ '\n' :: b.toList)) := by simp
    have hnone : (a ++ "\n" ++ b).toList = a.toList ++ '\n' :: b.toList := by simp
    have hmore : b.toList.dropWhile isMargin ≠ [] := by
      obtain ⟨d, hd, hmargin⟩ := hb
      intro hall
      exact Bool.false_ne_true (hmargin.symm.trans (List.dropWhile_eq_nil_iff.mp hall d hd))
    unfold tokens
    rw [prepare_nil, prepare_nil, unifyLineEnds_eq_self (by simp [hra, hrc, hrb, hrw]),
      unifyLineEnds_eq_self (by simp [hra, hrb]), hline, hnone]
    exact tokenize_commentLine ha hw hc hmore

/-- A comment of its own line between two lines of another paragraph. -/
theorem comment_line_before_a_blank_line :
    backslashes "\\item% one".toList % 2 = 0 ∧ '\n' ∉ " two\\".toList ∧ '\n' ∉ "".toList ∧
      '\r' ∉ ("\\item% one" ++ " two\\" ++ "" ++ "\n%\nx").toList ∧
      (∀ d ∈ " \t".toList, isMargin d = true) ∧ (∃ d ∈ "\n%\nx".toList, isMargin d = false) ∧
      tokens ("\\item% one" ++ "\n" ++ " \t" ++ "%" ++ " two\\" ++ "\n" ++ "\n%\nx") "x.tex" [] =
        tokens ("\\item% one" ++ "\n" ++ "\n%\nx") "x.tex" [] ∧
      tokens ("\\item% one" ++ "\n" ++ "\n%\nx") "x.tex" [] =
        [.control "item", .control "par", .char 'x'] := by
  have ha : backslashes "\\item% one".toList % 2 = 0 := by decide
  have hc : '\n' ∉ " two\\".toList := by decide
  have hc' : '\n' ∉ "".toList := by decide
  have hreturns : '\r' ∉ ("\\item% one" ++ " two\\" ++ "" ++ "\n%\nx").toList := by decide
  have hw : ∀ d ∈ " \t".toList, isMargin d = true := List.all_eq_true.mp (by decide)
  have hb : ∃ d ∈ "\n%\nx".toList, isMargin d = false := ⟨'x', by decide, by decide⟩
  refine ⟨ha, hc, hc', hreturns, hw, hb, ?_, by decide⟩
  exact ((comment_lines_say_nothing "\n%\nx" ha hc hc').2 hreturns).2 " \t" "x.tex" hw hb

end Source

end ProofProse
