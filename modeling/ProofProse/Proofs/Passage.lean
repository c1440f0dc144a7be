import ProofProse.Proofs.Gap
import ProofProse.Proofs.Spelling

/-! # Commands in prepared sources

A command with a group is not changed while a source is prepared, and what stands behind its closing
brace is prepared as it is alone (`Source.stripComments_front`, `Source.paragraphs_line`). Of the
text in front of a command that begins a line nothing depends on the command
(`Source.exists_stripped`, `Source.paragraphs_command`).

No pass makes a command out of the pieces of others. If `\end` is not written in a text, no
unescaped backslash stands in front of these letters in the prepared text (`Source.Unended`): where
something is left out behind a word, a blank or a newline is left there. So the command is not among
the tokens of the text either (`Source.exists_tokens_between`). -/

namespace ProofProse

namespace Source

open Lexer (isNameLetter EndsInWord Lexes Lexeme)
open Text (isMargin isBlank)

variable {c : Char} {cs rest front letters : List Char} {mode : CommentMode} {odd : Bool}

/-! ### Fronts that are not changed -/

/-- Stripping goes on behind a front that has no comment and ends neither in a word nor in a
backslash as it begins. -/
theorem stripComments_front (hfront : Uncommented front) (heven : backslashes front % 2 = 0)
    (hword : ¬EndsInWord front) (rest : List Char) :
    stripComments (front ++ rest) = front ++ stripComments rest := by
  obtain ⟨hwritten, word, hafter, hflag⟩ := after_of_uncommented hfront heven
  have hnone : word = false := Bool.eq_false_iff.mpr fun h => hword (hflag.mp h)
  rw [stripComments_append, hwritten, hafter, hnone, stripComments_eq_output]

theorem paragraphs_line (hline : '\n' ∉ front) (rest : List Char) :
    paragraphs.output .line (front ++ rest) = front ++ paragraphs.output .line rest := by
  induction front with
  | nil => rfl
  | cons c front ih =>
    have hc : c ≠ '\n' := (List.ne_of_not_mem_cons hline).symm
    have hstep : paragraphStep .line c = (.line, [c]) := if_neg (mt beq_iff_eq.mp hc)
    rw [List.cons_append, paragraphs_cons, hstep, ih (List.not_mem_of_not_mem_cons hline)]
    rfl

/-! ### In front of a command -/

/-- Behind a line end no backslash escapes, no comment goes on, and nothing is held. -/
theorem commentStep_newline (mode : CommentMode) :
    (commentStep mode '\n').1 = .text false ∨ ∃ word, (commentStep mode '\n').1 = .margin word [] := by
  cases mode with
  | text word =>
    have hletter : isNameLetter '\n' = false := by decide
    show CommentMode.text (word && isNameLetter '\n') = _ ∨ _
    rw [hletter, Bool.and_false]
    exact .inl rfl
  | escape => exact .inl rfl
  | comment word => exact .inr ⟨word, rfl⟩
  | margin word blanks => exact .inl rfl

/-- **In front of a command that begins a line** stripping leaves what does not depend on the command,
and no backslash that would escape it. -/
theorem exists_stripped (cs : List Char) : ∃ stripped, backslashes stripped % 2 = 0 ∧
    ∀ rest, stripComments (cs ++ '\n' :: '\\' :: rest) = stripped ++ stripComments ('\\' :: rest) := by
  have htells := tells_after (cs ++ ['\n'])
  have hmode : comments.after (.text false) (cs ++ ['\n']) =
      (commentStep (comments.after (.text false) cs) '\n').1 := comments.after_append cs ['\n'] _
  have hsplit (rest : List Char) : stripComments (cs ++ '\n' :: '\\' :: rest) =
      comments.written (.text false) (cs ++ ['\n']) ++
        comments.output (comments.after (.text false) (cs ++ ['\n'])) ('\\' :: rest) := by
    rw [← stripComments_append, List.append_assoc]
    rfl
  rcases commentStep_newline (comments.after (.text false) cs) with htext | ⟨word, hmargin⟩
  · refine ⟨_, htells.even_written (by rw [hmode, htext]; rfl), fun rest => ?_⟩
    rw [hsplit, hmode, htext, stripComments_eq_output]
  · refine ⟨comments.written (.text false) (cs ++ ['\n']) ++ (if word then [' '] else []), ?_,
      fun rest => ?_⟩
    · cases word with
      | true =>
        rw [if_pos rfl, backslashes_concat_of_ne (by decide)]
      | false =>
        rw [if_neg Bool.false_ne_true, List.append_nil]
        exact htells.even_written (by rw [hmode, hmargin]; rfl)
    · rw [hsplit, hmode, hmargin, comments_line (by decide) (by decide), List.append_assoc,
        stripComments_eq_output]

theorem paragraphs_command (cs rest : List Char) :
    paragraphs.output .line (cs ++ '\\' :: rest) =
      paragraphs.output .line cs ++ paragraphs.output .line ('\\' :: rest) := by
  have hslash (mode : ParagraphMode) : paragraphs.output mode ('\\' :: rest) =
      paragraphEnd mode ++ paragraphs.output .line ('\\' :: rest) := by
    rw [paragraphs_cons, paragraphs_cons .line]
    cases mode with
    | line => rfl
    | _ => exact List.append_assoc _ _ _
  rw [paragraphs.output_append, hslash, paragraphs.output_eq cs, List.append_assoc]
  rfl

/-! ### Texts in which nothing is ended -/

/-- The letters of the command that ends an environment. -/
def endLetters : List Char := "end".toList

/-- No command that begins with the letters of the one that ends an environment; `odd` tells that the
text before ends in a backslash that escapes. -/
def Unended (odd : Bool) : List Char → Prop
  | [] => True
  | c :: cs =>
    if c = '\\' then (odd = false → ¬endLetters <+: cs) ∧ Unended (!odd) cs else Unended false cs

theorem unended_cons (hc : c ≠ '\\') : Unended odd (c :: cs) ↔ Unended false cs := by
  rw [Unended, if_neg hc]

theorem unended_backslash :
    Unended odd ('\\' :: cs) ↔ (odd = false → ¬endLetters <+: cs) ∧ Unended (!odd) cs := by
  rw [Unended, if_pos rfl]

theorem unended_append (hne : front ≠ []) (hfront : '\\' ∉ front) :
    Unended odd (front ++ cs) ↔ Unended false cs := by
  induction front generalizing odd with
  | nil => exact absurd rfl hne
  | cons c front ih =>
    have hc : c ≠ '\\' := (List.ne_of_not_mem_cons hfront).symm
    rw [List.cons_append, unended_cons hc]
    by_cases hnil : front = []
    · rw [hnil, List.nil_append]
    · exact ih hnil (List.not_mem_of_not_mem_cons hfront)

theorem Unended.of_append : ∀ {front : List Char} {odd : Bool}, Unended odd (front ++ cs) →
    Unended odd front
  | [], _, _ => trivial
  | c :: front, odd, h => by
    rw [List.cons_append] at h
    unfold Unended at h ⊢
    split
    · next hc =>
      rw [if_pos hc] at h
      refine ⟨fun hodd hprefix => h.1 hodd ?_, h.2.of_append⟩
      exact hprefix.trans (List.prefix_append front cs)
    · next hc =>
      rw [if_neg hc] at h
      exact h.of_append

theorem isInfix_of_append_cons {word : List Char} (hc : c ∉ word)
    (h : word <:+: front ++ c :: rest) : word <:+: front ∨ word <:+: rest := by
  obtain ⟨before, behind, h⟩ := h
  rcases List.append_eq_append_iff.mp h with ⟨more, hfront, -⟩ | ⟨more, hmore, hrest⟩
  · exact .inl ⟨before, more, hfront.symm⟩
  cases more with
  | nil => exact .inl ⟨before, [], by rw [List.append_nil, hmore, List.append_nil]⟩
  | cons d more =>
    obtain ⟨rfl, rfl⟩ := List.cons.inj hrest
    rcases List.append_eq_append_iff.mp hmore with ⟨part, -, hword⟩ | ⟨part, -, hpart⟩
    · exact absurd (by rw [hword]; exact List.mem_append_right _ List.mem_cons_self) hc
    · cases part with
      | nil => exact absurd (by rw [← List.nil_append word, ← hpart]; exact List.mem_cons_self) hc
      | cons e part =>
        obtain ⟨-, rfl⟩ := List.cons.inj hpart
        exact .inr ⟨part, behind, rfl⟩

/-! ### Comments -/

/-- Where a comment was left out behind a word no letter is written first. -/
theorem head?_comments : ∀ (cs : List Char) (mode : CommentMode), mode.inText = false →
    mode.behindWord = true → (comments.output mode cs).head?.all (fun c => !isNameLetter c) = true
  | [], mode, hmode, _ => by
    cases mode with
    | margin word blanks => rfl
    | comment word => rfl
    | _ => cases hmode
  | c :: cs, mode, hmode, hword => by
    rw [comments_cons]
    cases mode with
    | text word => cases hmode
    | escape => cases hmode
    | comment word =>
      unfold commentStep
      dsimp only
      split
      · exact head?_comments cs _ rfl hword
      · exact head?_comments cs _ rfl hword
    | margin word blanks =>
      obtain rfl : word = true := hword
      unfold commentStep
      dsimp only
      split
      · exact head?_comments cs _ rfl rfl
      split
      · rfl
      · rfl

/-- Letters that are written behind a word or a backslash are written as they stand. -/
theorem isPrefix_of_comments : ∀ {letters cs : List Char} {mode : CommentMode},
    (∀ c ∈ letters, isNameLetter c = true) → mode = .text true ∨ mode = .escape →
    letters <+: comments.output mode cs → letters <+: cs
  | [], _, _, _, _, _ => List.nil_prefix
  | l :: letters, [], mode, _, hmode, h => by
    rcases hmode with rfl | rfl
    · exact absurd (List.prefix_nil.mp h) (List.cons_ne_nil _ _)
    · exact absurd (List.prefix_nil.mp h) (List.cons_ne_nil _ _)
  | l :: letters, c :: cs, mode, hletters, hmode, h => by
    obtain ⟨hl, hletters⟩ := List.forall_mem_cons.mp hletters
    have hwritten (h : l :: letters <+: c :: comments.output (.text (isNameLetter c)) cs) :
        l :: letters <+: c :: cs := by
      obtain ⟨rfl, h⟩ := List.cons_prefix_cons.mp h
      rw [hl] at h
      exact List.cons_prefix_cons.mpr ⟨rfl, isPrefix_of_comments hletters (.inl rfl) h⟩
    rcases hmode with rfl | rfl
    · rw [comments_cons] at h
      change l :: letters <+: (commentText true c).2 ++ comments.output (commentText true c).1 cs at h
      unfold commentText at h
      split at h
      · next hc =>
        obtain ⟨rfl, -⟩ := List.cons_prefix_cons.mp h
        rw [beq_iff_eq.mp hc] at hl
        exact absurd hl (by decide)
      split at h
      · have hhead := head?_comments cs (.comment true) rfl rfl
        obtain ⟨rest, hrest⟩ := h
        rw [List.nil_append] at hrest
        rw [← hrest, List.cons_append, List.head?_cons, Option.all_some, hl] at hhead
        cases hhead
      · exact hwritten h
    · exact hwritten h

theorem endLetters_letters : ∀ c ∈ endLetters, isNameLetter c = true :=
  List.all_eq_true.mp (by decide)

theorem unended_line {blanks : List Char} (h : Margins blanks) :
    Unended odd ('\n' :: blanks.reverse ++ cs) ↔ Unended false cs := by
  refine unended_append (List.cons_ne_nil _ _) fun hmem => ?_
  rcases List.mem_cons.mp hmem with hmem | hmem
  · cases hmem
  · exact h.reverse.ne (by decide) hmem rfl

/-- **No command is made of the texts around a comment**, by induction on the text. -/
theorem unended_comments : ∀ (cs : List Char) (mode : CommentMode), Margins mode.held →
    ¬('\\' :: endLetters <:+: cs) → Unended mode.escapes (comments.output mode cs)
  | [], mode, hmode, _ => by
    cases mode with
    | margin word blanks =>
      have hend : Unended false ('\n' :: blanks.reverse ++ []) := (unended_line hmode).mpr trivial
      rwa [List.append_nil] at hend
    | _ => trivial
  | c :: cs, mode, hmode, h => by
    have hcs : ¬('\\' :: endLetters <:+: cs) := fun hcs => h (List.infix_cons hcs)
    have hrest (mode : CommentMode) (hmode : Margins mode.held) :
        Unended mode.escapes (comments.output mode cs) := unended_comments cs mode hmode hcs
    have htext (word : Bool) : Unended false
        ((commentText word c).2 ++ comments.output (commentText word c).1 cs) := by
      unfold commentText
      split
      · next hc =>
        obtain rfl : c = '\\' := beq_iff_eq.mp hc
        refine unended_backslash.mpr ⟨fun _ hend => h ?_, hrest .escape nofun⟩
        have hprefix := isPrefix_of_comments endLetters_letters (.inr rfl) hend
        exact ((List.prefix_cons_inj _).mpr hprefix).isInfix
      split
      · exact hrest (.comment word) nofun
      · next hc _ => exact (unended_cons (mt beq_iff_eq.mpr hc)).mpr (hrest (.text _) nofun)
    rw [comments_cons]
    cases mode with
    | text word => exact htext word
    | escape =>
      have hbehind := hrest (.text (isNameLetter c)) nofun
      show Unended true (c :: comments.output (.text (isNameLetter c)) cs)
      unfold Unended
      split
      · exact ⟨nofun, hbehind⟩
      · exact hbehind
    | comment word =>
      unfold commentStep
      dsimp only
      split
      · exact hrest (.margin word []) nofun
      · exact hrest (.comment word) nofun
    | margin word blanks =>
      have hblanks : Margins blanks := hmode
      unfold commentStep
      dsimp only
      split
      · next hc => exact hrest (.margin word (c :: blanks)) (hblanks.cons hc)
      split
      · rw [List.append_assoc]
        exact (unended_line hblanks).mpr ((unended_cons (by decide)).mpr (hrest (.text false) nofun))
      · cases word with
        | true => exact (unended_cons (by decide)).mpr (htext false)
        | false => exact htext false

/-! ### Paragraphs -/

theorem head?_paragraphs : ∀ (cs : List Char) (mode : ParagraphMode), mode.inLine = false →
    (paragraphs.output mode cs).head?.all (fun c => !isNameLetter c) = true
  | [], mode, hmode => by
    cases mode with
    | line => cases hmode
    | newline blanks => rfl
    | gap => rfl
  | c :: cs, mode, hmode => by
    rw [paragraphs_cons]
    cases mode with
    | line => cases hmode
    | newline blanks =>
      unfold paragraphStep
      dsimp only
      split
      · exact head?_paragraphs cs _ rfl
      split
      · exact head?_paragraphs cs _ rfl
      · rfl
    | gap =>
      unfold paragraphStep
      dsimp only
      split
      · exact head?_paragraphs cs _ rfl
      · rfl

theorem not_isPrefix_of_head? {l : Char} (hl : isNameLetter l = true)
    (h : cs.head?.all (fun c => !isNameLetter c) = true) : ¬l :: letters <+: cs := by
  rintro ⟨rest, rfl⟩
  rw [List.cons_append, List.head?_cons, Option.all_some, hl] at h
  cases h

theorem isPrefix_of_paragraphs : ∀ {letters cs : List Char},
    (∀ c ∈ letters, isNameLetter c = true) → letters <+: paragraphs.output .line cs →
    letters <+: cs
  | [], _, _, _ => List.nil_prefix
  | l :: letters, [], _, h => absurd (List.prefix_nil.mp h) (List.cons_ne_nil _ _)
  | l :: letters, c :: cs, hletters, h => by
    obtain ⟨hl, hletters⟩ := List.forall_mem_cons.mp hletters
    rw [paragraphs_cons] at h
    unfold paragraphStep at h
    dsimp only at h
    split at h
    · exact absurd h (not_isPrefix_of_head? hl (head?_paragraphs cs _ rfl))
    · obtain ⟨rfl, h⟩ := List.cons_prefix_cons.mp h
      exact List.cons_prefix_cons.mpr ⟨rfl, isPrefix_of_paragraphs hletters h⟩

theorem unended_mark : Unended odd (paragraphMark ++ cs) ↔ Unended false cs := by
  show Unended odd (' ' :: '\\' :: ("par ".toList ++ cs)) ↔ _
  rw [unended_cons (by decide), unended_backslash, unended_append (by decide) (by decide)]
  refine and_iff_right fun _ hend => ?_
  exact absurd (List.cons_prefix_cons.mp hend).1 (by decide)

theorem Unended.cons_line (hrest : ∀ odd, Unended odd cs → Unended odd (paragraphs.output .line cs))
    (h : Unended odd (c :: cs)) : Unended odd (c :: paragraphs.output .line cs) := by
  unfold Unended at h ⊢
  split
  · next hc =>
    rw [if_pos hc] at h
    exact ⟨fun hodd hend => h.1 hodd (isPrefix_of_paragraphs endLetters_letters hend), hrest _ h.2⟩
  · next hc =>
    rw [if_neg hc] at h
    exact hrest _ h

/-- **No command is made of the texts around a blank line**, by induction on the text. -/
theorem unended_paragraphs : ∀ (cs : List Char) (mode : ParagraphMode) (odd : Bool),
    Margins mode.held → Unended (mode.inLine && odd) cs →
    Unended odd (paragraphs.output mode cs)
  | [], mode, odd, hmode, _ => by
    cases mode with
    | line => trivial
    | newline blanks =>
      have hend : Unended odd ('\n' :: blanks.reverse ++ []) := (unended_line hmode).mpr trivial
      rwa [List.append_nil] at hend
    | gap =>
      have hend : Unended odd (paragraphMark ++ []) := unended_mark.mpr trivial
      rwa [List.append_nil] at hend
  | c :: cs, mode, odd, hmode, h => by
    have hline (odd : Bool) (hcs : Unended odd cs) : Unended odd (paragraphs.output .line cs) :=
      unended_paragraphs cs .line odd nofun hcs
    have hblank (hc : isMargin c = true ∨ c = '\n') : Unended false cs := by
      refine (unended_cons ?_).mp h
      rintro rfl
      exact hc.elim nofun nofun
    rw [paragraphs_cons]
    cases mode with
    | line =>
      unfold paragraphStep
      dsimp only
      split
      · next hc =>
        exact unended_paragraphs cs (.newline []) odd nofun (hblank (.inr (beq_iff_eq.mp hc)))
      · exact Unended.cons_line hline h
    | newline blanks =>
      have hblanks : Margins blanks := hmode
      unfold paragraphStep
      dsimp only
      split
      · next hc =>
        exact unended_paragraphs cs (.newline (c :: blanks)) odd (hblanks.cons hc) (hblank (.inl hc))
      split
      · next hc => exact unended_paragraphs cs .gap odd nofun (hblank (.inr (beq_iff_eq.mp hc)))
      · rw [List.append_assoc]
        exact (unended_line hblanks).mpr (Unended.cons_line hline h)
    | gap =>
      unfold paragraphStep
      dsimp only
      split
      · next hc =>
        rw [Bool.or_eq_true, beq_iff_eq] at hc
        exact unended_paragraphs cs .gap odd nofun (hblank hc)
      · rw [List.append_assoc]
        exact unended_mark.mpr (Unended.cons_line hline h)

/-! ### Tokens -/

theorem Unended.dropWhile (h : Unended false cs) : Unended false (cs.dropWhile isBlank) := by
  by_cases hnil : cs.takeWhile isBlank = []
  · rwa [← List.takeWhile_append_dropWhile (p := isBlank) (l := cs), hnil, List.nil_append] at h
  · have hslash : '\\' ∉ cs.takeWhile isBlank := fun hmem =>
      absurd (List.all_eq_true.mp List.all_takeWhile _ hmem) (by decide)
    rw [← List.takeWhile_append_dropWhile (p := isBlank) (l := cs)] at h
    exact (unended_append hnil hslash).mp h

/-- A lexeme of such a text is no end of an environment, and leaves such a text. -/
theorem Unended.of_lexeme {t : Token} (hlexeme : Lexeme cs t rest) (h : Unended false cs) :
    t ≠ .control "end" ∧ Unended false rest := by
  have hone {c : Char} {cs : List Char} (hc : c ≠ '\\') (h : Unended false (c :: cs)) :
      Unended false cs := (unended_cons hc).mp h
  have hdigit {d : Char} (hd : Lexer.isParameterDigit d = true) : d ≠ '\\' := by
    rintro rfl
    cases hd
  have hquote {mark : Char} (hmark : Lexer.isQuote mark = true) : mark ≠ '\\' := by
    rintro rfl
    cases hmark
  cases hlexeme with
  | @blanks c rest hc =>
    refine ⟨nofun, ((unended_cons ?_).mp h).dropWhile⟩
    rintro rfl
    cases hc
  | @word letters rest hne hletters hrest =>
    have hslash : '\\' ∉ letters := fun hmem => absurd (hletters _ hmem) (by decide)
    obtain ⟨hend, hbehind⟩ := unended_backslash.mp h
    refine ⟨fun heq => hend rfl ?_, ((unended_append hne hslash).mp hbehind).dropWhile⟩
    have hname : letters = endLetters := by
      have hlist := congrArg String.toList (Token.control.inj heq)
      rwa [String.toList_ofList] at hlist
    rw [hname]
    exact List.prefix_append endLetters rest
  | @symbol c rest hc =>
    obtain ⟨-, hbehind⟩ := unended_backslash.mp h
    refine ⟨fun heq => ?_, ?_⟩
    · have hlength := congrArg (fun name : String => name.toList.length) (Token.control.inj heq)
      unfold Lexer.symbolName at hlength
      simp at hlength
    · unfold Unended at hbehind
      split at hbehind
      · exact hbehind.2
      · exact hbehind
  | backslash => exact ⟨nofun, trivial⟩
  | parameter hd => exact ⟨nofun, hone (hdigit hd) (hone (by decide) h)⟩
  | deferred hd => exact ⟨nofun, hone (hdigit hd) (hone (by decide) (hone (by decide) h))⟩
  | hash _ => exact ⟨nofun, hone (by decide) h⟩
  | hyphen _ => exact ⟨nofun, hone (by decide) h⟩
  | shortDash _ => exact ⟨nofun, hone (by decide) (hone (by decide) h)⟩
  | longDash => exact ⟨nofun, hone (by decide) (hone (by decide) (hone (by decide) h))⟩
  | quote hmark _ => exact ⟨nofun, hone (hquote hmark) h⟩
  | quotes hmark => exact ⟨nofun, hone (hquote hmark) (hone (hquote hmark) h)⟩
  | sign hsign =>
    have hsigns : ∀ p ∈ Lexer.signs, p.1 ≠ '\\' ∧ p.2 ≠ .control "end" := by decide
    obtain ⟨hc, ht⟩ := hsigns _ hsign
    exact ⟨ht, hone hc h⟩
  | plain hplain =>
    have hc := (Lexer.notMem_specials.mp (Lexer.isPlain_iff.mp hplain).2).1
    exact ⟨nofun, hone hc h⟩

theorem end_notMem_of_unended {tokens : List Token} (hlexes : Lexes cs tokens)
    (h : Unended false cs) : .control "end" ∉ tokens := by
  induction hlexes with
  | nil => exact List.not_mem_nil
  | cons hlexeme _ ih =>
    obtain ⟨hne, hrest⟩ := h.of_lexeme hlexeme
    exact List.not_mem_cons_of_ne_of_not_mem hne.symm (ih hrest)

/-- **What stands between two commands.** On lines of its own, a text becomes tokens that do not depend
on what the second command is, and in which nothing is ended if that is not written in the text. -/
theorem exists_tokens_between (content : List Char) (hend : ¬('\\' :: endLetters <:+: content)) :
    ∃ inside : List Token, .control "end" ∉ inside ∧ .endOfInput ∉ inside ∧ ∀ rest : List Char,
      tokenize (paragraphs.output .line
        (stripComments ('\n' :: (content ++ '\n' :: '\\' :: rest)))) =
      inside ++ tokenize (paragraphs.output .line (stripComments ('\\' :: rest))) := by
  obtain ⟨stripped, heven, hstripped⟩ := exists_stripped ('\n' :: content)
  refine ⟨tokenize (paragraphs.output .line stripped), ?_, fun hmem => ?_, fun rest => ?_⟩
  · -- A backslash behind the text makes the first pass write what it holds.
    have hline : ¬('\\' :: endLetters <:+: '\n' :: (content ++ '\n' :: ['\\'])) := fun h => by
      have hsplit : '\\' :: endLetters <:+: ('\n' :: content) ++ '\n' :: ['\\'] := h
      rcases isInfix_of_append_cons (by decide) hsplit with hfront | hlast
      · have hbegin : '\\' :: endLetters <:+: [] ++ '\n' :: content := hfront
        rcases isInfix_of_append_cons (by decide) hbegin with hnil | hcontent
        · exact absurd hnil.length_le (by decide)
        · exact hend hcontent
      · exact absurd hlast.length_le (by decide)
    have hwritten := unended_comments _ (.text false) nofun hline
    rw [← stripComments_eq_output] at hwritten
    have hsplit := hstripped []
    rw [List.cons_append] at hsplit
    rw [hsplit] at hwritten
    have hmarked := unended_paragraphs stripped .line false nofun hwritten.of_append
    exact end_notMem_of_unended (Lexer.tokenize_eq_iff.mp rfl) hmarked
  · exact (Lexer.tokenize_eq_iff.mp rfl).isLexical _ hmem
  · have hmarked : backslashes ([] ++ paragraphs.output .line stripped) =
        backslashes ([] ++ stripped) := backslashes_paragraphs stripped nofun rfl
    rw [List.nil_append, List.nil_append] at hmarked
    have hsplit := hstripped rest
    rw [List.cons_append] at hsplit
    have hescape : stripComments ('\\' :: rest) = '\\' :: comments.output .escape rest := by
      rw [stripComments_eq_output]
      rfl
    rw [hsplit, hescape, paragraphs_command]
    refine Lexer.tokenize_append_of_even (by rw [hmarked, heven]) ?_
    show Lexer.structural.contains '\\' = true
    decide

end Source

end ProofProse
