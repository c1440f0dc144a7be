import ProofProse.Proofs.Joint

/-! # Stripped comments

A text without its comments has no comment left, and stripping leaves a text as it is exactly if it
has none (`Source.stripping_once_is_enough`).

The reader of comments goes from left to right and remembers what it stands behind. That this is
what the texts taken and written so far end in is the invariant `Source.Tells`: every step keeps it
(`Source.Tells.step`), hence every run. In particular the flag of a mode tells whether the text
written so far ends in a control word, which is where the lexer has one pending. So the one space
that a comment leaves there is what ends the word (`Source.comments_part_words`). -/

namespace ProofProse

namespace Source

open Lexer (isNameLetter EndsInWord endsInWord_concat not_endsInWord_nil)
open Text (isMargin isBlank)

variable {c : Char} {a b cs blanks taken written : List Char} {word : Bool} {mode : CommentMode}

/-! ### Texts without comments -/

/-- No percent sign opens a comment: the number of backslashes before each of them is odd. -/
def Uncommented (cs : List Char) : Prop :=
  ∀ before behind, cs = before ++ '%' :: behind → backslashes before % 2 = 1

theorem uncommented_iff : Uncommented cs ↔ EscapedFrom false cs :=
  (escapedFrom_iff cs []).symm

theorem uncommented_stripComments (cs : List Char) : Uncommented (stripComments cs) :=
  uncommented_iff.mpr (escapedFrom_stripComments cs)

theorem stripComments_eq_iff : stripComments cs = cs ↔ Uncommented cs :=
  ⟨fun h => h ▸ uncommented_stripComments cs, fun h => stripComments_eq_self (uncommented_iff.mp h)⟩

/-- **Stripping once is enough.** A text without its comments has no comment, and is not changed by
stripping it again; the texts that stripping leaves as they are are those without comments. -/
theorem stripping_once_is_enough (cs : List Char) :
    Uncommented (stripComments cs) ∧ stripComments (stripComments cs) = stripComments cs ∧
      (stripComments cs = cs ↔ Uncommented cs) := by
  have hstripped := uncommented_stripComments cs
  exact ⟨hstripped, stripComments_eq_iff.mpr hstripped, stripComments_eq_iff⟩

/-- The comment goes with its line end, and the escaped percent sign stays. -/
example : stripComments "\\\\% one % \n  2\\% %\n".toList = "\\\\2\\% \n".toList := by decide

/-! ### What a mode tells -/

namespace CommentMode

/-- The text written so far ends in a control word. -/
def behindWord : CommentMode → Bool
  | text word => word
  | escape => false
  | comment word => word
  | margin word _ => word

/-- What is read now belongs to a comment. -/
def inComment : CommentMode → Bool
  | comment _ => true
  | _ => false

end CommentMode

/-- A mode tells what the text taken so far and the text written so far end in. -/
structure Tells (mode : CommentMode) (taken written : List Char) : Prop where
  /-- What is held back are blanks of a line. -/
  margins : Margins mode.held
  /-- Outside of comments the text taken ends in an odd number of backslashes if one escapes. -/
  odd_taken : mode.inComment = false → (mode.escapes = true ↔ backslashes taken % 2 = 1)
  /-- The text written ends in an odd number of backslashes if one escapes. -/
  odd_written : mode.escapes = true ↔ backslashes written % 2 = 1
  /-- The flag tells of a control word. -/
  endsInWord : mode.behindWord = true ↔ EndsInWord written

theorem tells_start : Tells (.text false) [] [] where
  margins := nofun
  odd_taken _ := ⟨nofun, nofun⟩
  odd_written := ⟨nofun, nofun⟩
  endsInWord := ⟨nofun, fun h => absurd h not_endsInWord_nil⟩

theorem Tells.even_taken (h : Tells mode taken written) (hcomment : mode.inComment = false)
    (hescape : mode.escapes = false) : backslashes taken % 2 = 0 :=
  Nat.mod_two_ne_one.mp fun hodd =>
    Bool.false_ne_true (hescape.symm.trans ((h.odd_taken hcomment).mpr hodd))

theorem Tells.even_written (h : Tells mode taken written) (hescape : mode.escapes = false) :
    backslashes written % 2 = 0 :=
  Nat.mod_two_ne_one.mp fun hodd =>
    Bool.false_ne_true (hescape.symm.trans (h.odd_written.mpr hodd))

theorem backslashes_concat_of_ne (h : c ≠ '\\') (cs : List Char) : backslashes (cs ++ [c]) = 0 := by
  rw [backslashes_concat, if_neg h]

theorem not_odd_concat (h : c ≠ '\\') (cs : List Char) : ¬backslashes (cs ++ [c]) % 2 = 1 := by
  rw [backslashes_concat_of_ne h]
  decide

theorem not_endsInWord_concat (h : isNameLetter c = false) (cs : List Char) :
    ¬EndsInWord (cs ++ [c]) := by
  rw [endsInWord_concat, h]
  exact fun hword => Bool.false_ne_true hword.1

/-- A step that writes nothing keeps the invariant, if its character is no backslash or belongs to a
comment. -/
theorem Tells.silent {mode' : CommentMode} (h : Tells mode taken written)
    (hmode : mode.escapes = false) (hmode' : mode'.escapes = false)
    (hword : mode'.behindWord = mode.behindWord) (hmargins : Margins mode'.held)
    (hc : mode'.inComment = true ∨ c ≠ '\\') : Tells mode' (taken ++ [c]) (written ++ []) := by
  have hnone (hodd : Prop) (hnot : ¬hodd) : mode'.escapes = true ↔ hodd := by
    rw [hmode']
    exact ⟨nofun, fun h => absurd h hnot⟩
  rw [List.append_nil]
  refine ⟨hmargins, fun hcomment => ?_, hnone _ ?_, hword ▸ h.endsInWord⟩
  · have hslash : c ≠ '\\' := hc.resolve_left (by rw [hcomment]; exact Bool.false_ne_true)
    exact hnone _ (not_odd_concat hslash taken)
  · exact Nat.mod_two_ne_one.mpr (h.even_written hmode)

/-- Where neither text ends in a backslash that escapes, a character of the text is read so. -/
theorem tells_commentText (htaken : backslashes taken % 2 = 0)
    (hwritten : backslashes written % 2 = 0) (hword : word = true ↔ EndsInWord written) :
    Tells (commentText word c).1 (taken ++ [c]) (written ++ (commentText word c).2) := by
  unfold commentText
  by_cases hslash : c = '\\'
  · rw [if_pos (beq_iff_eq.mpr hslash)]
    have hodd (cs : List Char) (hcs : backslashes cs % 2 = 0) :
        backslashes (cs ++ [c]) % 2 = 1 := by
      rw [backslashes_concat, if_pos hslash]
      omega
    have hletter : isNameLetter c = false := by rw [hslash]; decide
    exact ⟨nofun, fun _ => ⟨fun _ => hodd taken htaken, fun _ => rfl⟩,
      ⟨fun _ => hodd written hwritten, fun _ => rfl⟩,
      ⟨nofun, fun h => absurd h (not_endsInWord_concat hletter written)⟩⟩
  rw [if_neg (mt beq_iff_eq.mp hslash)]
  by_cases hpercent : c = '%'
  · rw [if_pos (beq_iff_eq.mpr hpercent), List.append_nil]
    exact ⟨nofun, nofun, ⟨nofun, fun h => by omega⟩, hword⟩
  · rw [if_neg (mt beq_iff_eq.mp hpercent)]
    refine ⟨nofun, fun _ => ⟨nofun, fun h => absurd h (not_odd_concat hslash taken)⟩,
      ⟨nofun, fun h => absurd h (not_odd_concat hslash written)⟩, ?_⟩
    show (word && isNameLetter c) = true ↔ EndsInWord (written ++ [c])
    rw [Bool.and_eq_true, endsInWord_concat, hword]
    have heven : ¬backslashes written % 2 = 1 := by omega
    tauto

/-- **A step keeps the invariant.** -/
theorem Tells.step (h : Tells mode taken written) (c : Char) :
    Tells (commentStep mode c).1 (taken ++ [c]) (written ++ (commentStep mode c).2) := by
  cases mode with
  | text word => exact tells_commentText (h.even_taken rfl rfl) (h.even_written rfl) h.endsInWord
  | escape =>
    have heven (cs : List Char) (hcs : backslashes cs % 2 = 1) :
        ¬backslashes (cs ++ [c]) % 2 = 1 := by
      rw [backslashes_concat]
      split <;> omega
    have htaken := (h.odd_taken rfl).mp rfl
    have hwritten := h.odd_written.mp rfl
    refine ⟨nofun, fun _ => ⟨nofun, fun hodd => absurd hodd (heven taken htaken)⟩,
      ⟨nofun, fun hodd => absurd hodd (heven written hwritten)⟩, ?_⟩
    show isNameLetter c = true ↔ EndsInWord (written ++ [c])
    rw [endsInWord_concat]
    exact ⟨fun hc => ⟨hc, .inl hwritten⟩, And.left⟩
  | comment word =>
    unfold commentStep
    dsimp only
    split
    · next hc =>
      have hslash : c ≠ '\\' := by rw [beq_iff_eq.mp hc]; decide
      exact h.silent rfl rfl rfl nofun (.inr hslash)
    · exact h.silent rfl rfl rfl nofun (.inl rfl)
  | margin word blanks =>
    have htaken := h.even_taken rfl rfl
    unfold commentStep
    dsimp only
    split
    · next hc =>
      have hslash : c ≠ '\\' := by
        rintro rfl
        cases hc
      exact h.silent rfl rfl rfl (h.margins.cons hc) (.inr hslash)
    split
    · next hc =>
      have hc : c = '\n' := beq_iff_eq.mp hc
      have hslash : c ≠ '\\' := by rw [hc]; decide
      have hletter : isNameLetter c = false := by rw [hc]; decide
      rw [← List.append_assoc, ← hc]
      exact ⟨nofun, fun _ => ⟨nofun, fun hodd => absurd hodd (not_odd_concat hslash taken)⟩,
        ⟨nofun, fun hodd => absurd hodd (not_odd_concat hslash _)⟩,
        ⟨nofun, fun hword => absurd hword (not_endsInWord_concat hletter _)⟩⟩
    · cases word with
      | true =>
        -- The space left behind the word stands between it and what is read now.
        have hspace : backslashes (written ++ [' ']) % 2 = 0 := by
          rw [backslashes_concat_of_ne (by decide)]
        have hword : false = true ↔ EndsInWord (written ++ [' ']) :=
          ⟨nofun, fun hword => absurd hword (not_endsInWord_concat (by decide) _)⟩
        have hnext := tells_commentText (c := c) htaken hspace hword
        rwa [List.append_assoc] at hnext
      | false => exact tells_commentText htaken (h.even_written rfl) h.endsInWord

theorem Tells.run : ∀ (cs : List Char) {mode : CommentMode} {taken written : List Char},
    Tells mode taken written →
    Tells (comments.after mode cs) (taken ++ cs) (written ++ comments.written mode cs)
  | [], _, _, _, h => by
    rw [List.append_nil]
    show Tells _ _ (_ ++ [])
    rwa [List.append_nil]
  | c :: cs, mode, taken, written, h => by
    have hrest := Tells.run cs (h.step c)
    rw [List.append_assoc, List.append_assoc] at hrest
    exact hrest

/-- **The mode behind a text** tells what the text ends in. -/
theorem tells_after (cs : List Char) :
    Tells (comments.after (.text false) cs) cs (comments.written (.text false) cs) :=
  tells_start.run cs

theorem escapes_after (h : backslashes cs % 2 = 0) :
    (comments.after (.text false) cs).escapes = false := by
  have htells := tells_after cs
  cases hmode : comments.after (.text false) cs with
  | escape =>
    rw [hmode] at htells
    have hodd := (htells.odd_taken rfl).mp rfl
    omega
  | _ => rfl

/-! ### What a comment takes with it -/

theorem comments_cons (mode : CommentMode) (c : Char) (cs : List Char) :
    comments.output mode (c :: cs) =
      (commentStep mode c).2 ++ comments.output (commentStep mode c).1 cs := rfl

theorem comments_comment : ∀ {text : List Char}, '\n' ∉ text →
    comments.output (.comment word) (text ++ '\n' :: b) = comments.output (.margin word []) b
  | [], _ => rfl
  | c :: text, h => by
    have hc : c ≠ '\n' := (List.ne_of_not_mem_cons h).symm
    have hstep : commentStep (.comment word) c = (.comment word, []) :=
      if_neg (mt beq_iff_eq.mp hc)
    rw [List.cons_append, comments_cons, hstep]
    exact comments_comment (List.not_mem_of_not_mem_cons h)

theorem comments_margin : ∀ {blanks : List Char}, Margins blanks → ∀ held : List Char,
    comments.output (.margin word held) (blanks ++ cs) =
      comments.output (.margin word (blanks.reverse ++ held)) cs
  | [], _, _ => rfl
  | c :: blanks, h, held => by
    obtain ⟨hc, hblanks⟩ := List.forall_mem_cons.mp h
    have hstep : commentStep (.margin word held) c = (.margin word (c :: held), []) := if_pos hc
    rw [List.cons_append, comments_cons, hstep, List.nil_append, comments_margin hblanks]
    simp

/-- In front of a blank line the line end of the comment is written, and what is held. -/
theorem comments_blankLine (held : List Char) :
    comments.output (.margin word held) ('\n' :: cs) =
      '\n' :: held.reverse ++ comments.output (.text false) ('\n' :: cs) := by
  have hstep : commentStep (.margin word held) '\n' =
      (.text false, '\n' :: held.reverse ++ ['\n']) := rfl
  have htext : commentStep (.text false) '\n' = (.text false, ['\n']) := rfl
  rw [comments_cons, hstep, comments_cons, htext, List.append_assoc]

/-- Of the line end and the margin only a space is left, and that only behind a control word. -/
theorem comments_line (hmargin : isMargin c = false) (hline : c ≠ '\n') (held : List Char) :
    comments.output (.margin word held) (c :: cs) =
      (if word then [' '] else []) ++ comments.output (.text false) (c :: cs) := by
  have hstep : commentStep (.margin word held) c =
      ((commentText false c).1, if word then ' ' :: (commentText false c).2
        else (commentText false c).2) := by
    unfold commentStep
    dsimp only
    rw [hmargin, if_neg Bool.false_ne_true, if_neg (mt beq_iff_eq.mp hline)]
  have htext : commentStep (.text false) c = commentText false c := rfl
  rw [comments_cons, hstep, comments_cons, htext]
  cases word <;> simp

/-- What a comment says is not written: behind a percent sign that is not escaped, what is written
depends on the text behind the line of the comment only. -/
theorem comments_percent (hmode : mode.escapes = false) : ∃ front word, ∀ text b : List Char,
    '\n' ∉ text → comments.output mode ('%' :: (text ++ '\n' :: b)) =
      front ++ comments.output (.margin word []) b := by
  cases mode with
  | text word => exact ⟨[], word, fun text b h => comments_comment h⟩
  | escape => cases hmode
  | comment word =>
    refine ⟨[], word, fun text b h => ?_⟩
    have hline : '\n' ∉ '%' :: text := List.not_mem_cons_of_ne_of_not_mem (by decide) h
    rw [← List.cons_append]
    exact comments_comment hline
  | margin word held =>
    refine ⟨if word then [' '] else [], false, fun text b h => ?_⟩
    rw [comments_line (by decide) (by decide)]
    exact congrArg _ (comments_comment h)

theorem stripComments_append (a b : List Char) : stripComments (a ++ b) =
    comments.written (.text false) a ++ comments.output (comments.after (.text false) a) b := by
  rw [stripComments_eq_output]
  exact comments.output_append a b (.text false)

theorem stripComments_percent {a b text text' : List Char} (ha : backslashes a % 2 = 0)
    (htext : '\n' ∉ text) (htext' : '\n' ∉ text') :
    stripComments (a ++ '%' :: (text ++ '\n' :: b)) =
      stripComments (a ++ '%' :: (text' ++ '\n' :: b)) := by
  obtain ⟨front, word, hpercent⟩ := comments_percent (escapes_after ha)
  rw [stripComments_append, stripComments_append, hpercent text b htext, hpercent text' b htext']

/-- Behind a text without comments the mode tells whether it ends in a control word. -/
theorem after_of_uncommented (ha : Uncommented a) (heven : backslashes a % 2 = 0) :
    comments.written (.text false) a = a ∧ ∃ word, comments.after (.text false) a = .text word ∧
      (word = true ↔ EndsInWord a) := by
  obtain ⟨hwritten, hafter⟩ := comments_of_escapedFrom a (.text false) rfl (uncommented_iff.mp ha)
  have htells := tells_after a
  rw [hwritten] at htells
  refine ⟨hwritten, ?_⟩
  have hescapes := escapes_after heven
  cases hmode : comments.after (.text false) a with
  | text word =>
    rw [hmode] at htells
    exact ⟨word, rfl, htells.endsInWord⟩
  | escape =>
    rw [hmode] at hescapes
    cases hescapes
  | comment word =>
    rw [hmode] at hafter
    cases hafter
  | margin word held =>
    rw [hmode] at hafter
    cases hafter

/-- A text that is not all blanks of a line begins with some of them and a character. -/
theorem exists_margin (h : b.dropWhile isMargin ≠ []) : ∃ margin c rest, Margins margin ∧
    isMargin c = false ∧ b = margin ++ c :: rest ∧ b.dropWhile isMargin = c :: rest := by
  obtain ⟨c, rest, hrest⟩ := List.exists_cons_of_ne_nil h
  have hmargin : isMargin c = false := by
    have hhead := Lexer.any_head?_dropWhile isMargin b
    rwa [hrest] at hhead
  refine ⟨b.takeWhile isMargin, c, rest, List.all_eq_true.mp List.all_takeWhile, hmargin, ?_, hrest⟩
  rw [← hrest, List.takeWhile_append_dropWhile]

/-- **A comment leaves one space behind a control word**, and nothing else of its line end and the
margin behind it. -/
theorem stripComments_of_endsInWord (ha : Uncommented a) (hword : EndsInWord a) {text : List Char}
    (htext : '\n' ∉ text) (hb : b.dropWhile isMargin ≠ [])
    (hline : (b.dropWhile isMargin).head? ≠ some '\n') :
    stripComments (a ++ '%' :: text ++ '\n' :: b) =
      a ++ ' ' :: stripComments (b.dropWhile isMargin) := by
  have heven : backslashes a % 2 = 0 := by rw [hword.backslashes_eq]
  obtain ⟨hwritten, word, hafter, hflag⟩ := after_of_uncommented ha heven
  obtain ⟨margin, c, rest, hmargin, hc, hsplit, hrest⟩ := exists_margin hb
  rw [hrest] at hline ⊢
  have hne : c ≠ '\n' := fun hc => hline (congrArg some hc)
  rw [List.append_assoc, stripComments_append, hwritten, hafter, hflag.mpr hword]
  show a ++ comments.output (.comment true) (text ++ '\n' :: b) = _
  rw [comments_comment htext, hsplit, comments_margin hmargin, comments_line hc hne,
    stripComments_eq_output]
  rfl

/-- **A comment parts a control word from the next line.** Behind a text without comments that ends
in a control word, a comment and the margin of the next line are read as the blank that ends the
word. -/
theorem comments_part_words {a text b : List Char} (ha : Uncommented a) (hword : EndsInWord a)
    (htext : '\n' ∉ text) (hb : b.dropWhile isMargin ≠ [])
    (hline : (b.dropWhile isMargin).head? ≠ some '\n') :
    tokenize (stripComments (a ++ '%' :: text ++ '\n' :: b)) =
      tokenize a ++ tokenize ((stripComments (b.dropWhile isMargin)).dropWhile isBlank) := by
  rw [stripComments_of_endsInWord ha hword htext hb hline]
  exact hword.tokenize_append_blank (by decide)

/-- A word behind a line break, and a next line that has a comment of its own. -/
theorem item_parted_from_the_next_line :
    Uncommented "\\\\\\item".toList ∧ EndsInWord "\\\\\\item".toList ∧ '\n' ∉ " one\\".toList ∧
      " \tem% two\nx".toList.dropWhile isMargin = "em% two\nx".toList ∧
      tokenize (stripComments
          ("\\\\\\item".toList ++ '%' :: " one\\".toList ++ '\n' :: " \tem% two\nx".toList)) =
        tokenize "\\\\\\item".toList ++
          tokenize ((stripComments "em% two\nx".toList).dropWhile isBlank) := by
  have ha : Uncommented "\\\\\\item".toList := stripComments_eq_iff.mp (by decide)
  have hword : EndsInWord "\\\\\\item".toList :=
    ⟨"\\\\\\".toList, "item".toList, by decide, by decide, by decide,
      List.all_eq_true.mp (by decide)⟩
  have htext : '\n' ∉ " one\\".toList := by decide
  have hb : " \tem% two\nx".toList.dropWhile isMargin = "em% two\nx".toList := by decide
  have hparted := comments_part_words ha hword htext (b := " \tem% two\nx".toList)
    (by rw [hb]; decide) (by rw [hb]; decide)
  rw [hb] at hparted
  exact ⟨ha, hword, htext, hb, hparted⟩

end Source

end ProofProse
