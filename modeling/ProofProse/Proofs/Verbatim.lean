import ProofProse.Proofs.Edge
import ProofProse.Proofs.Passage

/-! # Verbatim environments

The content of a verbatim environment is prepared and cut into tokens as all text is, and only then
passed over. Whatever it holds, unless it is `\end`, its tokens end no environment, and the two
commands around it and the text behind it are read as they are without it
(`tokens_verbatimText`). So the reader of verbatim text, which looks for the end of the
environment only, passes over exactly the content (`verbatimFrom_inside`), and nothing of it is
carried out (`Scan.verbatim_environments_are_opaque`). -/

namespace ProofProse

open Lexer (isNameLetter isPlain EndsInWord)
open Source
open Scan (environmentTokens)

variable {name command : String} {cs rest : List Char}

/-! ### The names -/

/-- The characters of the name of an environment that change nothing in front of them or behind. -/
structure IsNeutral (c : Char) : Prop where
  plain : isPlain c = true
  noPercent : c ≠ '%'
  noLineEnd : c ≠ '\n'
  noReturn : c ≠ '\r'

theorem mem_unstarred {c : Char} (h : c ∈ name.toList) : c = '*' ∨ c ∈ (unstarred name).toList := by
  have hsplit := List.takeWhile_append_dropWhile (p := (· == '*')) (l := name.toList.reverse)
  have hmem : c ∈ name.toList.reverse := List.mem_reverse.mpr h
  rw [← hsplit] at hmem
  unfold unstarred
  rw [String.toList_ofList, List.mem_reverse]
  refine (List.mem_append.mp hmem).imp_left fun hstar => ?_
  exact beq_iff_eq.mp (List.all_eq_true.mp List.all_takeWhile c hstar)

/-- The name of a verbatim environment is none of a proof, and made of letters and stars. -/
theorem chars_of_verbatim (h : EnvironmentClass.ofName name = .verbatim) :
    isProofName name = false ∧ name ≠ "" ∧ ∀ c ∈ name.toList, IsNeutral c := by
  have hletters : ∀ base ∈ EnvironmentClass.verbatimNames, base ≠ "" ∧
      (base.toList.all fun c => isPlain c && c != '%' && c != '\n' && c != '\r') = true := by
    decide
  have hstar : isPlain '*' = true := by decide
  unfold EnvironmentClass.ofName at h
  dsimp only at h
  split at h
  · cases h
  next hproof =>
  split at h
  · cases h
  split at h
  · cases h
  split at h
  next hbase =>
    obtain ⟨hne, hbase⟩ := hletters _ (List.contains_iff_mem.mp hbase)
    refine ⟨Bool.eq_false_iff.mpr hproof, ?_, fun c hc => ?_⟩
    · rintro rfl
      exact hne (by decide)
    · rcases mem_unstarred hc with rfl | hc
      · exact ⟨hstar, by decide, by decide, by decide⟩
      · obtain ⟨hplain, hpercent, hline, hreturn⟩ :
            isPlain c = true ∧ c ≠ '%' ∧ c ≠ '\n' ∧ c ≠ '\r' := by
          simpa [and_assoc] using List.all_eq_true.mp hbase c hc
        exact ⟨hplain, hpercent, hline, hreturn⟩
  · cases h

/-! ### The commands -/

/-- The commands of environments. -/
def environmentCommands : List String := ["begin", "end"]

/-- A command with the name of an environment, in a source. -/
def environmentText (command name : String) : List Char :=
  '\\' :: (command.toList ++ '\x7b' :: (name.toList ++ ['\x7d']))

theorem mem_environmentText (hcommand : command ∈ environmentCommands)
    (hname : ∀ c ∈ name.toList, IsNeutral c) {c : Char} (h : c ∈ environmentText command name) :
    c ≠ '%' ∧ c ≠ '\n' ∧ c ≠ '\r' := by
  have hletters : ∀ command ∈ environmentCommands,
      (('\\' :: command.toList ++ ['\x7b', '\x7d']).all
        fun c => c != '%' && c != '\n' && c != '\r') = true := by decide
  have hin : c ∈ '\\' :: command.toList ++ ['\x7b', '\x7d'] ∨ c ∈ name.toList := by
    simp only [environmentText, List.mem_cons, List.mem_append, List.not_mem_nil, or_false] at h ⊢
    tauto
  rcases hin with hin | hin
  · simpa [and_assoc] using List.all_eq_true.mp (hletters command hcommand) c hin
  · exact ⟨(hname c hin).noPercent, (hname c hin).noLineEnd, (hname c hin).noReturn⟩

theorem stripComments_environmentText (hcommand : command ∈ environmentCommands)
    (hname : ∀ c ∈ name.toList, IsNeutral c) (rest : List Char) :
    stripComments (environmentText command name ++ rest) =
      environmentText command name ++ stripComments rest := by
  have hpercent : Uncommented (environmentText command name) := fun before behind h =>
    absurd rfl (mem_environmentText hcommand hname (by rw [h]; simp)).1
  have hend : environmentText command name =
      ('\\' :: (command.toList ++ '\x7b' :: name.toList)) ++ ['\x7d'] := by
    simp [environmentText]
  refine stripComments_front hpercent ?_ ?_ rest
  · rw [hend, backslashes_concat_of_ne (by decide)]
  · rw [hend]
    exact not_endsInWord_concat (by decide) _

theorem paragraphs_environmentText (hcommand : command ∈ environmentCommands)
    (hname : ∀ c ∈ name.toList, IsNeutral c) (rest : List Char) :
    paragraphs.output .line (environmentText command name ++ rest) =
      environmentText command name ++ paragraphs.output .line rest :=
  paragraphs_line (fun h => (mem_environmentText hcommand hname h).2.1 rfl) rest

theorem tokenize_environmentText (hcommand : command ∈ environmentCommands)
    (hname : ∀ c ∈ name.toList, IsNeutral c) (rest : List Char) :
    tokenize (environmentText command name ++ rest) =
      environmentTokens command name ++ tokenize rest := by
  have hletters : ∀ command ∈ environmentCommands, command.toList ≠ [] ∧
      command.toList.all isNameLetter = true := by decide
  obtain ⟨hne, hall⟩ := hletters command hcommand
  have hslash : '\\' ∉ name.toList := fun h =>
    (Lexer.notMem_specials.mp (Lexer.isPlain_iff.mp (hname _ h).plain).2).1 rfl
  have hchars : tokenize (name.toList ++ []) = name.toList.map .char ++ tokenize [] :=
    Lexer.tokenize_chars fun c hc => (hname c hc).plain
  have heven : backslashes name.toList % 2 = 0 := by rw [Lexer.backslashes_eq_zero hslash]
  have htokens := Lexer.tokenize_command hne (List.all_eq_true.mp hall) heven rest
  rw [List.append_nil, Lexer.tokenize_nil, List.append_nil] at hchars
  rw [String.ofList_toList, hchars] at htokens
  have htext : environmentText command name ++ rest =
      '\\' :: (command.toList ++ '\x7b' :: (name.toList ++ '\x7d' :: rest)) := by
    simp [environmentText]
  rw [htext, htokens]
  simp [environmentTokens, braced, charTokens]

/-! ### The source -/

/-- A verbatim environment with its content on lines of its own, and the text behind it. -/
def verbatimText (name content behind : String) : String :=
  "\\begin\x7b" ++ name ++ "\x7d\n" ++ content ++ "\n\\end\x7b" ++ name ++ "\x7d" ++ behind

theorem toList_verbatimText (name content behind : String) :
    (verbatimText name content behind).toList =
      environmentText "begin" name ++ '\n' ::
        (content.toList ++ '\n' :: (environmentText "end" name ++ behind.toList)) := by
  simp [verbatimText, environmentText]

/-- Where no correction is meant for a file, and lines end in a newline alone, a source is prepared
by two passes. -/
theorem prepare_eq {text path : String} {corrections : List Correction}
    (hreturn : '\r' ∉ text.toList) (hpath : ∀ c ∈ corrections, c.appliesTo path = false) :
    prepare text path corrections = paragraphs.output .line (stripComments text.toList) := by
  have hnone : corrections.filter (·.appliesTo path) = [] :=
    List.filter_eq_nil_iff.mpr fun c hc => by rw [hpath c hc]; exact Bool.false_ne_true
  unfold prepare Correction.applyAll
  rw [hnone, unifyLineEnds_eq_self hreturn, markParagraphs_eq_output]
  rfl

/-- **The tokens of a verbatim environment**: those of its commands and some between them that depend on
the content only and end nothing. What is behind it is read as it is alone. -/
theorem tokens_verbatimText (hname : ∀ c ∈ name.toList, IsNeutral c) {content : String}
    (hreturn : '\r' ∉ content.toList) (hend : ¬"\\end".toList <:+: content.toList) :
    ∃ inside : List Token, .control "end" ∉ inside ∧ .endOfInput ∉ inside ∧
      ∀ (behind path : String) (corrections : List Correction), '\r' ∉ behind.toList →
        (∀ c ∈ corrections, c.appliesTo path = false) →
        Source.tokens (verbatimText name content behind) path corrections =
          environmentTokens "begin" name ++ (inside ++ (environmentTokens "end" name ++
            Source.tokens behind path corrections)) := by
  obtain ⟨inside, hnone, hmark, hbetween⟩ := exists_tokens_between content.toList hend
  have hbegin : "begin" ∈ environmentCommands := by decide
  have hfoot : "end" ∈ environmentCommands := by decide
  refine ⟨inside, hnone, hmark, fun behind path corrections hbehind hpath => ?_⟩
  have hreturns : '\r' ∉ (verbatimText name content behind).toList := by
    rw [toList_verbatimText]
    simp only [List.mem_append, List.mem_cons, not_or]
    exact ⟨fun h => (mem_environmentText hbegin hname h).2.2 rfl, by decide, hreturn, by decide,
      fun h => (mem_environmentText hfoot hname h).2.2 rfl, hbehind⟩
  have hcontent : tokenize (paragraphs.output .line (stripComments ('\n' ::
      (content.toList ++ '\n' :: (environmentText "end" name ++ behind.toList))))) =
      inside ++ tokenize (paragraphs.output .line
        (stripComments (environmentText "end" name ++ behind.toList))) := hbetween _
  unfold Source.tokens
  rw [prepare_eq hreturns hpath, prepare_eq hbehind hpath, toList_verbatimText,
    stripComments_environmentText hbegin hname, paragraphs_environmentText hbegin hname,
    tokenize_environmentText hbegin hname, hcontent, stripComments_environmentText hfoot hname,
    paragraphs_environmentText hfoot hname, tokenize_environmentText hfoot hname]

/-! ### Passing over the content -/

section Reading

variable {inside behind : List Token} {limit count : Nat}

/-- A token that ends neither an environment nor a file is passed over. -/
theorem verbatimFrom_cons {t : Token} (hend : t ≠ .control "end") (hmark : t ≠ .endOfInput)
    (hcount : count ≤ limit) (tokens : List Token) :
    verbatimFrom limit name count 0 (t :: tokens) =
      verbatimFrom limit name (count + 1) 0 tokens := by
  have hlimit : ¬count > limit := Nat.not_lt.mpr hcount
  cases t with
  | control command =>
    have hcommand : (command == "end") = false :=
      beq_eq_false_iff_ne.mpr fun h => hend (by rw [h])
    rw [verbatimFrom, if_neg hlimit, hcommand]
    rfl
  | endOfInput => exact absurd rfl hmark
  | _ => exact if_neg hlimit

theorem verbatimFrom_end (hcount : count ≤ limit) (behind : List Token) :
    verbatimFrom limit name count 0 (environmentTokens "end" name ++ behind) =
      ⟨.found, behind, count + (environmentTokens "end" name).length, 0⟩ := by
  have hgroup : environmentTokens "end" name ++ behind =
      .control "end" :: (plainGroup name.toList ++ behind) := rfl
  have hlength : (plainGroup name.toList).length = name.toList.length + 2 :=
    length_plainGroup name.toList
  have hcommand : ("end" == "end") = true := by decide
  rw [hgroup, verbatimFrom, if_neg (Nat.not_lt.mpr hcount), if_pos hcommand, groupName?_plain,
    String.ofList_toList]
  dsimp only
  rw [if_pos (beq_self_eq_true name), ← hlength, List.drop_left]
  refine congrArg (fun n => Reading.mk RegionEnd.found behind n 0) ?_
  show count + 1 + (plainGroup name.toList).length = count + ((plainGroup name.toList).length + 1)
  omega

/-- **Where nothing is ended in the content exactly the content is passed over**, if it is not too
long. By induction on the content. -/
theorem verbatimFrom_inside (behind : List Token) : ∀ (inside : List Token) (count : Nat),
    .control "end" ∉ inside → .endOfInput ∉ inside →
    (count + inside.length ≤ limit →
      verbatimFrom limit name count 0 (inside ++ (environmentTokens "end" name ++ behind)) =
        ⟨.found, behind, count + inside.length + (environmentTokens "end" name).length, 0⟩) ∧
    (limit < count + inside.length →
      (verbatimFrom limit name count 0
        (inside ++ (environmentTokens "end" name ++ behind))).result = .tooLong)
  | [], count, _, _ => by
    refine ⟨fun hcount => verbatimFrom_end hcount behind, fun hcount => ?_⟩
    have hover : verbatimFrom limit name count 0 (environmentTokens "end" name ++ behind) = _ :=
      if_pos hcount
    rw [List.nil_append, hover]
  | t :: inside, count, hend, hmark => by
    rw [List.mem_cons, not_or] at hend hmark
    obtain ⟨hfound, hlong⟩ := verbatimFrom_inside behind inside (count + 1) hend.2 hmark.2
    have hlength : count + (t :: inside).length = count + 1 + inside.length := by
      rw [List.length_cons]
      omega
    rw [hlength, List.cons_append]
    by_cases hcount : count ≤ limit
    · rw [verbatimFrom_cons (Ne.symm hend.1) (Ne.symm hmark.1) hcount]
      exact ⟨hfound, hlong⟩
    · have hover : verbatimFrom limit name count 0
          (t :: (inside ++ (environmentTokens "end" name ++ behind))) = _ :=
        if_pos (Nat.lt_of_not_le hcount)
      refine ⟨fun h => ?_, fun _ => by rw [hover]⟩
      omega

end Reading

namespace Scan

variable {setting : Setting} {nested : Frame → Scan Flow} {frame : Frame} {s : State}

theorem round_verbatim (hclass : EnvironmentClass.ofName name = .verbatim)
    (hdictionary : s.dictionary.environment? name = none) (rest : List Token) :
    round setting nested frame (s.facing (environmentTokens "begin" name ++ rest)) =
      goingOn (skipVerbatim setting name)
        (s.past (environmentTokens "begin" name).length rest) := by
  obtain ⟨hproof, hne, hname⟩ := chars_of_verbatim hclass
  have hbegin : Structural.ofName? "begin" = some .openEnvironment :=
    Structural.ofName?_of_mem (by decide)
  have hclosed : frame.closedBy "begin" = false := by cases frame <;> rfl
  have hblank (c : Char) (hc : c ∈ name.toList) : Text.isBlank c = false :=
    (Lexer.isPlain_iff.mp (hname c hc).plain).1
  have htext : argumentText (s.past 1 (plainGroup name.toList ++ rest)) =
      .ok name (s.past (environmentTokens "begin" name).length rest) := by
    rw [argumentText_plain hblank rfl, String.ofList_toList]
    have hlength : (environmentTokens "begin" name).length = name.toList.length + 2 + 1 :=
      congrArg (· + 1) (length_plainGroup name.toList)
    rw [hlength, ← State.past_past s 1 (name.toList.length + 2) []]
    rfl
  have hempty : ¬name.isEmpty = true := fun h => hne (String.isEmpty_iff.mp h)
  rw [round_cons (x := .control "begin") rfl]
  show command setting nested frame "begin" _ = _
  unfold command
  rw [hclosed, if_neg Bool.false_ne_true, hbegin]
  show openEnvironment setting nested (s.past 1 (plainGroup name.toList ++ rest)) = _
  unfold openEnvironment
  rw [bind_ok htext, if_neg hempty, bind_ok (m := get) rfl, if_neg (by rw [hproof]; exact nofun)]
  have hnone : (s.past (environmentTokens "begin" name).length rest).dictionary.environment? name =
      none := hdictionary
  rw [hnone]
  dsimp only
  rw [hclass]
  rfl

section Skip

variable {inside rest : List Token} (hend : .control "end" ∉ inside) (hmark : .endOfInput ∉ inside)
include hend hmark

theorem skipVerbatim_found (hlength : inside.length ≤ setting.options.environmentLimit) :
    skipVerbatim setting name (s.facing (inside ++ (environmentTokens "end" name ++ rest))) =
      .ok () (s.past (inside.length + (environmentTokens "end" name).length) rest) := by
  have hread : readVerbatim setting.options.environmentLimit name
      (inside ++ (environmentTokens "end" name ++ rest)) =
        ⟨.found, rest, inside.length + (environmentTokens "end" name).length, 0⟩ := by
    have hle : 0 + inside.length ≤ setting.options.environmentLimit := by rwa [Nat.zero_add]
    have hfound : verbatimFrom _ name 0 0 _ = _ :=
      (verbatimFrom_inside rest inside 0 hend hmark).1 hle
    rwa [Nat.zero_add] at hfound
  unfold skipVerbatim
  rw [bind_ok (take_of_eq _ _ hread)]
  rfl

theorem skipVerbatim_tooLong (hlength : setting.options.environmentLimit < inside.length) :
    ∃ t, skipVerbatim setting name (s.facing (inside ++ (environmentTokens "end" name ++ rest))) =
      .error (.fatal (.runawayEnvironment name setting.options.environmentLimit)) t := by
  have hread : (readVerbatim setting.options.environmentLimit name
      (inside ++ (environmentTokens "end" name ++ rest))).result = .tooLong :=
    (verbatimFrom_inside rest inside 0 hend hmark).2 (by rwa [Nat.zero_add])
  cases hreading : readVerbatim setting.options.environmentLimit name
      (inside ++ (environmentTokens "end" name ++ rest)) with
  | mk result left count fileEnds =>
    rw [hreading] at hread
    cases hread
    unfold skipVerbatim
    rw [bind_ok (take_of_eq _ _ hreading)]
    exact ⟨_, rfl⟩

end Skip

/-- **Verbatim environments are opaque.** Whatever the content holds, unless it is `\end`: the tokens
of the source are those of the two commands, those of the text behind, and some between them that
depend on the content alone. Where these are no more than an environment may have, the command that
opens the environment goes on behind it, and changes nothing else; where they are more the file is
given up. -/
theorem verbatim_environments_are_opaque (setting : Setting) (nested : Frame → Scan Flow)
    (frame : Frame) {name : String} (hclass : EnvironmentClass.ofName name = .verbatim)
    {content : String} (hreturn : '\r' ∉ content.toList)
    (hend : ¬"\\end".toList <:+: content.toList) :
    ∃ inside : List Token, .control "end" ∉ inside ∧
      ∀ (behind path : String) (corrections : List Correction) (s : State), '\r' ∉ behind.toList →
        (∀ c ∈ corrections, c.appliesTo path = false) → s.dictionary.environment? name = none →
        let source := Source.tokens (verbatimText name content behind) path corrections
        let rest := Source.tokens behind path corrections
        source = environmentTokens "begin" name ++ (inside ++ (environmentTokens "end" name ++ rest)) ∧
        (inside.length ≤ setting.options.environmentLimit →
          round setting nested frame (s.facing source) =
            .ok .goOn (s.past (source.length - rest.length) rest)) ∧
        (setting.options.environmentLimit < inside.length →
          ∃ t, round setting nested frame (s.facing source) =
            .error (.fatal (.runawayEnvironment name setting.options.environmentLimit)) t) := by
  obtain ⟨-, -, hname⟩ := chars_of_verbatim hclass
  obtain ⟨inside, hnone, hmark, htokens⟩ := tokens_verbatimText hname hreturn hend
  refine ⟨inside, hnone, fun behind path corrections s hbehind hpath hdictionary => ?_⟩
  dsimp only
  rw [htokens behind path corrections hbehind hpath]
  generalize Source.tokens behind path corrections = rest
  rw [round_verbatim hclass hdictionary]
  have hfacing (rest' : List Token) : s.past (environmentTokens "begin" name).length rest' =
      (s.past (environmentTokens "begin" name).length []).facing rest' := rfl
  refine ⟨rfl, fun hlength => ?_, fun hlength => ?_⟩
  · have hcount : (environmentTokens "begin" name ++
        (inside ++ (environmentTokens "end" name ++ rest))).length - rest.length =
        inside.length + (environmentTokens "end" name).length +
          (environmentTokens "begin" name).length := by
      simp only [List.length_append]
      omega
    rw [hcount, hfacing]
    unfold goingOn
    rw [bind_ok (skipVerbatim_found hnone hmark hlength), State.past_past]
    rfl
  · obtain ⟨t, ht⟩ : ∃ t, skipVerbatim setting name
        ((s.past (environmentTokens "begin" name).length []).facing
          (inside ++ (environmentTokens "end" name ++ rest))) = .error _ t :=
      skipVerbatim_tooLong hnone hmark hlength
    refine ⟨t, ?_⟩
    rw [hfacing]
    unfold goingOn
    rw [bind_error ht]

/-- A listing with unbalanced braces, a dollar sign, a comment in front of its end, a blank line, and
commands that would open a proof and skip a branch. -/
theorem listing_passed_over :
    let content := "\\begin\x7bproof\x7d \x7b$\n\n\\iffalse\\\n%"
    let source := Source.tokens (verbatimText "lstlisting*" content "y") "main.tex" []
    EnvironmentClass.ofName "lstlisting*" = .verbatim ∧ '\r' ∉ content.toList ∧
      ¬"\\end".toList <:+: content.toList ∧
      round ⟨.standard, .empty⟩ (fun _ => pure .goOn) .file
          ((State.start "main.tex" []).facing source) =
        .ok .goOn ((State.start "main.tex" []).past (source.length - 1) [.char 'y']) := by
  intro content source
  have hclass : EnvironmentClass.ofName "lstlisting*" = .verbatim := by decide
  have hreturn : '\r' ∉ content.toList := by decide
  have hend : ¬"\\end".toList <:+: content.toList := by decide +kernel
  obtain ⟨inside, -, hall⟩ := verbatim_environments_are_opaque ⟨.standard, .empty⟩
    (fun _ => pure .goOn) .file hclass hreturn hend
  have hnone : (State.start "main.tex" []).dictionary.environment? "lstlisting*" = none :=
    Std.HashMap.getElem?_empty
  obtain ⟨htokens, hround, -⟩ :=
    hall "y" "main.tex" [] (State.start "main.tex" []) (by decide) nofun hnone
  have hrest : Source.tokens "y" "main.tex" [] = [.char 'y'] := by decide
  have hsource : source.length ≤ 100 := by decide +kernel
  have hlength : inside.length ≤ source.length := by
    show _ ≤ (Source.tokens (verbatimText "lstlisting*" content "y") "main.tex" []).length
    rw [htokens]
    simp only [List.length_append]
    omega
  have hlimit : inside.length ≤ Options.standard.environmentLimit :=
    (hlength.trans hsource).trans (by decide)
  have hgoesOn := hround hlimit
  rw [hrest] at hgoesOn
  exact ⟨hclass, hreturn, hend, hgoesOn⟩

end Scan

end ProofProse
