import ProofProse.Proofs.Renaming
import ProofProse.Proofs.Resume
import ProofProse.Proofs.Span

/-! # Formulas

A formula is mathematics between two marks that does nothing but show: characters, gaps, braces and
signs, commands of mathematics, and texts in groups (`Formula.Part`). A round of its scan reads one
part, and nothing of it is kept but whether what was last visible is a period (`round_part`). So a
scan of the formula comes to the mark that closes it, by induction on the parts, unless one of the
checks in front of the parts and of the mark finds that too many tokens have been taken
(`scan_parts`). Behind the formula the draft has gained the mark of mathematics
(`formulas_leave_their_mark`). -/

namespace ProofProse

/-! ### What formulas are made of -/

namespace Formula

/-- A part of a formula. -/
inductive Part where
  /-- A token by itself. -/
  | token (t : Token)
  /-- A text: a command, and a group behind it. -/
  | text (name : String) (content : List Token)

/-- The tokens of a part. -/
def Part.tokens : Part → List Token
  | token t => [t]
  | text name content => .control name :: .openGroup :: (content ++ [.closeGroup])

/-- The tokens of a formula without its marks. -/
def tokens (parts : List Part) : List Token := parts.flatMap Part.tokens

/-- A command that makes sense in mathematics only and is nothing else in a dictionary. -/
structure IsMathOnly (d : Dictionary) (name : String) : Prop where
  effect : Effect.ofName? name = some .mathOnly
  find? : d.find? name = none
  testedFlag? : d.testedFlag? name = none

/-- A command for text in mathematics that a dictionary does not define. -/
structure IsMathText (d : Dictionary) (name : String) : Prop where
  effect : Effect.ofName? name = some .mathText
  find? : d.find? name = none

/-- A token that stands in a formula by itself. -/
def IsSign (d : Dictionary) : Token → Prop
  | .char _ => True
  | .space => True
  | .active _ => True
  | .openGroup => True
  | .closeGroup => True
  | .alignTab => True
  | .superscript => True
  | .subscript => True
  | .control name => IsMathOnly d name
  | _ => False

/-- A part that does nothing but show. The group of a text is well nested, and ends no environment. -/
def Part.IsPlain (d : Dictionary) : Part → Prop
  | token t => IsSign d t
  | text name content =>
    IsMathText d name ∧ WellNested content ∧ .control "end" ∉ content

/-- A token of a text that is seen in it. -/
def isSeen : Token → Bool
  | .space => false
  | .openGroup => false
  | .closeGroup => false
  | .inert _ => false
  | .endOfInput => false
  | .control _ => false
  | _ => true

/-- Whether what was last seen is a period, behind a part. -/
def Part.period (period : Bool) : Part → Bool
  | token (.char c) => c == '.'
  | token .alignTab => false
  | token .superscript => false
  | token .subscript => false
  | token _ => period
  | text _ content => ((content.filter isSeen).getLast?.map (·.isChar '.')).getD period

/-- Whether a formula ends in a period. -/
def endsInPeriod (parts : List Part) : Bool := parts.foldl Part.period false

/-! ### The marks of formulas -/

/-- How a formula is marked. -/
inductive Marks where
  /-- A sign on either side. -/
  | sign
  /-- Two signs on either side. -/
  | signs
  /-- The commands for formulas in a line. -/
  | inline
  /-- The commands for displayed formulas. -/
  | display

namespace Marks

/-- What stands before a formula. -/
def opening : Marks → List Token
  | sign => [.mathShift]
  | signs => [.mathShift, .mathShift]
  | inline => [.control "("]
  | display => [.control "["]

/-- What stands behind it. -/
def closing : Marks → List Token
  | sign => [.mathShift]
  | signs => [.mathShift, .mathShift]
  | inline => [.control ")"]
  | display => [.control "]"]

/-- The frame that it is scanned in. -/
def frame : Marks → Frame
  | sign => .dollar
  | signs => .doubleDollar
  | inline => .inline
  | display => .display

end Marks

/-- How many tokens of a formula are taken when its end is reached, or the limit is found to be passed,
behind `count` of them. -/
def reached (limit count : Nat) : List Part → Nat
  | [] => count
  | part :: parts => if limit < count then count else reached limit (count + part.tokens.length) parts

end Formula

open Formula

/-! ### Commands in formulas -/

/-- No command of mathematics is structural, looks like the setting of a flag, or, if it is for text,
like a test. -/
theorem mathEntries_plain : ∀ entry ∈ Command.entries,
    entry.2 = .mathOnly ∨ entry.2 = .mathText →
      (Structural.entries.map Prod.fst).contains entry.1 = false ∧
      Text.dropTail? "true" entry.1 = none ∧ Text.dropTail? "false" entry.1 = none ∧
      (entry.2 = .mathText → Text.dropHead? "if" entry.1 = none) := by
  decide +kernel

section Meanings

variable {d : Dictionary} {name : String} {effect : Effect}

/-- What a command of mathematics means that is not defined and tests no flag. -/
theorem meaning_of_mathEntry (heffect : Effect.ofName? name = some effect)
    (hmath : effect = .mathOnly ∨ effect = .mathText) (hfind : d.find? name = none)
    (htested : d.testedFlag? name = none) : d.meaning name = .effect effect := by
  obtain ⟨-, htrue, hfalse, -⟩ := mathEntries_plain _ (Effect.mem_of_ofName? heffect) hmath
  have hbare : isBareTest name = false := by
    unfold isBareTest
    rw [heffect]
    exact Bool.and_false _
  exact (Dictionary.Means.effect hfind (Dictionary.flagSetting?_eq_none htrue hfalse) htested hbare
    heffect).meaning_eq

theorem Formula.IsMathOnly.ofName? (h : IsMathOnly d name) : Structural.ofName? name = none :=
  Structural.ofName?_eq_none_iff.mpr
    (mathEntries_plain _ (Effect.mem_of_ofName? h.effect) (.inl rfl)).1

theorem Formula.IsMathOnly.meaning (h : IsMathOnly d name) : d.meaning name = .effect .mathOnly :=
  meaning_of_mathEntry h.effect (.inl rfl) h.find? h.testedFlag?

theorem Formula.IsMathText.ofName? (h : IsMathText d name) : Structural.ofName? name = none :=
  Structural.ofName?_eq_none_iff.mpr
    (mathEntries_plain _ (Effect.mem_of_ofName? h.effect) (.inr rfl)).1

theorem Formula.IsMathText.meaning (h : IsMathText d name) : d.meaning name = .effect .mathText := by
  have hhead := (mathEntries_plain _ (Effect.mem_of_ofName? h.effect) (.inr rfl)).2.2.2 rfl
  exact meaning_of_mathEntry h.effect (.inr rfl) h.find? (Dictionary.testedFlag?_eq_none hhead)

end Meanings

/-! ### Rounds in a formula -/

namespace State

/-- The state behind some parts, with `rest` ahead. -/
def behindParts (s : State) (parts : List Part) (rest : List Token) : State :=
  { s with
    stream := ⟨rest, s.consumed + (Formula.tokens parts).length⟩
    includes := s.includes.leave (ProofProse.marks (Formula.tokens parts))
    finalPeriod := parts.foldl Part.period s.finalPeriod }

/-- The state behind a formula, with `rest` ahead. -/
def behindFormula (s : State) (marks : Marks) (parts : List Part) (rest : List Token) : State :=
  { s with
    stream := ⟨rest, s.consumed + (marks.opening ++ Formula.tokens parts ++ marks.closing).length⟩
    includes := s.includes.leave (ProofProse.marks (Formula.tokens parts))
    finalPeriod := endsInPeriod parts
    draft := s.draft.markMath (endsInPeriod parts) }

end State

namespace Scan

open State

variable {setting : Setting} {nested : Frame → Scan Flow} {frame : Frame} {s : State}
  {rest content : List Token}

theorem find?_unmarked (content : List Token) :
    (unmarked content).reverse.find? (!isInvisible ·) = (content.filter isSeen).getLast? := by
  have hseen : (fun t : Token => t != .endOfInput && !isInvisible t) = isSeen := by
    funext t
    cases t <;> rfl
  unfold unmarked
  rw [← List.head?_reverse, ← List.filter_reverse, ← List.filter_reverse, List.find?_filter,
    List.head?_filter]
  simp only [Bool.decide_and, Bool.decide_eq_true]
  rw [hseen]

theorem behindParts_one (s : State) (part : Part) (rest : List Token) :
    s.behindParts [part] rest =
      { s with
        stream := ⟨rest, s.consumed + part.tokens.length⟩
        includes := s.includes.leave (ProofProse.marks part.tokens)
        finalPeriod := part.period s.finalPeriod } := by
  have htokens : Formula.tokens [part] = part.tokens := List.append_nil _
  unfold behindParts
  rw [htokens]
  rfl

theorem textInMath_ok (hcontent : WellNested content) (hend : .control "end" ∉ content)
    (hs : s.stream.ahead = .openGroup :: (content ++ .closeGroup :: rest)) :
    textInMath s = .ok () { s with
      stream := ⟨rest, s.consumed + (content.length + 2)⟩
      includes := s.includes.leave (ProofProse.marks content)
      finalPeriod :=
        ((content.filter isSeen).getLast?.map (·.isChar '.')).getD s.finalPeriod } := by
  unfold textInMath
  rw [bind_ok (argument_nested hcontent hend hs), find?_unmarked]
  cases (content.filter isSeen).getLast? with
  | none => rfl
  | some t => rfl

/-- **A sign** in a formula is read in one round. -/
theorem round_sign {t : Token} (hmath : s.inMath = true) (ht : IsSign s.dictionary t) :
    round setting nested frame (s.facing (t :: rest)) =
      .ok .goOn { s with
        stream := ⟨rest, s.consumed + 1⟩
        finalPeriod := (Part.token t).period s.finalPeriod } := by
  let u : State := { s with stream := ⟨rest, s.consumed + 1⟩ }
  have hin : u.inMath = true := hmath
  have hspan : u.inSpan = true := by
    unfold State.inSpan
    rw [show decide (0 < u.mathDepth) = true from hmath]
    rfl
  have hgap : ∀ v : State, v.inSpan = true → emit .space v = .ok () v := fun v hv =>
    congrArg (EStateM.Result.ok ()) (emit_of_not_capturing (capturing_eq_false hv) .space)
  have hclear : clearPeriod u = .ok () { u with finalPeriod := false } := by
    show EStateM.Result.ok () (if u.inMath then { u with finalPeriod := false } else u) = _
    rw [if_pos hin]
  have hscript : ∀ sign, script sign u = .ok () { u with finalPeriod := false } := by
    intro sign
    unfold script
    rw [bind_ok (m := get) (a := u) (t := u) rfl, if_pos hin, hclear]
  rw [round_cons rfl]
  show interpret setting nested frame t u = _
  cases t with
  | char c =>
    show EStateM.Result.ok Flow.goOn (if u.inMath then { u with finalPeriod := c == '.' }
      else if u.capturing then u.addChar c else u) = _
    rw [if_pos hin]
    rfl
  | space => exact bind_ok (hgap u hspan)
  | active c => exact bind_ok (hgap u hspan)
  | alignTab =>
    have hboth : (do clearPeriod; emit .space : Scan Unit) u = .ok () { u with finalPeriod := false } :=
      (bind_ok hclear).trans (hgap _ hspan)
    exact bind_ok hboth
  | superscript => exact bind_ok (hscript .superscript)
  | subscript => exact bind_ok (hscript .subscript)
  | openGroup => rfl
  | closeGroup => rfl
  | control name =>
    have hmeaning : u.dictionary.meaning name = .effect .mathOnly := ht.meaning
    show command setting nested frame name u = _
    rw [command_meaning ht.ofName?, hmeaning]
    have hnothing : applyEffect setting name .mathOnly u = .ok () u := by
      show (if !u.inMath then mathInProse name else pure () : Scan Unit) u = _
      rw [hin]
      rfl
    exact bind_ok hnothing
  | _ => exact ht.elim

/-- **A text** in a formula is read in one round. -/
theorem round_text {name : String} (hmath : s.inMath = true) (hname : IsMathText s.dictionary name)
    (hcontent : WellNested content) (hend : .control "end" ∉ content) :
    round setting nested frame
        (s.facing (.control name :: .openGroup :: (content ++ .closeGroup :: rest))) =
      .ok .goOn { s with
        stream := ⟨rest, s.consumed + (content.length + 3)⟩
        includes := s.includes.leave (ProofProse.marks content)
        finalPeriod := (Part.text name content).period s.finalPeriod } := by
  let u : State := { s with
    stream := ⟨.openGroup :: (content ++ .closeGroup :: rest), s.consumed + 1⟩ }
  have hin : u.inMath = true := hmath
  have hmeaning : u.dictionary.meaning name = .effect .mathText := hname.meaning
  have hcount : s.consumed + (content.length + 3) = s.consumed + 1 + (content.length + 2) := by omega
  rw [round_cons rfl]
  show command setting nested frame name u = _
  rw [command_meaning hname.ofName?, hmeaning, hcount]
  have htext : applyEffect setting name .mathText u = textInMath u := by
    show (if u.inMath then textInMath else pure () : Scan Unit) u = _
    rw [if_pos hin]
  exact bind_ok (htext.trans (textInMath_ok hcontent hend rfl))

/-- **A part** of a formula is read in one round. -/
theorem round_part {part : Part} (hmath : s.inMath = true) (hpart : part.IsPlain s.dictionary) :
    round setting nested frame (s.facing (part.tokens ++ rest)) =
      .ok .goOn (s.behindParts [part] rest) := by
  rw [behindParts_one]
  cases part with
  | token t =>
    have hcontent : t.IsContent := by
      rintro rfl
      exact hpart
    have hmarks : ProofProse.marks (Part.token t).tokens = 0 := marks_cons hcontent []
    rw [hmarks]
    exact round_sign hmath hpart
  | text name content =>
    obtain ⟨hname, hcontent, hend⟩ := hpart
    have htokens : (Part.text name content).tokens ++ rest =
        .control name :: .openGroup :: (content ++ .closeGroup :: rest) := by
      simp [Part.tokens]
    have hmarks : ProofProse.marks (Part.text name content).tokens = ProofProse.marks content := by
      unfold Part.tokens
      rw [marks_control, marks_cons (by simp), marks_append, marks_cons (by simp)]
      rfl
    have hlength : (Part.text name content).tokens.length = content.length + 3 := by
      simp [Part.tokens]
    rw [htokens, hmarks, hlength]
    exact round_text hmath hname hcontent hend

/-! ### The scan of a formula -/

variable {start : Nat} {marks : Marks} {parts : List Part}

theorem behindParts_cons (s : State) (part : Part) (parts : List Part) (rest : List Token) :
    (s.behindParts [part] []).behindParts parts rest = s.behindParts (part :: parts) rest := by
  have htokens : Formula.tokens (part :: parts) = part.tokens ++ Formula.tokens parts := rfl
  have hcount : s.consumed + (part.tokens.length + (Formula.tokens parts).length) =
      s.consumed + part.tokens.length + (Formula.tokens parts).length := by omega
  rw [behindParts_one]
  unfold behindParts
  rw [htokens, marks_append, List.length_append, hcount]
  simp only [Includes.leave_leave]
  rfl

theorem passedLimit?_inFormula (hfile : s.consumed ≤ setting.options.fileLimit)
    (hlimit : s.consumed ≤ start + setting.options.mathLimit)
    (hproof : s.consumed ≤ s.proofStart + setting.options.environmentLimit) (marks : Marks) :
    passedLimit? setting marks.frame start s = none := by
  refine passedLimit?_eq_none_iff.mpr ⟨hfile, fun limit h => ?_, fun _ => by omega⟩
  have hmath : limit = setting.options.mathLimit := by cases marks <;> cases h <;> rfl
  omega

theorem passedLimit?_tooLong (hfile : s.consumed ≤ setting.options.fileLimit)
    (hlimit : start + setting.options.mathLimit < s.consumed) (marks : Marks) :
    passedLimit? setting marks.frame start s = some (.runawayMath setting.options.mathLimit) := by
  have hframe : marks.frame.limit? setting.options = some setting.options.mathLimit := by
    cases marks <;> rfl
  have hrunaway : marks.frame.runaway setting.options.mathLimit =
      .runawayMath setting.options.mathLimit := by cases marks <;> rfl
  have hover : decide (s.consumed - start > setting.options.mathLimit) = true :=
    decide_eq_true (by omega)
  unfold passedLimit?
  dsimp only
  rw [if_neg (Nat.not_lt.mpr hfile), hframe, Option.filter_some, if_pos hover]
  exact congrArg some hrunaway

/-- The scan goes on behind a part in front of which no limit has been passed. -/
theorem scan_part {part : Part} (hmath : s.inMath = true) (hpart : part.IsPlain s.dictionary)
    (hfile : s.consumed ≤ setting.options.fileLimit)
    (hlimit : s.consumed ≤ start + setting.options.mathLimit)
    (hproof : s.consumed ≤ s.proofStart + setting.options.environmentLimit) (marks : Marks) :
    scanFrom setting marks.frame start (s.facing (part.tokens ++ rest)) =
      scanFrom setting marks.frame start ((s.behindParts [part] []).facing rest) :=
  scanFrom_goOn (passedLimit?_inFormula hfile hlimit hproof marks) (round_part hmath hpart)

/-- **Within the limits** the scan of a formula comes to its end. -/
theorem scan_parts (marks : Marks) (start : Nat) (rest : List Token) :
    ∀ {parts : List Part} {s : State}, s.inMath = true →
    (∀ part ∈ parts, part.IsPlain s.dictionary) →
    s.consumed + (Formula.tokens parts).length ≤ setting.options.fileLimit →
    s.consumed + (Formula.tokens parts).length ≤ start + setting.options.mathLimit →
    s.consumed + (Formula.tokens parts).length ≤ s.proofStart + setting.options.environmentLimit →
    scanFrom setting marks.frame start (s.facing (Formula.tokens parts ++ rest)) =
      scanFrom setting marks.frame start (s.behindParts parts rest) := by
  intro parts
  induction parts with
  | nil => exact fun _ _ _ _ _ => rfl
  | cons part parts ih =>
    intro s hmath hparts hfile hlimit hproof
    obtain ⟨hpart, hrest⟩ := List.forall_mem_cons.mp hparts
    have htokens : Formula.tokens (part :: parts) = part.tokens ++ Formula.tokens parts := rfl
    have hconsumed : (s.behindParts [part] []).consumed = s.consumed + part.tokens.length :=
      congrArg State.consumed (behindParts_one s part [])
    rw [htokens, List.length_append] at hfile hlimit hproof
    rw [htokens, List.append_assoc, scan_part hmath hpart (by omega) (by omega) (by omega) marks]
    refine (ih (s := s.behindParts [part] []) hmath hrest ?_ ?_ ?_).trans
      (congrArg _ (behindParts_cons s part parts rest))
    · omega
    · omega
    · show _ ≤ s.proofStart + _
      omega

theorem le_reached (limit : Nat) : ∀ (parts : List Part) (count : Nat),
    count ≤ reached limit count parts
  | [], _ => Nat.le_refl _
  | part :: parts, count => by
    unfold reached
    split
    · exact Nat.le_refl _
    · have hrest := le_reached limit parts (count + part.tokens.length)
      omega

/-- **A formula that is too long** is given up, at one of its parts or at its end. -/
theorem scan_tooLong (marks : Marks) (rest : List Token) :
    ∀ {parts : List Part} {s : State}, s.inMath = true →
    (∀ part ∈ parts, part.IsPlain s.dictionary) → start ≤ s.consumed →
    start + reached setting.options.mathLimit (s.consumed - start) parts ≤
      setting.options.fileLimit →
    start + reached setting.options.mathLimit (s.consumed - start) parts ≤
      s.proofStart + setting.options.environmentLimit →
    start + setting.options.mathLimit < s.consumed + (Formula.tokens parts).length →
    ∃ t, scanFrom setting marks.frame start (s.facing (Formula.tokens parts ++ rest)) =
      .error (.fatal (.runawayMath setting.options.mathLimit)) t := by
  intro parts
  induction parts with
  | nil =>
    intro s _ _ hstart hfile _ hover
    have hreached : reached setting.options.mathLimit (s.consumed - start) [] = s.consumed - start :=
      rfl
    have hlength : (Formula.tokens []).length = 0 := rfl
    exact ⟨_, scanFrom_limit (passedLimit?_tooLong (s := s.facing _) (by show s.consumed ≤ _; omega)
      (by show _ < s.consumed; omega) marks)⟩
  | cons part parts ih =>
    intro s hmath hparts hstart hfile hproof hover
    by_cases hlong : setting.options.mathLimit < s.consumed - start
    · have hreached : reached setting.options.mathLimit (s.consumed - start) (part :: parts) =
          s.consumed - start := if_pos hlong
      exact ⟨_, scanFrom_limit (passedLimit?_tooLong (s := s.facing _) (by show s.consumed ≤ _; omega)
        (by show _ < s.consumed; omega) marks)⟩
    obtain ⟨hpart, hrest⟩ := List.forall_mem_cons.mp hparts
    have htokens : Formula.tokens (part :: parts) = part.tokens ++ Formula.tokens parts := rfl
    have hconsumed : (s.behindParts [part] []).consumed = s.consumed + part.tokens.length :=
      congrArg State.consumed (behindParts_one s part [])
    have hcount : s.consumed - start + part.tokens.length = s.consumed + part.tokens.length - start := by
      omega
    have hreached : reached setting.options.mathLimit (s.consumed - start) (part :: parts) =
        reached setting.options.mathLimit (s.consumed + part.tokens.length - start) parts := by
      rw [← hcount]
      exact if_neg hlong
    have hfirst := le_reached setting.options.mathLimit parts (s.consumed + part.tokens.length - start)
    rw [hreached] at hfile hproof
    rw [htokens, List.length_append] at hover
    rw [htokens, List.append_assoc, scan_part hmath hpart (by omega) (by omega) (by omega) marks]
    rw [← hconsumed] at hfile hproof
    exact ih (s := s.behindParts [part] []) hmath hrest (by omega) hfile hproof (by omega)

/-! ### Formulas in prose -/

theorem head?_tokens {d : Dictionary} (hparts : ∀ part ∈ parts, part.IsPlain d) (hne : parts ≠ []) :
    (Formula.tokens parts ++ rest).head? ≠ some .mathShift := by
  obtain ⟨part, parts, rfl⟩ := List.exists_cons_of_ne_nil hne
  have hpart := hparts part List.mem_cons_self
  intro h
  cases part with
  | token t =>
    obtain rfl : t = .mathShift := Option.some.inj h
    exact hpart
  | text name content => cases h

theorem round_opening (hsign : marks = .sign → rest.head? ≠ some .mathShift) :
    round setting nested .file (s.facing (marks.opening ++ rest)) =
      goingOn (skipMath setting nested marks.frame) (s.past marks.opening.length rest) := by
  have hcommand : ∀ name kind, (name, kind) ∈ Structural.entries →
      command setting nested .file name = structural setting nested name .file kind := by
    intro name kind hmem
    unfold command
    rw [Structural.ofName?_of_mem hmem]
    rfl
  cases marks with
  | sign =>
    rw [round_cons rfl]
    show (if rest.head? = some .mathShift then _ else _ : Scan Flow) (s.past 1 rest) = _
    rw [if_neg (hsign rfl)]
    rfl
  | signs =>
    rw [round_cons rfl]
    rfl
  | inline =>
    rw [round_cons rfl]
    show command setting nested .file "(" (s.past 1 rest) = _
    rw [hcommand "(" .openInline (by decide)]
    rfl
  | display =>
    rw [round_cons rfl]
    show command setting nested .file "[" (s.past 1 rest) = _
    rw [hcommand "[" .openDisplay (by decide)]
    rfl

theorem round_closing (setting : Setting) (nested : Frame → Scan Flow) (s : State) (marks : Marks)
    (rest : List Token) :
    round setting nested marks.frame (s.facing (marks.closing ++ rest)) =
      .ok .close (s.past marks.closing.length rest) := by
  cases marks with
  | sign => rw [round_cons rfl]; rfl
  | signs => rw [round_cons rfl]; rfl
  | inline => rw [round_cons rfl]; rfl
  | display => rw [round_cons rfl]; rfl

theorem markMath_capturing (h : s.capturing = true) :
    s.markMath = { s with draft := s.draft.markMath s.finalPeriod } := by
  have hemit : ∀ (t : State) (fragment : Fragment), t.capturing = true →
      t.emit fragment = { t with draft := t.draft.push fragment } := fun _ _ ht => if_pos ht
  have hmarked := hemit s (.placeholder .math) h
  unfold State.markMath Draft.markMath
  dsimp only
  split
  · rw [hemit _ _ ((emit_capturing s _).trans h), hmarked]
  · exact hmarked

theorem depths_of_capturing (h : s.capturing = true) : s.mathDepth = 0 ∧ s.discardDepth = 0 := by
  unfold State.capturing State.inSpan at h
  simp only [Bool.and_eq_true, Bool.not_eq_true', Bool.or_eq_false_iff, decide_eq_false_iff_not] at h
  omega

/-- The scan of a formula within the limits ends with the mark that closes it. -/
theorem scan_closed (marks : Marks) (rest : List Token) (hmath : s.inMath = true)
    (hparts : ∀ part ∈ parts, part.IsPlain s.dictionary)
    (hlimit : (Formula.tokens parts).length ≤ setting.options.mathLimit)
    (hfile : s.consumed + (Formula.tokens parts).length ≤ setting.options.fileLimit)
    (hproof : s.consumed + (Formula.tokens parts).length ≤
      s.proofStart + setting.options.environmentLimit) :
    scan setting marks.frame (s.facing (Formula.tokens parts ++ (marks.closing ++ rest))) =
      .ok .close ((s.behindParts parts []).past marks.closing.length rest) := by
  have hclosing := round_closing setting (scan setting) (s.behindParts parts []) marks rest
  have hstop : ∀ t, round setting (scan setting) marks.frame
      ((s.behindParts parts []).facing (marks.closing ++ rest)) ≠ .ok .goOn t := fun t ht => by
    cases hclosing.symm.trans ht
  have hnone : passedLimit? setting marks.frame s.consumed
      ((s.behindParts parts []).facing (marks.closing ++ rest)) = none :=
    passedLimit?_inFormula (s := (s.behindParts parts []).facing _) hfile
      (Nat.add_le_add_left hlimit s.consumed) hproof marks
  have hscan := scan_parts marks s.consumed (marks.closing ++ rest) hmath hparts hfile
    (Nat.add_le_add_left hlimit s.consumed) hproof
  exact hscan.trans ((scanFrom_stop hnone hstop).trans hclosing)

/-- **A formula** within the limits is read in one round. -/
theorem round_behindFormula (hcapturing : s.capturing = true)
    (hparts : ∀ part ∈ parts, part.IsPlain s.dictionary) (hsign : marks = .sign → parts ≠ [])
    (hdepth : 0 < setting.options.skipDepth)
    (hlimit : (Formula.tokens parts).length ≤ setting.options.mathLimit)
    (hfile : s.consumed + marks.opening.length + (Formula.tokens parts).length ≤
      setting.options.fileLimit)
    (hproof : s.consumed + marks.opening.length + (Formula.tokens parts).length ≤
      s.proofStart + setting.options.environmentLimit) :
    round setting (scan setting) .file
        (s.facing (marks.opening ++ (Formula.tokens parts ++ (marks.closing ++ rest)))) =
      .ok .goOn (s.behindFormula marks parts rest) := by
  obtain ⟨hmathDepth, hdiscardDepth⟩ := depths_of_capturing hcapturing
  let u := (s.past marks.opening.length []).enterMath
  have hin : u.inMath = true := decide_eq_true (Nat.succ_pos _)
  have hscan := scan_closed (s := u) marks rest hin hparts hlimit hfile hproof
  have hdeep : (s.past marks.opening.length
      (Formula.tokens parts ++ (marks.closing ++ rest))).mathDepth + s.discardDepth <
        setting.options.skipDepth := by
    show s.mathDepth + s.discardDepth < _
    omega
  rw [round_opening fun h => head?_tokens hparts (hsign h)]
  refine bind_ok ((skipMath_ok hdeep hscan).trans (congrArg (EStateM.Result.ok ()) ?_))
  have hbefore : u.finalPeriod = false := by
    show (if s.mathDepth == 0 then false else s.finalPeriod) = false
    rw [hmathDepth]
    rfl
  have hcount : s.consumed + (marks.opening ++ Formula.tokens parts ++ marks.closing).length =
      s.consumed + marks.opening.length + (Formula.tokens parts).length + marks.closing.length := by
    rw [List.length_append, List.length_append]
    omega
  have hleft : ((u.behindParts parts []).past marks.closing.length rest).leaveMath =
      { s with
        stream := ⟨rest, s.consumed + (marks.opening ++ Formula.tokens parts ++ marks.closing).length⟩
        includes := s.includes.leave (ProofProse.marks (Formula.tokens parts))
        finalPeriod := endsInPeriod parts } := by
    unfold State.behindParts
    rw [hbefore, hcount]
    rfl
  rw [hleft]
  exact markMath_capturing hcapturing

/-- **A formula that is too long** gives up the file. -/
theorem round_tooLong (hcapturing : s.capturing = true)
    (hparts : ∀ part ∈ parts, part.IsPlain s.dictionary) (hsign : marks = .sign → parts ≠ [])
    (hdepth : 0 < setting.options.skipDepth)
    (hlimit : setting.options.mathLimit < (Formula.tokens parts).length)
    (hfile : s.consumed + marks.opening.length + reached setting.options.mathLimit 0 parts ≤
      setting.options.fileLimit)
    (hproof : s.consumed + marks.opening.length + reached setting.options.mathLimit 0 parts ≤
      s.proofStart + setting.options.environmentLimit) :
    ∃ t, round setting (scan setting) .file
        (s.facing (marks.opening ++ (Formula.tokens parts ++ (marks.closing ++ rest)))) =
      .error (.fatal (.runawayMath setting.options.mathLimit)) t := by
  obtain ⟨hmathDepth, hdiscardDepth⟩ := depths_of_capturing hcapturing
  let u := (s.past marks.opening.length []).enterMath
  have hin : u.inMath = true := decide_eq_true (Nat.succ_pos _)
  have hzero : u.consumed - u.consumed = 0 := Nat.sub_self _
  obtain ⟨t, hscan⟩ := scan_tooLong (s := u) marks (marks.closing ++ rest) hin hparts (Nat.le_refl _)
    (by rw [hzero]; exact hfile) (by rw [hzero]; exact hproof)
    (Nat.add_lt_add_left hlimit u.consumed)
  rw [round_opening fun h => head?_tokens hparts (hsign h)]
  refine ⟨t.leaveMath, bind_error ?_⟩
  rw [skipMath_eq, if_pos]
  · have hnested : scan setting marks.frame ((s.past marks.opening.length
        (Formula.tokens parts ++ (marks.closing ++ rest))).enterMath) =
        .error (.fatal (.runawayMath setting.options.mathLimit)) t := hscan
    rw [hnested]
  · show s.mathDepth + s.discardDepth < _
    omega

theorem reached_of_le {limit : Nat} : ∀ {parts : List Part} {count : Nat},
    count + (Formula.tokens parts).length ≤ limit →
      reached limit count parts = count + (Formula.tokens parts).length := by
  intro parts
  induction parts with
  | nil => exact fun _ => rfl
  | cons part parts ih =>
    intro count h
    have htokens : Formula.tokens (part :: parts) = part.tokens ++ Formula.tokens parts := rfl
    rw [htokens, List.length_append] at h ⊢
    unfold reached
    rw [if_neg (by omega), ih (by omega)]
    omega

theorem toList_markMath (draft : Draft) (period : Bool) :
    (draft.markMath period).toList = draft.toList ++ mathMark period := by
  cases period with
  | false => exact List.reverse_cons
  | true =>
    unfold Draft.markMath mathMark
    simp [Draft.push, Draft.toList]

/-- **Formulas leave their mark.** Where text is kept, a formula that is marked in any of the four ways
is read in one round, if no other limit is reached on the way. If it has no more tokens than it may
have, what is behind it is ahead then, the files that end in it have been left, and the draft has
gained one placeholder, with a period set apart behind it if the formula ends in one. If it has more
tokens, the file is given up for that. -/
theorem formulas_leave_their_mark (setting : Setting) (s : State) (marks : Marks) {parts : List Part}
    (rest : List Token) (hcapturing : s.capturing = true)
    (hparts : ∀ part ∈ parts, part.IsPlain s.dictionary) (hsign : marks = .sign → parts ≠ [])
    (hdepth : 0 < setting.options.skipDepth)
    (hfile : s.consumed + marks.opening.length + reached setting.options.mathLimit 0 parts ≤
      setting.options.fileLimit)
    (hproof : s.consumed + marks.opening.length + reached setting.options.mathLimit 0 parts ≤
      s.proofStart + setting.options.environmentLimit) :
    if (Formula.tokens parts).length ≤ setting.options.mathLimit then
      round setting (scan setting) .file
          (s.facing (marks.opening ++ (Formula.tokens parts ++ (marks.closing ++ rest)))) =
        .ok .goOn (s.behindFormula marks parts rest) ∧
      (s.behindFormula marks parts rest).draft.toList =
        s.draft.toList ++ mathMark (endsInPeriod parts)
    else
      ∃ t, round setting (scan setting) .file
          (s.facing (marks.opening ++ (Formula.tokens parts ++ (marks.closing ++ rest)))) =
        .error (.fatal (.runawayMath setting.options.mathLimit)) t := by
  split
  · next hlimit =>
    rw [reached_of_le (by omega), Nat.zero_add] at hfile hproof
    exact ⟨round_behindFormula hcapturing hparts hsign hdepth hlimit hfile hproof,
      toList_markMath s.draft _⟩
  · next hlimit =>
    exact round_tooLong hcapturing hparts hsign hdepth (Nat.lt_of_not_le hlimit) hfile hproof

/-- A proof with nothing in it so far. -/
def emptyProof : State := { State.start "main.tex" [] with proofDepth := 1 }

theorem isMathText_text : IsMathText emptyProof.dictionary "text" where
  effect := Effect.ofName?_of_lookup (by decide +kernel)
  find? := Dictionary.find?_empty "text"

/-- A letter, and a text that ends with its last letter. -/
def shortFormula : List Part := [.token (.char 'x'), .text "text" [.char '.', .space]]

theorem isPlain_shortFormula : ∀ part ∈ shortFormula, part.IsPlain emptyProof.dictionary := by
  have hcontent : WellNested [.char '.', .space] := wellNested_of_noBraces (by decide)
  exact List.forall_mem_cons.mpr ⟨trivial,
    List.forall_mem_singleton.mpr ⟨isMathText_text, hcontent, by decide⟩⟩

/-- The formula leaves its mark with a period, and is given up where two tokens are too many. -/
theorem short_formula_displayed :
    (round ⟨.standard, .empty⟩ (scan ⟨.standard, .empty⟩) .file (emptyProof.facing
        (Marks.display.opening ++ (Formula.tokens shortFormula ++ (Marks.display.closing ++ [])))) =
      .ok .goOn (emptyProof.behindFormula .display shortFormula []) ∧
    (emptyProof.behindFormula .display shortFormula []).draft.toList =
      [.placeholder .math, .text " ."]) ∧
    ∃ t, round ⟨{ mathLimit := 2 }, .empty⟩ (scan ⟨{ mathLimit := 2 }, .empty⟩) .file
        (emptyProof.facing
          (Marks.sign.opening ++ (Formula.tokens shortFormula ++ (Marks.sign.closing ++ [])))) =
      .error (.fatal (.runawayMath 2)) t := by
  have hdisplay := formulas_leave_their_mark ⟨.standard, .empty⟩ emptyProof .display [] rfl
    isPlain_shortFormula nofun (by decide) (by decide) (by decide)
  have hsign := formulas_leave_their_mark ⟨{ mathLimit := 2 }, .empty⟩ emptyProof .sign [] rfl
    isPlain_shortFormula nofun (by decide) (by decide) (by decide)
  rw [if_pos (by decide)] at hdisplay
  rw [if_neg (by decide)] at hsign
  exact ⟨hdisplay, hsign⟩

/-- The end of a file in a text is not seen in it, though it is no space, brace, inert name or command:
the period before it counts. -/
theorem file_end_not_seen :
    (∃ t, round ⟨.standard, .empty⟩ (scan ⟨.standard, .empty⟩) .file (emptyProof.facing
          [.mathShift, .control "text", .openGroup, .char '.', .endOfInput, .closeGroup,
            .mathShift]) = .ok .goOn t ∧
        t.draft.toList = [.placeholder .math, .text " ."]) ∧
      ([Token.char '.', .endOfInput].filter (!isInvisible ·)).getLast?.map (·.isChar '.') =
        some false := by
  have hcontent : WellNested [.char '.', .endOfInput] := wellNested_of_noBraces (by decide)
  have hparts : ∀ part ∈ [Part.text "text" [.char '.', .endOfInput]],
      part.IsPlain emptyProof.dictionary :=
    List.forall_mem_singleton.mpr ⟨isMathText_text, hcontent, by decide⟩
  have hround : round ⟨.standard, .empty⟩ (scan ⟨.standard, .empty⟩) .file (emptyProof.facing
      (Marks.sign.opening ++ (Formula.tokens [.text "text" [.char '.', .endOfInput]] ++
        (Marks.sign.closing ++ [])))) = .ok .goOn (emptyProof.behindFormula .sign _ []) :=
    round_behindFormula rfl hparts nofun (by decide) (by decide) (by decide) (by decide)
  exact ⟨⟨_, hround, rfl⟩, rfl⟩

end Scan

end ProofProse
