import ProofProse.Proofs.Flag

/-! # Commands about flags

A source of commands about flags (`FlagStep`) is gone through step by step. What every step does to
the value of a flag (`FlagStep.flag?_apply`) makes it the last one that a step about it has given,
or false if there was none, by induction on the steps (`FlagSteps.flag?_flagsAfter`). The source is
read as the commands that are written in it (`FlagSteps.tokenize_texts`), and each of them is scanned
in one round (`Scan.leads_flagStep`). So all that asks for a flag behind them chooses by the last
value (`Scan.flags_follow_the_last_setting`). -/

namespace ProofProse

open Relation

variable {d : Dictionary} {flag : String}

/-! ### Commands and their values -/

/-- What a command does to a flag. -/
inductive FlagAction where
  /-- Declares it by its test. -/
  | declareTest
  /-- Declares it by its name. -/
  | declare (command : String)
  /-- Sets it by one of its setters. -/
  | setter (value : Bool)
  /-- Sets it to the value given. -/
  | setTo (command : String) (content : List Char)
  /-- Sets it to the value of the command. -/
  | set (command : String) (value : Bool)

/-- A command about a flag. -/
structure FlagStep where
  flag : String
  action : FlagAction

/-- A text in braces. -/
def bracedText (cs : List Char) : List Char := '\x7b' :: (cs ++ ['\x7d'])

/-- Whether the content of an argument is the word for true. -/
def saysTrue (content : List Char) : Bool :=
  Text.sameIgnoringCase (plainText (tokenize content)) "true"

namespace FlagStep

/-- The command. -/
def command (step : FlagStep) : String :=
  match step.action with
  | .declareTest => "newif"
  | .declare command => command
  | .setter value => setterName step.flag value
  | .setTo command _ => command
  | .set command _ => command

/-- What stands behind the command. -/
def operands (step : FlagStep) : List Char :=
  match step.action with
  | .declareTest => '\\' :: (testName step.flag).toList
  | .declare _ => bracedText step.flag.toList
  | .setter _ => []
  | .setTo _ content => bracedText step.flag.toList ++ bracedText content
  | .set _ _ => bracedText step.flag.toList

/-- How the command stands in a source. -/
def text (step : FlagStep) : List Char := '\\' :: (step.command.toList ++ step.operands)

/-- The value that the command gives, if it gives one. -/
def assigned? (step : FlagStep) : Option Bool :=
  match step.action with
  | .declareTest => none
  | .declare _ => none
  | .setter value => some value
  | .setTo _ content => some (saysTrue content)
  | .set _ value => some value

/-- What the command does to a dictionary. -/
def apply (step : FlagStep) (d : Dictionary) : Dictionary :=
  match step.action with
  | .declareTest => d.declareFlag step.flag
  | .declare _ => d.declareFlag step.flag
  | .setter value => (d.setFlag step.flag value).1
  | .setTo _ content => ((d.declareFlag step.flag).setFlag step.flag (saysTrue content)).1
  | .set _ value => ((d.declareFlag step.flag).setFlag step.flag value).1

/-- The command is one of those about flags, and the content of an argument is a text. -/
def IsCommand (step : FlagStep) : Prop :=
  match step.action with
  | .declareTest => True
  | .declare command => command ∈ declarers
  | .setter _ => True
  | .setTo command content => command ∈ valueSetters ∧ Source.backslashes content % 2 = 0 ∧
      IsGroup (tokenize content)
  | .set command value => (command, value) ∈ fixedSetters

/-- A setter of a flag is a command only where there is the flag. -/
def NeedsFlag (step : FlagStep) : Prop := ∃ value, step.action = .setter value

end FlagStep

/-- The flags that some commands are about. -/
def mentioned (steps : List FlagStep) : List String := steps.map FlagStep.flag

/-- Commands about flags, one behind the other, where a setter of a flag does not come first. -/
inductive FlagSteps : List FlagStep → Prop
  | nil : FlagSteps []
  | snoc {steps : List FlagStep} {step : FlagStep} (h : FlagSteps steps)
      (hname : IsFlagName step.flag) (hcommand : step.IsCommand)
      (hflag : step.NeedsFlag → step.flag ∈ mentioned steps) : FlagSteps (steps ++ [step])

/-- The values that a flag is given, in order. -/
def assignments (steps : List FlagStep) (flag : String) : List Bool :=
  (steps.filter fun step => step.flag = flag).filterMap FlagStep.assigned?

/-- The last value that a flag is given. A flag that is only declared is false. -/
def lastValue (steps : List FlagStep) (flag : String) : Bool :=
  (assignments steps flag).getLast?.getD false

/-- The dictionary behind some commands about flags, in a source that has defined nothing else. -/
def flagsAfter (steps : List FlagStep) : Dictionary := steps.foldl (fun d step => step.apply d) {}

variable {step : FlagStep} {steps : List FlagStep}

/-! ### What the commands do to the flags -/

theorem FlagStep.find?_apply (step : FlagStep) (d : Dictionary) (name : String) :
    (step.apply d).find? name = d.find? name := by
  obtain ⟨flag, action⟩ := step
  cases action with
  | declareTest => rfl
  | declare command => rfl
  | setter value => exact d.find?_setFlag flag value name
  | setTo command content => exact (d.declareFlag flag).find?_setFlag flag (saysTrue content) name
  | set command value => exact (d.declareFlag flag).find?_setFlag flag value name

/-- **A command about a flag** gives its flag the value that it assigns. If it assigns none the flag
keeps its value, or is false from now on. Nothing happens to other flags. -/
theorem FlagStep.flag?_apply (hflag : step.NeedsFlag → (d.flag? step.flag).isSome = true)
    (other : String) : (step.apply d).flag? other =
      if step.flag = other then some (step.assigned?.getD ((d.flag? other).getD false))
      else d.flag? other := by
  obtain ⟨flag, action⟩ := step
  cases action with
  | declareTest => exact d.flag?_declareFlag flag other
  | declare command => exact d.flag?_declareFlag flag other
  | setter value => exact Dictionary.flag?_setFlag (hflag ⟨value, rfl⟩) value other
  | setTo command content => exact d.flag?_declareFlag_setFlag flag other (saysTrue content)
  | set command value => exact d.flag?_declareFlag_setFlag flag other value

theorem flagsAfter_concat (steps : List FlagStep) (step : FlagStep) :
    flagsAfter (steps ++ [step]) = step.apply (flagsAfter steps) :=
  List.foldl_concat ..

theorem mem_mentioned_concat :
    flag ∈ mentioned (steps ++ [step]) ↔ flag ∈ mentioned steps ∨ step.flag = flag := by
  simp [mentioned, eq_comm]

/-- A command that comes last decides the value of its flag, if it gives one. -/
theorem lastValue_concat (steps : List FlagStep) (step : FlagStep) (flag : String) :
    lastValue (steps ++ [step]) flag =
      if step.flag = flag then step.assigned?.getD (lastValue steps flag)
      else lastValue steps flag := by
  unfold lastValue assignments
  rw [List.filter_append, List.filterMap_append]
  by_cases h : step.flag = flag
  · rw [List.filter_singleton, if_pos h, decide_eq_true h]
    cases hvalue : step.assigned? with
    | none => simp [hvalue]
    | some value => simp [hvalue]
  · rw [List.filter_singleton, if_neg h, decide_eq_false h]
    simp

theorem lastValue_of_not_mentioned (h : flag ∉ mentioned steps) : lastValue steps flag = false := by
  have hnone : steps.filter (fun step => step.flag = flag) = [] := by
    refine List.filter_eq_nil_iff.mpr fun step hstep hflag => h ?_
    exact List.mem_map.mpr ⟨step, hstep, of_decide_eq_true hflag⟩
  unfold lastValue assignments
  rw [hnone]
  rfl

/-- **The value of a flag** behind some commands is the last one that it was given, and only the
flags that were mentioned have one. -/
theorem FlagSteps.flag?_flagsAfter (h : FlagSteps steps) (flag : String) :
    (flagsAfter steps).flag? flag =
      if flag ∈ mentioned steps then some (lastValue steps flag) else none := by
  induction h generalizing flag with
  | nil => exact Dictionary.flag?_empty flag
  | @snoc steps step h hname hcommand hflag ih =>
    have hneeded : step.NeedsFlag → ((flagsAfter steps).flag? step.flag).isSome = true := by
      intro hneeds
      rw [ih, if_pos (hflag hneeds)]
      rfl
    have hbefore : ((flagsAfter steps).flag? flag).getD false = lastValue steps flag := by
      rw [ih]
      split
      · rfl
      · next hnot => rw [lastValue_of_not_mentioned hnot]; rfl
    rw [flagsAfter_concat, FlagStep.flag?_apply hneeded, lastValue_concat, hbefore, ih]
    by_cases hsame : step.flag = flag
    · rw [if_pos hsame, if_pos hsame, if_pos (mem_mentioned_concat.mpr (.inr hsame))]
    · have hmem : flag ∈ mentioned (steps ++ [step]) ↔ flag ∈ mentioned steps := by
        rw [mem_mentioned_concat, or_iff_left hsame]
      rw [if_neg hsame, if_neg hsame]
      exact if_congr hmem.symm rfl rfl

theorem FlagSteps.isSome_flag?_flagsAfter (h : FlagSteps steps) :
    ((flagsAfter steps).flag? flag).isSome = true ↔ flag ∈ mentioned steps := by
  rw [h.flag?_flagsAfter]
  split
  · next hmem => exact iff_of_true rfl hmem
  · next hmem => exact iff_of_false Bool.false_ne_true hmem

theorem FlagSteps.holdsFlags (h : FlagSteps steps) : (flagsAfter steps).HoldsFlags where
  names := by
    intro name
    induction h with
    | nil => exact Dictionary.find?_empty name
    | @snoc steps step _ _ _ _ ih => rw [flagsAfter_concat, FlagStep.find?_apply, ih]
  flags := by
    intro flag hflag
    have hmem := h.isSome_flag?_flagsAfter.mp hflag
    clear hflag
    induction h with
    | nil => cases hmem
    | snoc _ hname _ _ ih =>
      obtain hmem | rfl := mem_mentioned_concat.mp hmem
      · exact ih hmem
      · exact hname

/-! ### How the commands are read -/

namespace FlagStep

/-- What stands behind the command is read as this. -/
def operandTokens (step : FlagStep) : List Token :=
  match step.action with
  | .declareTest => [.control (testName step.flag)]
  | .declare _ => braced (charTokens step.flag)
  | .setter _ => []
  | .setTo _ content => braced (charTokens step.flag) ++ braced (tokenize content)
  | .set _ _ => braced (charTokens step.flag)

/-- The command as it is read. -/
def tokens (step : FlagStep) : List Token := .control step.command :: step.operandTokens

/-- The effect of a command of the table. -/
def effect? (step : FlagStep) : Option Effect :=
  match step.action with
  | .declareTest => some (.definition .newTest)
  | .declare _ => some (.definition .newFlag)
  | .setter _ => none
  | .setTo _ _ => some (.choice .setFlagTo)
  | .set _ value => some (.choice (.setFlag value))

theorem IsCommand.mem_flagCommands (h : step.IsCommand) {effect : Effect}
    (heffect : step.effect? = some effect) : (step.command, effect) ∈ flagCommands := by
  have hdeclare : ∀ command ∈ declarers, (command, Effect.definition .newFlag) ∈ flagCommands := by
    decide
  have hsetTo : ∀ command ∈ valueSetters, (command, Effect.choice .setFlagTo) ∈ flagCommands := by
    decide
  have hset : ∀ entry ∈ fixedSetters, (entry.1, Effect.choice (.setFlag entry.2)) ∈ flagCommands := by
    decide
  obtain ⟨flag, action⟩ := step
  cases action with
  | declareTest =>
    obtain rfl := Option.some.inj heffect
    exact List.mem_cons_self
  | declare command =>
    obtain rfl := Option.some.inj heffect
    exact hdeclare command h
  | setter value => cases heffect
  | setTo command content =>
    obtain rfl := Option.some.inj heffect
    exact hsetTo command h.1
  | set command value =>
    obtain rfl := Option.some.inj heffect
    exact hset (command, value) h

theorem letters_command (hname : IsFlagName step.flag) (h : step.IsCommand) :
    step.command.toList ≠ [] ∧ ∀ c ∈ step.command.toList, Lexer.isNameLetter c = true := by
  cases heffect : step.effect? with
  | some effect => exact letters_flagCommands (h.mem_flagCommands heffect)
  | none =>
    have hwords : ∀ value, (truthWord value).toList.all Lexer.isNameLetter = true := by decide
    obtain ⟨flag, action⟩ := step
    cases action with
    | setter value =>
      show (setterName flag value).toList ≠ [] ∧ ∀ c ∈ (setterName flag value).toList, _
      rw [toList_setterName]
      refine ⟨List.append_ne_nil_of_left_ne_nil ?_ _,
        List.forall_mem_append.mpr ⟨hname.letters, List.all_eq_true.mp (hwords value)⟩⟩
      exact mt String.toList_eq_nil_iff.mp hname.nonempty
    | _ => cases heffect

end FlagStep

theorem tokenize_bracedText {cs : List Char} (heven : Source.backslashes cs % 2 = 0)
    (rest : List Char) : tokenize (bracedText cs ++ rest) = braced (tokenize cs) ++ tokenize rest := by
  rw [← Lexer.tokenize_group heven rest]
  unfold bracedText
  rw [List.cons_append, List.append_assoc]
  rfl

theorem IsFlagName.tokenize_bracedText (h : IsFlagName flag) (rest : List Char) :
    tokenize (bracedText flag.toList ++ rest) = braced (charTokens flag) ++ tokenize rest := by
  have hslash : '\\' ∉ flag.toList := fun hmem => absurd (h.letters _ hmem) (by decide)
  have heven : Source.backslashes flag.toList % 2 = 0 := by rw [Lexer.backslashes_eq_zero hslash]
  have hplain : tokenize flag.toList = charTokens flag := by
    rw [← List.append_nil flag.toList,
      Lexer.tokenize_chars fun c hc => Lexer.isPlain_of_isNameLetter (h.letters c hc)]
    exact List.append_nil _
  rw [ProofProse.tokenize_bracedText heven, hplain]

namespace FlagStep

/-- What stands behind the command begins with a structural character, as what is behind it does. -/
theorem tokenize_operands (hname : IsFlagName step.flag) (h : step.IsCommand) {behind : List Char}
    (hbehind : behind.head?.all Lexer.structural.contains = true) :
    (step.operands ++ behind).head?.all Lexer.structural.contains = true ∧
      tokenize (step.operands ++ behind) = step.operandTokens ++ tokenize behind := by
  obtain ⟨flag, action⟩ := step
  cases action with
  | declareTest =>
    have hletters : ∀ c ∈ (testName flag).toList, Lexer.isNameLetter c = true := by
      have hif : Lexer.isNameLetter 'i' = true ∧ Lexer.isNameLetter 'f' = true := by decide
      rw [toList_testName]
      exact List.forall_mem_cons.mpr ⟨hif.1, List.forall_mem_cons.mpr ⟨hif.2, hname.letters⟩⟩
    have hne : (testName flag).toList ≠ [] := by
      rw [toList_testName]
      exact List.cons_ne_nil _ _
    have hword := Lexer.tokenize_word_structural hne hletters hbehind
    rw [String.ofList_toList] at hword
    exact ⟨by rfl, hword⟩
  | declare command => exact ⟨by rfl, hname.tokenize_bracedText behind⟩
  | setter value => exact ⟨hbehind, rfl⟩
  | setTo command content =>
    obtain ⟨-, heven, -⟩ := h
    refine ⟨by rfl, ?_⟩
    show tokenize (bracedText flag.toList ++ bracedText content ++ behind) =
      braced (charTokens flag) ++ braced (tokenize content) ++ tokenize behind
    rw [List.append_assoc, hname.tokenize_bracedText, ProofProse.tokenize_bracedText heven,
      List.append_assoc]
  | set command value => exact ⟨by rfl, hname.tokenize_bracedText behind⟩

/-- **A command about a flag** in a source is read as it is, in front of a structural character. -/
theorem tokenize_text (hname : IsFlagName step.flag) (h : step.IsCommand) {behind : List Char}
    (hbehind : behind.head?.all Lexer.structural.contains = true) :
    tokenize (step.text ++ behind) = step.tokens ++ tokenize behind := by
  obtain ⟨hstructural, hoperands⟩ := tokenize_operands hname h hbehind
  obtain ⟨hne, hletters⟩ := letters_command hname h
  unfold text tokens
  rw [List.cons_append, List.append_assoc, Lexer.tokenize_word_structural hne hletters hstructural,
    hoperands, String.ofList_toList]
  rfl

end FlagStep

theorem FlagSteps.tokenize_texts (h : FlagSteps steps) {behind : List Char}
    (hbehind : behind.head?.all Lexer.structural.contains = true) :
    tokenize (steps.flatMap FlagStep.text ++ behind) =
      steps.flatMap FlagStep.tokens ++ tokenize behind := by
  induction h generalizing behind with
  | nil => rfl
  | @snoc steps step _ hname hcommand _ ih =>
    have hlast : (step.text ++ behind).head?.all Lexer.structural.contains = true := by
      have hslash : Lexer.structural.contains '\\' = true := by decide
      exact hslash
    rw [List.flatMap_append, List.flatMap_singleton, List.flatMap_append, List.flatMap_singleton,
      List.append_assoc, List.append_assoc, ih hlast, FlagStep.tokenize_text hname hcommand hbehind]

/-! ### How the commands are scanned -/

namespace Scan

variable {setting : Setting} {nested : Frame → Scan Flow} {frame : Frame} {s : State}
  {rest : List Token}

theorem argumentText_flag (hname : IsFlagName flag) (s : State) (rest : List Token) :
    argumentText (s.facing (braced (charTokens flag) ++ rest)) =
      .ok flag (s.past (braced (charTokens flag)).length rest) := by
  rw [argumentText_braced (isGroup_flag flag), plainText_flag hname]

theorem setFlag_ok (hname : IsFlagName flag) (value : Bool) (s : State) :
    setFlag flag value s =
      .ok () { s with dictionary := ((s.dictionary.declareFlag flag).setFlag flag value).1 } := by
  unfold setFlag
  rw [if_neg hname.not_isEmpty]
  rfl

theorem declareTest_flag (hname : IsFlagName flag) (s : State) (rest : List Token) :
    declareTest (s.facing (.control (testName flag) :: rest)) =
      .ok () { s.past 1 rest with dictionary := s.dictionary.declareFlag flag } := by
  have hnext : next (s.facing (.control (testName flag) :: rest)) =
      .ok (some (.control (testName flag))) (s.past 1 rest) := next_cons rfl
  unfold declareTest
  rw [bind_ok hnext]
  dsimp only
  unfold testName
  rw [Text.dropHead?_append]
  dsimp only
  rw [if_neg hname.not_isEmpty]
  rfl

theorem declareFlag_flag (hname : IsFlagName flag) (s : State) (rest : List Token) :
    declareFlag (s.facing (braced (charTokens flag) ++ rest)) =
      .ok () { s.past (braced (charTokens flag)).length rest with
        dictionary := s.dictionary.declareFlag flag } := by
  unfold declareFlag
  rw [bind_ok (argumentText_flag hname s rest), if_neg hname.not_isEmpty]
  rfl

theorem setFlagTo_flag (hname : IsFlagName flag) {content : List Char}
    (hcontent : IsGroup (tokenize content)) (s : State) (rest : List Token) :
    choice .setFlagTo (s.facing (braced (charTokens flag) ++ braced (tokenize content) ++ rest)) =
      .ok () { s.past (braced (charTokens flag) ++ braced (tokenize content)).length rest with
        dictionary := ((s.dictionary.declareFlag flag).setFlag flag (saysTrue content)).1 } := by
  let t := s.past (braced (charTokens flag)).length []
  have hvalue : argumentText (t.facing (braced (tokenize content) ++ rest)) =
      .ok (plainText (tokenize content)) (t.past (braced (tokenize content)).length rest) :=
    argumentText_braced hcontent rest
  have hflag : argumentText (s.facing (braced (charTokens flag) ++ (braced (tokenize content) ++
      rest))) = .ok flag (t.facing (braced (tokenize content) ++ rest)) :=
    argumentText_flag hname s _
  show (argumentText >>= fun flag => argumentText >>= fun value =>
    setFlag flag (Text.sameIgnoringCase value "true")) _ = _
  rw [List.append_assoc, bind_ok hflag, bind_ok hvalue, setFlag_ok hname, State.past_past,
    List.length_append, Nat.add_comm]
  rfl

theorem setFlag_flag (hname : IsFlagName flag) (value : Bool) (s : State) (rest : List Token) :
    choice (.setFlag value) (s.facing (braced (charTokens flag) ++ rest)) =
      .ok () { s.past (braced (charTokens flag)).length rest with
        dictionary := ((s.dictionary.declareFlag flag).setFlag flag value).1 } := by
  show (argumentText >>= fun flag => setFlag flag value) _ = _
  rw [bind_ok (argumentText_flag hname s rest), setFlag_ok hname]
  rfl

/-- A command of the table reads the flag, and does to it what it should. -/
theorem applyEffect_flagStep {step : FlagStep} (hname : IsFlagName step.flag) (h : step.IsCommand)
    {effect : Effect} (heffect : step.effect? = some effect) (s : State) (rest : List Token) :
    applyEffect setting step.command effect (s.facing (step.operandTokens ++ rest)) =
      .ok () { s.past step.operandTokens.length rest with
        dictionary := step.apply s.dictionary } := by
  obtain ⟨flag, action⟩ := step
  cases action with
  | declareTest =>
    obtain rfl := Option.some.inj heffect
    exact declareTest_flag hname s rest
  | declare command =>
    obtain rfl := Option.some.inj heffect
    exact declareFlag_flag hname s rest
  | setter value => cases heffect
  | setTo command content =>
    obtain rfl := Option.some.inj heffect
    exact setFlagTo_flag hname h.2.2 s rest
  | set command value =>
    obtain rfl := Option.some.inj heffect
    exact setFlag_flag hname value s rest

/-- **One command about a flag** is scanned in one round, and does to the flags what it should. -/
theorem leads_flagStep {step : FlagStep} (hs : s.dictionary.HoldsFlags)
    (hname : IsFlagName step.flag) (h : step.IsCommand)
    (hflag : step.NeedsFlag → (s.dictionary.flag? step.flag).isSome = true) (rest : List Token) :
    Leads (s.facing (step.tokens ++ rest))
      { s.past step.tokens.length rest with dictionary := step.apply s.dictionary } := by
  intro setting nested frame
  cases heffect : step.effect? with
  | some effect =>
    let t := s.past 1 []
    have happly : applyEffect setting step.command effect (s.past 1 (step.operandTokens ++ rest)) =
        .ok () { t.past step.operandTokens.length rest with
          dictionary := step.apply s.dictionary } :=
      applyEffect_flagStep hname h heffect t rest
    obtain ⟨hstructural, htable⟩ := ofName?_flagCommands (h.mem_flagCommands heffect)
    show round setting nested frame (s.facing (.control step.command ::
      (step.operandTokens ++ rest))) = _
    rw [round_effect hs hstructural htable]
    unfold goingOn
    rw [bind_ok happly, State.past_past]
    rfl
  | none =>
    obtain ⟨flag, action⟩ := step
    cases action with
    | setter value => exact round_setter hs (hflag ⟨value, rfl⟩) value rest
    | _ => cases heffect

end Scan

/-- The state behind some commands about flags, in a source that has defined nothing else. -/
def State.behindFlags (s : State) (steps : List FlagStep) : State :=
  { s.past (steps.flatMap FlagStep.tokens).length [] with dictionary := flagsAfter steps }

namespace Scan

variable {s : State}

/-- **The commands are scanned** one after the other, by induction on the commands. -/
theorem leads_flagSteps (h : FlagSteps steps) (hs : s.dictionary = {}) (rest : List Token) :
    ReflTransGen Leads (s.facing (steps.flatMap FlagStep.tokens ++ rest))
      ((s.behindFlags steps).facing rest) := by
  induction h generalizing rest with
  | nil =>
    have hnone : (s.behindFlags []).facing rest = s.facing rest := by
      show ({ s.facing rest with dictionary := {} } : State) = s.facing rest
      rw [← hs]
      rfl
    rw [hnone]
    exact .refl
  | @snoc steps step h hname hcommand hflag ih =>
    have hstep := leads_flagStep (s := s.behindFlags steps) h.holdsFlags hname hcommand
      (fun hneeds => h.isSome_flag?_flagsAfter.mpr (hflag hneeds)) rest
    have hstate : (s.behindFlags (steps ++ [step])).facing rest =
        { (s.behindFlags steps).past step.tokens.length rest with
          dictionary := step.apply (s.behindFlags steps).dictionary } := by
      unfold State.behindFlags State.facing State.past State.consumed
      rw [flagsAfter_concat, List.flatMap_append, List.flatMap_singleton, List.length_append,
        ← Nat.add_assoc]
    rw [List.flatMap_append, List.flatMap_singleton, List.append_assoc, hstate]
    exact (ih (step.tokens ++ rest)).tail hstep

/-- **Flags follow the last setting.** A source of commands about flags is scanned command by command
when nothing is defined before. Behind it, and wherever the flags are as they are there, the commands
that ask for a flag that was declared or set pick their argument by the last value that the flag was
given, or as false if it was only declared. The test of the flag takes its branch by the same value,
unless it is a setter of another flag as well. -/
theorem flags_follow_the_last_setting (s : State) (hs : s.dictionary = {}) (h : FlagSteps steps) :
    (∀ behind : List Char, behind.head?.all Lexer.structural.contains = true →
      ReflTransGen Leads (s.facing (tokenize (steps.flatMap FlagStep.text ++ behind)))
        ((s.behindFlags steps).facing (tokenize behind))) ∧
    ∀ t : State, t.dictionary = flagsAfter steps → ∀ flag ∈ mentioned steps,
      PicksArgument "ifbool" (charTokens flag) t (lastValue steps flag) ∧
      PicksArgument "iftoggle" (charTokens flag) t (lastValue steps flag) ∧
      PicksArgument "ifthenelse" (flagCondition flag) t (lastValue steps flag) ∧
      (¬(flag = "alse" ∧ "i" ∈ mentioned steps) →
        TakesBranch (testName flag) t (lastValue steps flag)) ∧
      (flag = "alse" → "i" ∈ mentioned steps → ∀ setting nested frame rest,
        round setting nested frame (t.facing (.control (testName flag) :: rest)) =
          .ok .goOn { t.past 1 rest with dictionary := (t.dictionary.setFlag "i" false).1 }) := by
  refine ⟨fun behind hbehind => ?_, fun t ht flag hflag => ?_⟩
  · rw [h.tokenize_texts hbehind]
    exact leads_flagSteps h hs (tokenize behind)
  have hholds : t.dictionary.HoldsFlags := by
    rw [ht]
    exact h.holdsFlags
  have hvalues : ∀ other, t.dictionary.flag? other =
      if other ∈ mentioned steps then some (lastValue steps other) else none := by
    rw [ht]
    exact h.flag?_flagsAfter
  have hvalue : t.dictionary.flag? flag = some (lastValue steps flag) := by
    rw [hvalues, if_pos hflag]
  obtain ⟨hbool, htoggle, hcondition, htest⟩ := questions_of_a_flag hholds hvalue
  refine ⟨hbool, htoggle, hcondition, fun hnot => htest fun halse => ?_, ?_⟩
  · rw [hvalues, if_neg fun hi => hnot ⟨halse, hi⟩]
  · rintro rfl hi setting nested frame rest
    have hset : (t.dictionary.flag? "i").isSome = true := by
      rw [hvalues, if_pos hi]
      rfl
    exact round_setter hholds hset false rest

/-- Two flags that are declared and set in turn. -/
def twoFlags : List FlagStep :=
  [⟨"draft", .declareTest⟩, ⟨"i", .setTo "setbool" [' ', 'T', 'r', 'u', 'e']⟩,
    ⟨"draft", .setter true⟩, ⟨"draft", .declare "newtoggle"⟩, ⟨"i", .set "boolfalse" false⟩]

theorem isFlagName_i : IsFlagName "i" :=
  isFlagName_of_contains (by decide) (by decide) (by decide) (by decide +kernel)

theorem flagSteps_twoFlags : FlagSteps twoFlags := by
  have hdraft : IsFlagName "draft" :=
    isFlagName_of_contains (by decide) (by decide) (by decide) (by decide +kernel)
  have hgroup : IsGroup (tokenize [' ', 'T', 'r', 'u', 'e']) :=
    ⟨⟨by decide, by decide⟩, wellNested_of_noBraces (by decide)⟩
  have hdeclares : FlagStep.IsCommand ⟨"draft", .declare "newtoggle"⟩ := by
    show "newtoggle" ∈ declarers
    decide
  have hsets : FlagStep.IsCommand ⟨"i", .set "boolfalse" false⟩ := by
    show ("boolfalse", false) ∈ fixedSetters
    decide
  have hfirst : FlagSteps (twoFlags.take 1) := FlagSteps.nil.snoc hdraft trivial nofun
  have hsecond : FlagSteps (twoFlags.take 2) :=
    hfirst.snoc isFlagName_i ⟨by decide, by decide, hgroup⟩ nofun
  have hthird : FlagSteps (twoFlags.take 3) := hsecond.snoc hdraft trivial fun _ => by decide
  have hfourth : FlagSteps (twoFlags.take 4) := hthird.snoc hdraft hdeclares nofun
  exact hfourth.snoc isFlagName_i hsets nofun

/-- A flag that is declared again keeps its value, and settings of the other flag do not count. -/
theorem two_flags_set :
    let s := State.start "main.tex" []
    s.dictionary = {} ∧ FlagSteps twoFlags ∧
      twoFlags.map (fun step => String.ofList step.text) =
        ["\\newif\\ifdraft", "\\setbool\x7bi\x7d\x7b True\x7d", "\\drafttrue",
          "\\newtoggle\x7bdraft\x7d", "\\boolfalse\x7bi\x7d"] ∧
      ReflTransGen Leads (s.facing (tokenize (twoFlags.flatMap FlagStep.text)))
        (s.behindFlags twoFlags) ∧
      TakesBranch "ifdraft" (s.behindFlags twoFlags) true ∧
      PicksArgument "iftoggle" (charTokens "draft") (s.behindFlags twoFlags) true ∧
      PicksArgument "ifthenelse" (flagCondition "i") (s.behindFlags twoFlags) false := by
  intro s
  obtain ⟨hscan, hflags⟩ := flags_follow_the_last_setting s rfl flagSteps_twoFlags
  have hleads := hscan [] rfl
  rw [List.append_nil] at hleads
  have hdraft : lastValue twoFlags "draft" = true := by decide
  have hi : lastValue twoFlags "i" = false := by decide
  have htest : testName "draft" = "ifdraft" := by decide
  obtain ⟨-, htoggle, -, htakes, -⟩ := hflags (s.behindFlags twoFlags) rfl "draft" (by decide)
  obtain ⟨-, -, hcondition, -, -⟩ := hflags (s.behindFlags twoFlags) rfl "i" (by decide)
  rw [hdraft] at htoggle htakes
  rw [hi] at hcondition
  rw [htest] at htakes
  exact ⟨rfl, flagSteps_twoFlags, by decide, hleads, htakes (by decide), htoggle, hcondition⟩

/-- The test of one flag is taken for a setter of the other, and not for a test. -/
theorem test_taken_for_a_setter :
    let steps : List FlagStep := [⟨"i", .declareTest⟩, ⟨"alse", .declareTest⟩]
    let s := (State.start "main.tex" []).behindFlags steps
    FlagSteps steps ∧ (∀ flag ∈ mentioned steps, beginsLikeTest flag = false) ∧
      "alse" ∈ mentioned steps ∧ lastValue steps "alse" = false ∧
      ¬TakesBranch (testName "alse") s (lastValue steps "alse") := by
  intro steps s
  have halse : IsFlagName "alse" :=
    isFlagName_of_contains (by decide) (by decide) (by decide) (by decide +kernel)
  have hfirst : FlagSteps (steps.take 1) := FlagSteps.nil.snoc isFlagName_i trivial nofun
  have hsteps : FlagSteps steps := hfirst.snoc halse trivial nofun
  refine ⟨hsteps, by decide, by decide, by decide, fun htakes => ?_⟩
  -- An empty branch would be passed over with its end, which is left where a flag is set.
  have hend := htakes ⟨.standard, .empty⟩ (fun _ => return .close) .file [] "fi" [] .nil (by decide)
    (Nat.zero_le _)
  have hset : (s.dictionary.flag? "i").isSome = true := hsteps.isSome_flag?_flagsAfter.mpr (by decide)
  have hround : round ⟨.standard, .empty⟩ (fun _ => return .close) .file
      (s.facing (.control (setterName "i" false) :: [.control "fi"])) = _ :=
    round_setter hsteps.holdsFlags hset false [.control "fi"]
  have hstates := (EStateM.Result.ok.inj (hround.symm.trans hend)).2
  cases congrArg (fun t : State => t.stream.ahead) hstates

end Scan

end ProofProse
