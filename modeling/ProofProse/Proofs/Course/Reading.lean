import ProofProse.Proofs.Course
import ProofProse.Proofs.Taking
import ProofProse.Scan.Choice
import ProofProse.Scan.Declaration
import ProofProse.Scan.Expansion

/-! # The course of reading and defining

Reading arguments, calls, branches and definitions leads along `Course`. Only the stream, the
included files, the dictionary and the warnings change. -/

namespace ProofProse

namespace Scan

variable {setting : Setting}

/-! ### Arguments -/

theorem course_finishArgument (context : String) (argument : Argument) :
    Along (Course setting) (finishArgument context argument) := by
  cases argument with
  | closed content => exact along_pure steady_course content
  | runaway => exact along_drop steady_course _
  | ended => exact along_endOfTokens steady_course context

theorem course_balanced (context : String) : Along (Course setting) (balanced context) :=
  (course_take _).bind steady_course fun _ => course_finishArgument context _

theorem course_argument : Along (Course setting) argument := by
  unfold argument
  refine course_skipSpaces.bind steady_course fun _ => ?_
  refine course_next.bind steady_course fun t? => ?_
  split
  · exact along_endOfTokens steady_course _
  · exact course_balanced _
  · split
    · exact (course_pushBackOne _).bind steady_course fun _ => along_pure steady_course _
    · exact along_pure steady_course _

theorem course_argumentText : Along (Course setting) argumentText :=
  course_argument.bind steady_course fun _ => along_pure steady_course _

theorem course_optionalArgument : Along (Course setting) optionalArgument := by
  unfold optionalArgument
  refine along_get_bind_of_forall fun s => ?_
  split
  · refine (course_skip _).bind steady_course fun _ => ?_
    refine (course_take _).bind steady_course fun _ => ?_
    exact (course_finishArgument _ _).bind steady_course fun _ => along_pure steady_course _
  · exact along_pure steady_course _

theorem course_number : Along (Course setting) number := by
  unfold number
  refine along_get_bind fun s => ?_
  have hread : Course setting s { s with stream := s.stream.skipNumber.1 } :=
    course_stream (Stream.passed_skipNumber s.stream).consumed_le
  have hstep : onStream (fun _ => s.stream.skipNumber.1) s =
      .ok () { s with stream := s.stream.skipNumber.1 } := rfl
  dsimp only
  rw [after_bind_ok hstep]
  split
  · exact hread.trans (course_argument.discard _)
  · exact hread

theorem course_operand (operand : Operand) : Along (Course setting) (Scan.operand operand) := by
  cases operand with
  | star => exact course_skipChar '*'
  | optional => exact course_optionalArgument.discard
  | mandatory => exact course_argument.discard
  | dimension => exact course_onStream_of_passed Stream.passed_skipDimension
  | number => exact course_number
  | equals => exact course_onStream_of_passed Stream.passed_skipEquals

theorem course_operands (signature : Signature) : Along (Course setting) (operands signature) :=
  along_forM steady_course course_operand signature

/-! ### Calls of definitions -/

theorem course_leadFrom : ∀ (lead seen : List Token),
    Along (Course setting) (leadFrom seen lead)
  | [], _ => along_pure steady_course _
  | expected :: lead, seen => by
    unfold leadFrom
    refine course_next.bind steady_course fun t? => ?_
    split
    · exact (course_pushBack _).bind steady_course fun _ => along_pure steady_course _
    · split
      · exact course_leadFrom lead _
      · exact (course_pushBack _).bind steady_course fun _ => along_pure steady_course _

theorem course_callArguments (definition : Definition) :
    Along (Course setting) (callArguments definition) :=
  along_callArguments steady_course course_argument course_optionalArgument
    (fun _ => course_take _) definition

theorem course_expand (name : String) (definition : Definition) :
    Along (Course setting) (expand name definition) := by
  unfold expand
  refine Along.bind steady_course ?_ fun expansion => ?_
  · unfold expansion?
    refine (course_leadFrom _ _).bind steady_course fun fits => ?_
    split
    · exact (course_callArguments definition).bind steady_course fun _ => along_pure steady_course _
    · exact along_pure steady_course _
  · split
    · exact course_pushBack _
    · exact course_warn _

/-! ### Conditionals -/

theorem course_skipBranch (atElse : Bool) : Along (Course setting) (skipBranch setting atElse) := by
  unfold skipBranch
  refine (course_take _).bind steady_course fun ending => ?_
  split
  · exact along_pure steady_course _
  · exact along_fail steady_course _
  · exact along_fail steady_course _

theorem course_beginConditional (truth : Bool) :
    Along (Course setting) (beginConditional setting truth) := by
  unfold beginConditional
  split
  · exact along_pure steady_course _
  · exact course_skipBranch true

theorem course_bareTest (name : String) : Along (Course setting) (bareTest setting name) := by
  unfold bareTest
  split
  · exact course_beginConditional true
  · split
    · refine course_skipSpaces.bind steady_course fun _ => ?_
      refine (along_peek steady_course).bind steady_course fun t? => ?_
      dsimp only
      split
      · exact (course_skip 1).bind steady_course fun _ => course_beginConditional _
      · exact course_beginConditional _
    · exact course_beginConditional false

theorem course_choose (truth : Bool) : Along (Course setting) (choose truth) :=
  course_argument.bind steady_course fun _ =>
    course_argument.bind steady_course fun _ => course_pushBack _

/-- Two changes of the dictionary make a flag have a value, whether it was declared or not. -/
theorem course_setFlag (flag : String) (value : Bool) :
    Along (Course setting) (setFlag flag value) := by
  unfold setFlag
  split
  · exact along_pure steady_course _
  · intro s
    exact (Course.change s _ (.declareFlag _ flag)).trans (.change _ _ (.setFlag _ flag value))

theorem course_choice (kind : ChoiceKind) : Along (Course setting) (choice kind) := by
  have htext : Along (Course setting) argumentText := course_argumentText
  cases kind with
  | ifThenElse =>
    refine course_argument.bind steady_course fun _ => ?_
    exact along_get_bind_of_forall fun s => course_choose _
  | ifEqual =>
    refine (course_skipChar '*').bind steady_course fun _ => ?_
    exact htext.bind steady_course fun _ => htext.bind steady_course fun _ => course_choose _
  | ifEmpty => exact htext.bind steady_course fun _ => course_choose _
  | ifFlag =>
    refine htext.bind steady_course fun _ => ?_
    exact along_get_bind_of_forall fun s => course_choose _
  | setFlagTo =>
    exact htext.bind steady_course fun _ => htext.bind steady_course fun _ => course_setFlag _ _
  | setFlag value => exact htext.bind steady_course fun _ => course_setFlag _ value
  | ifDefined byName defined =>
    refine course_argument.bind steady_course fun _ => ?_
    exact along_get_bind_of_forall fun s => course_choose _
  | untested signature =>
    exact (course_operands signature).bind steady_course fun _ => course_choose false

/-! ### Definitions -/

theorem course_define (name : String) (definition : Definition) :
    Along (Course setting) (define name definition) := by
  intro s
  cases h : s.dictionary.define name definition with
  | ok dictionary =>
    rw [after_ok (define_ok h)]
    exact .change s dictionary (.define h)
  | error reason =>
    rw [after_ok (define_error h)]
    exact .warn s _

theorem course_arity : Along (Course setting) arity :=
  course_optionalArgument.bind steady_course fun _ => along_pure steady_course _

theorem course_defineCommand (unlessKnown : Bool) :
    Along (Course setting) (defineCommand unlessKnown) := by
  unfold defineCommand
  refine (course_skipChar '*').bind steady_course fun _ => ?_
  refine course_argument.bind steady_course fun target => ?_
  refine course_arity.bind steady_course fun n => ?_
  refine course_optionalArgument.bind steady_course fun fallback => ?_
  refine course_argument.bind steady_course fun body => ?_
  split
  · exact along_pure steady_course _
  · refine along_get_bind_of_forall fun s => ?_
    split
    · exact along_pure steady_course _
    · exact course_define _ _

theorem course_defineByText : Along (Course setting) defineByText := by
  have htext : ∀ name?, Along (Course setting) (defineWithText name?) := by
    intro name?
    unfold defineWithText
    refine (course_take _).bind steady_course fun text => ?_
    split
    · exact along_pure steady_course _
    · exact along_endOfTokens steady_course _
    · refine (course_balanced _).bind steady_course fun body => ?_
      split
      · exact along_pure steady_course _
      · exact course_define _ _
  unfold defineByText
  refine course_next.bind steady_course fun t? => ?_
  split
  · exact along_endOfTokens steady_course _
  · exact htext _
  · exact htext _
  · exact course_pushBackOne _

theorem course_copyName (new old : String) : Along (Course setting) (copyName new old) := by
  intro s
  unfold copyName
  rw [after_get_bind]
  dsimp only
  split
  · exact course_define new _ s
  · split
    · cases h : s.dictionary.renameBuiltin new old with
      | ok dictionary => exact .change s dictionary (.rename h)
      | error reason => exact .warn s _
    · split
      · exact .refl s
      · exact course_define new _ s

theorem course_copy : Along (Course setting) copy := by
  unfold copy
  refine course_next.bind steady_course fun new? => ?_
  split
  · refine (course_onStream_of_passed passed_skipCopySign).bind steady_course fun _ => ?_
    refine course_next.bind steady_course fun target? => ?_
    split
    · split
      · exact course_copyName _ _
      · exact course_define _ _
      · exact along_pure steady_course _
    · exact along_endOfTokens steady_course _
  · exact along_endOfTokens steady_course _

theorem course_defineEnvironment (unlessKnown : Bool) :
    Along (Course setting) (defineEnvironment unlessKnown) := by
  unfold defineEnvironment
  refine (course_skipChar '*').bind steady_course fun _ => ?_
  refine course_argumentText.bind steady_course fun name => ?_
  refine course_arity.bind steady_course fun n => ?_
  refine course_optionalArgument.bind steady_course fun fallback => ?_
  refine course_argument.bind steady_course fun opening => ?_
  refine course_argument.bind steady_course fun closing => ?_
  split
  · exact along_pure steady_course _
  · split
    · exact course_warn _
    · next hname =>
      refine along_get_bind_of_forall fun s => ?_
      split
      · exact along_pure steady_course _
      · exact along_modify fun s =>
          .change s _ (.environment _ (Bool.eq_false_iff.mpr hname))

theorem course_declareFlag (flag : String) :
    Along (Course setting) (onDictionary (·.declareFlag flag)) :=
  along_modify fun s => .change s _ (.declareFlag _ flag)

theorem course_declaration (kind : DefinitionKind) :
    Along (Course setting) (declaration kind) := by
  cases kind with
  | newCommand => exact course_defineCommand false
  | provideCommand => exact course_defineCommand true
  | parameterText => exact course_defineByText
  | copy => exact course_copy
  | newEnvironment => exact course_defineEnvironment false
  | provideEnvironment => exact course_defineEnvironment true
  | newTest =>
    refine course_next.bind steady_course fun t? => ?_
    split
    · split
      · split
        · exact along_pure steady_course _
        · exact course_declareFlag _
      · exact along_pure steady_course _
    · exact along_pure steady_course _
  | newFlag =>
    refine course_argumentText.bind steady_course fun flag => ?_
    split
    · exact along_pure steady_course _
    · exact course_declareFlag _
  | mathOperator =>
    refine (course_skipChar '*').bind steady_course fun _ => ?_
    refine course_argument.bind steady_course fun target => ?_
    refine course_argument.bind steady_course fun text => ?_
    split
    · exact along_pure steady_course _
    · exact course_define _ _
  | pairedDelimiter =>
    refine course_argument.bind steady_course fun target => ?_
    refine course_argument.bind steady_course fun left => ?_
    refine course_argument.bind steady_course fun right => ?_
    split
    · exact along_pure steady_course _
    · exact course_define _ _

end Scan

end ProofProse
