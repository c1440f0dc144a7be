import ProofProse.Proofs.InStep

/-! # Choices and definitions in step

Commands that choose between arguments put an argument back, which holds no end of a file. Commands
that define something enter what they have read into the dictionary. Three of them take tokens
whatever they are: the copy of a token, a parameter text, and the name of a test. When such a command
has taken the end of a file the state is out of step behind it, so that a state in step behind it is
sound (`clean_of_finishesInStep_copy`, `clean_of_finishesInStep_defineByText`). -/

namespace ProofProse

namespace Scan

open State

variable {s : State}

/-! ### Choices -/

theorem keeps_choose (truth : Bool) : Along Keeps (choose truth) := by
  unfold choose
  refine keeps_argument.bind_of_yields steady_keeps yields_argument fun yes hyes => ?_
  refine keeps_argument.bind_of_yields steady_keeps yields_argument fun no hno => ?_
  exact keeps_pushBack (by split <;> assumption)

theorem keeps_onDictionary {f : Dictionary → Dictionary}
    (h : ∀ d : Dictionary, d.Clean → (f d).Clean) : Along Keeps (onDictionary f) :=
  along_modify fun _ hs => ⟨hs.inStep, h _ hs.clean⟩

theorem keeps_setFlag (flag : String) (value : Bool) : Along Keeps (setFlag flag value) := by
  unfold setFlag
  split
  · exact along_pure steady_keeps ()
  · exact keeps_onDictionary fun d hd => (hd.declareFlag flag).setFlag flag value

/-- A choice is no test that is not made, with a number among its operands. -/
theorem keeps_choice {kind : ChoiceKind} (h : ∀ signature, kind = .untested signature →
    .number ∉ signature) : Along Keeps (choice kind) := by
  have htext := keeps_argumentText
  cases kind with
  | ifThenElse =>
    refine keeps_argument.bind steady_keeps fun condition => ?_
    exact along_get_bind_of_forall fun s => keeps_choose _
  | ifEqual =>
    refine (keeps_skipChar '*').bind steady_keeps fun _ => ?_
    exact htext.bind steady_keeps fun _ => htext.bind steady_keeps fun _ => keeps_choose _
  | ifEmpty => exact htext.bind steady_keeps fun _ => keeps_choose _
  | ifFlag =>
    refine htext.bind steady_keeps fun _ => ?_
    exact along_get_bind_of_forall fun s => keeps_choose _
  | setFlagTo =>
    exact htext.bind steady_keeps fun _ => htext.bind steady_keeps fun _ => keeps_setFlag _ _
  | setFlag value => exact htext.bind steady_keeps fun _ => keeps_setFlag _ value
  | ifDefined byName defined =>
    refine keeps_argument.bind steady_keeps fun _ => ?_
    exact along_get_bind_of_forall fun s => keeps_choose _
  | untested signature =>
    exact (takes_operands (h signature rfl)).keeps.bind steady_keeps fun _ => keeps_choose false

/-! ### Definitions -/

theorem inStep_define (s : State) (name : String) (definition : Definition) :
    (after (define name definition) s).InStep ↔ s.InStep := by
  cases h : s.dictionary.define name definition with
  | ok dictionary => rw [after_ok (define_ok h)]; rfl
  | error reason => rw [after_ok (define_error h)]; rfl

theorem inStep_of_define {name : String} {definition : Definition}
    (h : FinishesInStep (define name definition) s) : s.InStep := by
  cases hdefine : s.dictionary.define name definition with
  | ok dictionary =>
    have := h () _ (define_ok hdefine)
    exact this
  | error reason =>
    have := h () _ (define_error hdefine)
    exact this

theorem clean_define (s : State) {definition : Definition} (name : String)
    (hdefinition : definition.Clean) (hs : s.dictionary.Clean) :
    (after (define name definition) s).dictionary.Clean := by
  cases h : s.dictionary.define name definition with
  | ok dictionary =>
    rw [after_ok (define_ok h)]
    exact hs.define hdefinition h
  | error reason =>
    rw [after_ok (define_error h)]
    exact hs

theorem keeps_define {definition : Definition} (hdefinition : definition.Clean) (name : String) :
    Along Keeps (define name definition) :=
  fun s hs => ⟨(inStep_define s name definition).mpr hs.inStep, clean_define s name hdefinition hs.clean⟩

theorem keeps_arity : Along Keeps arity :=
  takes_optionalArgument.keeps.bind steady_keeps fun _ => along_pure steady_keeps _

theorem keeps_defineCommand (unlessKnown : Bool) : Along Keeps (defineCommand unlessKnown) := by
  unfold defineCommand
  refine (keeps_skipChar '*').bind steady_keeps fun _ => ?_
  refine keeps_argument.bind steady_keeps fun target => ?_
  refine keeps_arity.bind steady_keeps fun n => ?_
  refine takes_optionalArgument.keeps.bind_of_yields steady_keeps yields_optionalArgument
    fun fallback hfallback => ?_
  refine keeps_argument.bind_of_yields steady_keeps yields_argument fun body hbody => ?_
  split
  · exact along_pure steady_keeps ()
  · refine along_get_bind_of_forall fun s => ?_
    split
    · exact along_pure steady_keeps ()
    · exact keeps_define (Definition.clean_ofOptional n hfallback hbody) _

theorem keeps_defineEnvironment (unlessKnown : Bool) :
    Along Keeps (defineEnvironment unlessKnown) := by
  unfold defineEnvironment
  refine (keeps_skipChar '*').bind steady_keeps fun _ => ?_
  refine keeps_argumentText.bind steady_keeps fun name => ?_
  refine keeps_arity.bind steady_keeps fun n => ?_
  refine takes_optionalArgument.keeps.bind_of_yields steady_keeps yields_optionalArgument
    fun fallback hfallback => ?_
  refine keeps_argument.bind_of_yields steady_keeps yields_argument fun opening hopening => ?_
  refine keeps_argument.bind_of_yields steady_keeps yields_argument fun closing hclosing => ?_
  split
  · exact along_pure steady_keeps ()
  · split
    · exact keeps_warn _
    · refine along_get_bind_of_forall fun s => ?_
      split
      · exact along_pure steady_keeps ()
      · exact keeps_onDictionary fun d hd => hd.defineEnvironment name
          (Definition.clean_ofOptional n hfallback hopening)
          (Definition.undelimited_ofOptional n fallback opening) hclosing

theorem keeps_declareFlag : Along Keeps declareFlag := by
  unfold declareFlag
  refine keeps_argumentText.bind steady_keeps fun flag => ?_
  split
  · exact along_pure steady_keeps ()
  · exact keeps_onDictionary fun d hd => hd.declareFlag flag

theorem keeps_defineOperator : Along Keeps defineOperator := by
  unfold defineOperator
  refine (keeps_skipChar '*').bind steady_keeps fun _ => ?_
  refine keeps_argument.bind steady_keeps fun target => ?_
  refine keeps_argument.bind_of_yields steady_keeps yields_argument fun text htext => ?_
  have hbody : marks ([.control "operatorname", .openGroup] ++ text ++ [.closeGroup]) = 0 := by
    simp only [marks_append, htext]
    rfl
  split
  · exact along_pure steady_keeps ()
  · exact keeps_define (Definition.clean_simple 0 hbody) _

theorem keeps_defineDelimiters : Along Keeps defineDelimiters := by
  unfold defineDelimiters
  refine keeps_argument.bind steady_keeps fun target => ?_
  refine keeps_argument.bind_of_yields steady_keeps yields_argument fun left hleft => ?_
  refine keeps_argument.bind_of_yields steady_keeps yields_argument fun right hright => ?_
  have hbody : marks ([.control "left"] ++ left ++ [.parameter 1, .control "right"] ++ right) = 0 := by
    simp only [marks_append, hleft, hright]
    rfl
  split
  · exact along_pure steady_keeps ()
  · exact keeps_define (Definition.clean_simple 1 hbody) _

/-! ### Definitions that take any token -/

theorem clean_copyName (s : State) (new old : String) (hs : s.dictionary.Clean) :
    (after (copyName new old) s).dictionary.Clean := by
  unfold copyName
  rw [after_get_bind]
  dsimp only
  split
  · next definition hfind => exact clean_define s new (hs.name old definition hfind) hs
  · split
    · cases h : s.dictionary.renameBuiltin new old with
      | ok dictionary => exact hs.renameBuiltin h
      | error reason => exact hs
    · split
      · exact hs
      · exact clean_define s new (Definition.clean_simple 0 rfl) hs

/-- When the copy of a token leaves the state in step, the token was no end of a file. -/
theorem clean_of_finishesInStep_copy (hs : s.Sound) (h : FinishesInStep copy s) :
    (after copy s).dictionary.Clean := by
  unfold copy at *
  cases hahead : s.stream.ahead with
  | nil =>
    rw [after_bind_ok (next_nil hahead)]
    exact hs.clean
  | cons new rest =>
    rw [finishesInStep_bind (next_cons hahead)] at h
    rw [after_bind_ok (next_cons hahead)]
    have hsign : onStream skipCopySign { s with stream := ⟨rest, s.consumed + 1⟩ } =
        .ok () { s with stream := skipCopySign ⟨rest, s.consumed + 1⟩ } := rfl
    dsimp only at *
    rw [finishesInStep_bind hsign] at h
    rw [after_bind_ok hsign]
    obtain ⟨taken, htaken, -, -⟩ := passed_skipCopySign ⟨rest, s.consumed + 1⟩
    dsimp only at htaken
    cases hbehind : (skipCopySign ⟨rest, s.consumed + 1⟩).ahead with
    | nil =>
      rw [after_bind_ok (next_nil hbehind)]
      exact hs.clean
    | cons target behind =>
      rw [finishesInStep_bind (next_cons hbehind)] at h
      rw [after_bind_ok (next_cons hbehind)]
      dsimp only at *
      cases new with
      | control new =>
        cases target with
        | control old => exact clean_copyName _ new old hs.clean
        | endOfInput =>
          -- The end of the file is gone from the stream, and the file is not left.
          have hdefined : marks behind = s.includes.depth := inStep_of_define h
          have hbefore : marks s.stream.ahead = s.includes.depth := hs.inStep
          rw [hahead, htaken, hbehind, marks_control, marks_append,
            marks_endOfInput] at hbefore
          omega
        | _ => exact clean_define _ new (Definition.clean_simple 0 rfl) hs.clean
      | _ => exact hs.clean

/-- The tokens that must follow a name are among those that its parameter text takes. -/
theorem marks_lead_of_parameterTextFrom : ∀ (tokens : List Token) (text : PartialText)
    (seen : List Token) (count : Nat) (lead : List Token) (delimiters : List (List Token)),
    (parameterTextFrom text seen count tokens).result = .found lead delimiters →
      (parameterTextFrom text seen count tokens).fileEnds = 0 ∧
      marks lead + marks (parameterTextFrom text seen count tokens).rest ≤
        marks text.lead + marks tokens := by
  intro tokens
  induction tokens with
  | nil =>
    intro text seen count lead delimiters h
    unfold parameterTextFrom at h
    split at h <;> cases h
  | cons t rest ih =>
    intro text seen count lead delimiters h
    unfold parameterTextFrom at h ⊢
    split at h
    · cases h
    next hlimit =>
    rw [if_neg hlimit]
    have htoken : marks (t :: rest) = marks [t] + marks rest := marks_append [t] rest
    have hadd : (parameterTextFrom (text.addToken t) (t :: seen) (count + 1) rest).result =
        .found lead delimiters →
        (parameterTextFrom (text.addToken t) (t :: seen) (count + 1) rest).fileEnds = 0 ∧
        marks lead + marks (parameterTextFrom (text.addToken t) (t :: seen) (count + 1) rest).rest ≤
          marks text.lead + marks (t :: rest) := by
      intro h
      obtain ⟨hends, hmarks⟩ := ih _ _ _ _ _ h
      refine ⟨hends, ?_⟩
      have hlead : marks (text.addToken t).lead ≤ marks [t] + marks text.lead := by
        unfold PartialText.addToken
        split
        · exact Nat.le_of_eq (marks_append [t] text.lead)
        · exact Nat.le_add_left _ _
      omega
    cases t with
    | openGroup =>
      cases h
      have hreverse := marks_reverse text.lead
      exact ⟨rfl, by dsimp only; omega⟩
    | parameter n =>
      obtain ⟨hends, hmarks⟩ := ih _ _ _ _ _ h
      refine ⟨hends, ?_⟩
      have hlead : marks text.addParameter.lead = marks text.lead := rfl
      dsimp only at *
      omega
    | _ => exact hadd h

/-- When a definition with a parameter text leaves the state in step, the text held no end of a
file. -/
theorem clean_of_finishesInStep_defineWithText (name? : Option String) (hs : s.Sound)
    (h : FinishesInStep (defineWithText name?) s) :
    (after (defineWithText name?) s).dictionary.Clean := by
  unfold defineWithText at *
  rw [finishesInStep_bind (take_ok _ s)] at h
  rw [after_bind_ok (take_ok _ s)]
  unfold readParameterText at *
  cases hread : (parameterTextFrom {} [] 0 s.stream.ahead).result with
  | lost => exact hs.clean
  | ended => exact hs.clean
  | found lead delimiters =>
    rw [hread] at h
    obtain ⟨hends, hlead⟩ := marks_lead_of_parameterTextFrom _ _ _ _ _ _ hread
    have htakes : Along Takes (balanced "definition") := takes_balanced "definition"
    dsimp only at *
    generalize parameterTextFrom {} [] 0 s.stream.ahead = reading at *
    cases hbody : balanced "definition"
        { s with
          stream := s.stream.behind reading
          includes := s.includes.leave reading.fileEnds } with
    | error i t =>
      rw [after_bind_error hbody, (htakes.error hbody).dictionary_eq]
      exact hs.clean
    | ok body t =>
      rw [finishesInStep_bind hbody] at h
      rw [after_bind_ok hbody]
      have hclean : t.dictionary.Clean := (htakes.ok hbody).dictionary_eq ▸ hs.clean
      cases name? with
      | none => exact hclean
      | some name =>
        obtain ⟨taken, hahead, ht⟩ := htakes.ok hbody
        have hdepth : t.includes.depth = s.includes.depth - marks taken := by
          rw [ht, hends]
          exact Includes.depth_leave _ _
        have hbehind : marks t.stream.ahead = t.includes.depth := inStep_of_define h
        have hbefore : marks s.stream.ahead = s.includes.depth := hs.inStep
        have hrest : marks reading.rest = marks taken + marks t.stream.ahead := by
          rw [← marks_append, ← hahead]
          rfl
        have hzero : marks lead = 0 := by
          simp only [marks_nil] at hlead
          omega
        exact clean_define t name ⟨hzero, nofun, yields_balanced _ _ _ _ hbody⟩ hclean

/-- When a definition by a parameter text leaves the state in step, all definitions are clean. -/
theorem clean_of_finishesInStep_defineByText (hs : s.Sound) (h : FinishesInStep defineByText s) :
    (after defineByText s).dictionary.Clean := by
  unfold defineByText at *
  cases hahead : s.stream.ahead with
  | nil =>
    rw [after_bind_ok (next_nil hahead)]
    exact hs.clean
  | cons t rest =>
    rw [finishesInStep_bind (next_cons hahead)] at h
    rw [after_bind_ok (next_cons hahead)]
    have hbehind : t.IsContent → Sound { s with stream := ⟨rest, s.consumed + 1⟩ } :=
      fun ht => (takes_one hahead ht).keeps hs
    cases t with
    | control name =>
      exact clean_of_finishesInStep_defineWithText (some name) (hbehind (by simp)) h
    | active c => exact clean_of_finishesInStep_defineWithText none (hbehind (by simp)) h
    | _ => exact hs.clean

theorem keepsClean_declareTest : Along KeepsClean declareTest := by
  unfold declareTest
  refine keepsClean_next.bind steady_keepsClean fun t? => ?_
  split
  · split
    · split
      · exact along_pure steady_keepsClean ()
      · exact along_modify fun s hs => hs.declareFlag _
    · exact along_pure steady_keepsClean ()
  · exact along_pure steady_keepsClean ()

end Scan

end ProofProse
