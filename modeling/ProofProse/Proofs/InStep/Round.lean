import ProofProse.Proofs.InStep.Defining
import ProofProse.Proofs.Meaning

/-! # Rounds in step

A file that is included is put in front of the stream together with the mark of its end, and entered
at the same time. Every other command keeps sound states sound by what it reads, unless it takes any
token whatever it is (`takesBlindly`). A round keeps states sound, provided that the scans of spans
do, when it does not begin with such a command (`keeps_round`), and a round that begins with one
leaves a sound state if it leaves one in step (`sound_of_inStep`). -/

namespace ProofProse

/-! ### Commands that take any token -/

/-- A structural command that takes tokens whatever they are. -/
def Structural.takesBlindly : Structural → Bool
  | endBranch => true
  | verbatim => true
  | makeName => true
  | takeToken => true
  | _ => false

/-- A command with an effect that takes tokens whatever they are: a number may be given by any token
behind a mark. -/
def Effect.takesBlindly : Effect → Bool
  | silent signature => signature.contains .number
  | placeholder _ signature => signature.contains .number
  | gap signature => signature.contains .number
  | choice (.untested signature) => signature.contains .number
  | definition .parameterText => true
  | definition .copy => true
  | definition .newTest => true
  | _ => false

namespace Scan

/-- A command that takes tokens whatever they are, so that it could take the end of a file and not
leave the file: a command that looks for a delimiter, skips a branch, copies or prints tokens. -/
def takesBlindly (dictionary : Dictionary) (name : String) : Bool :=
  match Structural.ofName? name with
  | some kind => kind.takesBlindly
  | none =>
    match dictionary.find? name with
    | some definition => definition.delimiters.any (!·.isEmpty)
    | none =>
      (dictionary.flagSetting? name).isNone &&
        ((dictionary.testedFlag? name).isSome || isBareTest name ||
          (Effect.ofName? name).any Effect.takesBlindly)

end Scan

/-- The next token is a command that takes tokens whatever they are. -/
def State.readsBlindly (s : State) : Bool :=
  match s.stream.ahead with
  | .control name :: _ => Scan.takesBlindly s.dictionary name
  | _ => false

namespace Scan

open State

variable {setting : Setting} {α : Type} {nested : Frame → Scan Flow}

/-! ### Included files -/

theorem marks_of_search {target including : String} : ∀ {candidates : List String} {found : Found},
    search setting target including candidates = .ok found → marks found.tokens = 1
  | [], found, h => by cases h
  | candidate :: candidates, found, h => by
    unfold search at h
    dsimp only at h
    split at h
    · cases h
      rw [marks_append, marks_tokens]
      rfl
    · exact marks_of_search h
    · cases h

theorem keeps_load (kind : InclusionKind) (target : String) :
    Along Keeps (load setting kind target) := by
  unfold load
  split
  · exact along_pure steady_keeps _
  · refine along_get_bind_of_forall fun s => ?_
    dsimp only
    split
    · exact (keeps_warn _).bind steady_keeps fun _ => along_pure steady_keeps _
    · split
      · exact along_pure steady_keeps _
      · exact (keeps_warn _).bind steady_keeps fun _ => along_pure steady_keeps _

theorem keeps_splice {found : Found} (h : marks found.tokens = 1) : Along Keeps (splice found) := by
  intro s hs
  refine ⟨?_, hs.clean⟩
  show marks (found.tokens ++ s.stream.ahead) = (s.includes.enter found.path).depth
  have := hs.inStep
  unfold InStep at this
  rw [marks_append, h, this]
  exact Nat.add_comm 1 _

theorem keeps_load_bind (kind : InclusionKind) (target : String) {f : Option Found → Scan α}
    (hsome : ∀ found, marks found.tokens = 1 → Along Keeps (f (some found)))
    (hnone : Along Keeps (f none)) : Along Keeps (load setting kind target >>= f) := by
  refine (keeps_load kind target).bind_of_yields steady_keeps
    (Q := fun found? => ∀ found, found? = some found → marks found.tokens = 1) ?_ ?_
  · rintro s found? t h found rfl
    exact marks_of_search (load_some h).2.2
  · intro found? hfound
    cases found? with
    | none => exact hnone
    | some found => exact hsome found (hfound found rfl)

theorem marks_packageCommand (names : List String) : marks (packageCommand names) = 0 := by
  unfold packageCommand
  split
  · rfl
  · simp only [marks_append, marks_charTokens]
    rfl

theorem keeps_followPackages : ∀ names : List String,
    Along Keeps (followPackages setting names)
  | [] => along_pure steady_keeps ()
  | name :: names => by
    refine keeps_load_bind .package name (fun found hfound => keeps_splice ?_)
      (keeps_followPackages names)
    show marks (found.tokens ++ packageCommand names) = 1
    rw [marks_append, hfound, marks_packageCommand]

theorem takes_inputTarget : Along Takes inputTarget := by
  refine (takes_onStream Stream.passed_skipSpaces).bind steady_takes fun _ => ?_
  refine (along_peek steady_takes).bind steady_takes fun t? => ?_
  split
  · exact takes_argumentText
  · refine along_get_bind_of_forall fun s => ?_
    refine Along.bind steady_takes (takes_onStream fun u => ?_) fun _ => along_pure steady_takes _
    refine Stream.passed_skipWhile (fun x hx => ?_) u
    rintro rfl
    cases hx

theorem keeps_inclusion (kind : InclusionKind) : Along Keeps (inclusion setting kind) := by
  cases kind with
  | documentClass =>
    have hoperands : Along Takes (operands [.optional, .mandatory]) := takes_operands (by decide)
    exact hoperands.keeps.bind steady_keeps fun _ => takes_optionalArgument.keeps.discard
  | package =>
    refine takes_optionalArgument.keeps.discard.bind steady_keeps fun _ => ?_
    refine keeps_argumentText.bind steady_keeps fun names => ?_
    refine takes_optionalArgument.keeps.discard.bind steady_keeps fun _ => ?_
    exact keeps_followPackages _
  | input =>
    refine takes_inputTarget.keeps.bind steady_keeps fun target => ?_
    exact keeps_load_bind .input target (fun _ => keeps_splice) (along_pure steady_keeps ())

/-! ### Prose and spans -/

theorem keeps_emit (fragment : Fragment) : Along Keeps (emit fragment) := by
  refine along_modify fun s => ?_
  unfold State.emit
  split
  · exact keeps_of_eq rfl rfl rfl
  · exact keeps_of_eq rfl rfl rfl

theorem keeps_character (c : Char) : Along Keeps (character c) := by
  refine along_modify fun s => ?_
  split
  · exact keeps_of_eq rfl rfl rfl
  · split
    · unfold State.addChar
      split
      · split
        · exact keeps_emit _ s
        · exact keeps_emit _ s
      · split
        · exact steady_keeps.trans (keeps_emit _ s) (keeps_emit _ _)
        · exact keeps_emit _ s
    · exact keeps_of_eq rfl rfl rfl

theorem keeps_mathInProse (command : String) : Along Keeps (mathInProse command) := by
  refine along_get_bind_of_forall fun s => ?_
  split
  · exact along_drop steady_keeps _
  · exact along_pure steady_keeps ()

theorem keeps_accented (mark : Char) : Along Keeps (accented mark) := by
  refine keeps_argument.bind steady_keeps fun content => ?_
  unfold emitText
  dsimp only
  split
  · exact along_pure steady_keeps ()
  · exact keeps_emit _

theorem keeps_openProof : Along Keeps openProof := by
  refine takes_optionalArgument.keeps.discard.bind steady_keeps fun _ => along_modify fun s => ?_
  split
  · exact keeps_of_eq rfl rfl rfl
  · exact keeps_of_eq rfl rfl rfl

theorem keeps_closeProof : Along Keeps closeProof := by
  intro s
  unfold after closeProof
  rcases s.proofDepth with _ | _ | depth
  · exact keeps_of_eq rfl rfl rfl
  · exact keeps_of_eq rfl rfl rfl
  · exact keeps_of_eq rfl rfl rfl

theorem keeps_markMath : Along Keeps (modify (·.markMath)) := by
  refine along_modify fun s => ?_
  unfold State.markMath
  dsimp only
  split
  · exact steady_keeps.trans (keeps_emit _ s) (keeps_emit _ _)
  · exact keeps_emit _ s

theorem keeps_checkDepth : Along Keeps (checkDepth setting) := by
  refine along_get_bind_of_forall fun s => ?_
  split
  · exact along_fail steady_keeps _
  · exact along_pure steady_keeps ()

theorem keeps_skipMath {frame : Frame} (h : Along Keeps (nested frame)) :
    Along Keeps (skipMath setting nested frame) := by
  have henter : Along Keeps (modify (·.enterMath)) := along_modify fun s => keeps_of_eq rfl rfl rfl
  refine keeps_checkDepth.bind steady_keeps fun _ => henter.bind steady_keeps fun _ => ?_
  refine (h.andAlways steady_keeps fun s => ?_).discard.bind steady_keeps fun _ => keeps_markMath
  exact keeps_of_eq rfl rfl rfl

theorem keeps_skipDiscarded {name : String} (h : Along Keeps (nested (.environment name))) :
    Along Keeps (skipDiscarded setting nested name) := by
  have henter : Along Keeps (modify (·.enterDiscarded)) :=
    along_modify fun s => keeps_of_eq rfl rfl rfl
  refine keeps_checkDepth.bind steady_keeps fun _ => henter.bind steady_keeps fun _ => ?_
  refine (h.andAlways steady_keeps fun s => ?_).discard
  exact keeps_of_eq rfl rfl rfl

theorem keeps_skipVerbatim (name : String) : Along Keeps (skipVerbatim setting name) := by
  have hread : Along Takes (take fun _ => readVerbatim setting.options.environmentLimit name) :=
    takes_take fun _ tokens => counts_verbatimFrom _ name tokens 0 0
  refine hread.keeps.bind steady_keeps fun ending => ?_
  split
  · exact along_pure steady_keeps ()
  · exact along_fail steady_keeps _
  · exact along_fail steady_keeps _

theorem keeps_textInMath : Along Keeps textInMath := by
  refine keeps_argument.bind steady_keeps fun content => ?_
  split
  · exact along_modify fun s => keeps_of_eq rfl rfl rfl
  · exact along_pure steady_keeps ()

theorem keeps_skipShift {s : State} (h : s.stream.peek? = some .mathShift) :
    Keeps s { s with stream := s.stream.skip 1 } := by
  obtain ⟨rest, hs⟩ : ∃ rest, s.stream.ahead = .mathShift :: rest := by
    unfold Stream.peek? at h
    cases hahead : s.stream.ahead with
    | nil =>
      rw [hahead] at h
      cases h
    | cons t rest =>
      rw [hahead] at h
      cases h
      exact ⟨rest, rfl⟩
  exact (takes_of_passed (Stream.passed_skip_one hs (by simp))).keeps

/-! ### Environments and commands -/

theorem number_notMem_of_transparent {name : String} {signature : Signature}
    (h : EnvironmentClass.ofName name = .transparent signature) : .number ∉ signature := by
  have htable : ∀ entry ∈ EnvironmentClass.operands, Operand.number ∉ entry.2 := by decide
  unfold EnvironmentClass.ofName at h
  dsimp only at h
  split at h
  · cases h
  split at h
  · cases h
  split at h
  · cases h
  split at h
  · cases h
  cases h
  cases hlookup : EnvironmentClass.operands.lookup (unstarred name) with
  | none => exact List.not_mem_nil
  | some signature =>
    obtain ⟨before, behind, hsplit, -⟩ := List.lookup_eq_some_iff.mp hlookup
    exact htable (unstarred name, signature) (by rw [hsplit]; simp)

theorem keeps_endDocument (frame : Frame) : Along Keeps (endDocument frame) := by
  unfold endDocument
  split
  · exact along_pure steady_keeps _
  · exact along_fail steady_keeps _

theorem marks_environmentTokens {command name : String} :
    marks (environmentTokens command name) = 0 := by
  unfold environmentTokens
  simp only [marks_append, marks_charTokens]
  rfl

theorem keeps_closeEnvironment (frame : Frame) : Along Keeps (closeEnvironment frame) := by
  have hback : ∀ name, Along Keeps (do
      pushBack (environmentTokens "end" name)
      return Flow.close) := fun name =>
    (keeps_pushBack marks_environmentTokens).bind steady_keeps fun _ => along_pure steady_keeps _
  unfold closeEnvironment
  refine keeps_argumentText.bind steady_keeps fun name => ?_
  split
  · exact along_pure steady_keeps _
  refine along_get_bind fun s => ?_
  split
  · split
    · exact hback name s
    · exact keeps_closeProof s
  split
  · exact keeps_endDocument frame s
  split
  · next environment hfind =>
    intro hs
    exact (keeps_pushBack (hs.clean.environment name environment hfind).2.2).goingOn s hs
  · exact steady_keeps.refl s

theorem keeps_proofBoundary {name : String} {boundary : Scan Flow} (h : Along Keeps boundary) :
    Along Keeps (proofBoundary name boundary) := by
  have hback : Along Keeps (pushBack [.control name]) := keeps_pushBack rfl
  refine along_get_bind_of_forall fun s => ?_
  split
  · exact hback.bind steady_keeps fun _ => along_pure steady_keeps _
  · exact h

theorem keeps_declaration {kind : DefinitionKind}
    (h : (Effect.definition kind).takesBlindly = false) : Along Keeps (declaration kind) := by
  cases kind with
  | newCommand => exact keeps_defineCommand false
  | provideCommand => exact keeps_defineCommand true
  | parameterText => cases h
  | copy => cases h
  | newEnvironment => exact keeps_defineEnvironment false
  | provideEnvironment => exact keeps_defineEnvironment true
  | newTest => cases h
  | newFlag => exact keeps_declareFlag
  | mathOperator => exact keeps_defineOperator
  | pairedDelimiter => exact keeps_defineDelimiters

theorem keeps_applyEffect (name : String) {effect : Effect} (h : effect.takesBlindly = false) :
    Along Keeps (applyEffect setting name effect) := by
  have hoperands : ∀ signature : Signature, signature.contains .number = false →
      Along Keeps (operands signature) := fun signature h =>
    (takes_operands fun hmem => by simp [hmem] at h).keeps
  cases effect with
  | silent signature => exact hoperands signature h
  | placeholder kind signature =>
    exact (hoperands signature h).bind steady_keeps fun _ => keeps_emit _
  | literal text => exact keeps_emit _
  | gap signature => exact (hoperands signature h).bind steady_keeps fun _ => keeps_emit _
  | accent mark => exact keeps_accented mark
  | definition kind => exact keeps_declaration h
  | choice kind =>
    refine keeps_choice fun signature hkind hmem => ?_
    subst hkind
    simp [Effect.takesBlindly, hmem] at h
  | inclusion kind => exact keeps_inclusion kind
  | mathText =>
    refine along_get_bind_of_forall fun s => ?_
    split
    · exact keeps_textInMath
    · exact along_pure steady_keeps ()
  | mathOnly =>
    refine along_get_bind_of_forall fun s => ?_
    split
    · exact keeps_mathInProse name
    · exact along_pure steady_keeps ()

theorem keeps_plainCommand {name : String} {s : State} (hname : Structural.ofName? name = none)
    (h : takesBlindly s.dictionary name = false) :
    Keeps s (after (plainCommand setting name) s) := by
  intro hs
  unfold takesBlindly at h
  rw [hname] at h
  dsimp only at h
  rw [plainCommand_eq, after_get_bind]
  have hmeans := s.dictionary.means_meaning name
  generalize s.dictionary.meaning name = meaning at hmeans
  cases hmeans with
  | @defined definition hfind =>
    rw [hfind] at h
    have hplain : definition.Undelimited := by
      intro delimiter hmem
      simpa using (List.any_eq_false.mp h) delimiter hmem
    exact keeps_expand (hs.clean.name name definition hfind) hplain name s hs
  | flagSetting => exact keeps_onDictionary (fun d hd => hd.setFlag _ _) s hs
  | flagTest hfind hsetting htested => simp [hfind, hsetting, htested] at h
  | bareTest hfind hsetting htested hbare => simp [hfind, hsetting, hbare] at h
  | effect hfind hsetting htested hbare heffect =>
    simp only [hfind, hsetting, htested, hbare, heffect, Option.isNone_none, Option.isSome_none,
      Option.any_some, Bool.or_self, Bool.false_or, Bool.true_and] at h
    exact keeps_applyEffect name h s hs
  | nothing => exact hs

section Rounds

variable {frame : Frame} (hnested : ∀ frame, Along Keeps (nested frame))

include hnested

theorem keeps_openByClass (name : String) :
    Along Keeps (openByClass setting nested name (.ofName name)) := by
  cases hkind : EnvironmentClass.ofName name with
  | proof => exact keeps_openProof
  | math => exact keeps_skipMath (hnested _)
  | discarded => exact keeps_skipDiscarded (hnested _)
  | verbatim => exact keeps_skipVerbatim name
  | transparent signature => exact (takes_operands (number_notMem_of_transparent hkind)).keeps

theorem keeps_openEnvironment : Along Keeps (openEnvironment setting nested) := by
  have hback : ∀ name, Along Keeps (do
      pushBack (environmentTokens "begin" name)
      return Flow.close) := fun name =>
    (keeps_pushBack marks_environmentTokens).bind steady_keeps fun _ => along_pure steady_keeps _
  unfold openEnvironment
  refine keeps_argumentText.bind steady_keeps fun name => ?_
  split
  · exact along_pure steady_keeps _
  refine along_get_bind fun s => ?_
  split
  · split
    · exact hback name s
    · exact keeps_openProof.goingOn s
  split
  · next environment hfind =>
    intro hs
    obtain ⟨hclean, hplain, -⟩ := hs.clean.environment name environment hfind
    exact (keeps_expand hclean hplain name).goingOn s hs
  · exact (keeps_openByClass hnested name).goingOn s

theorem keeps_structural (name : String) (frame : Frame) {kind : Structural}
    (h : kind.takesBlindly = false) :
    Along Keeps (structural setting nested name frame kind) := by
  cases kind with
  | openEnvironment => exact keeps_openEnvironment hnested
  | closeEnvironment => exact keeps_closeEnvironment frame
  | openInline => exact (keeps_skipMath (hnested _)).goingOn
  | openDisplay => exact (keeps_skipMath (hnested _)).goingOn
  | endBranch => cases h
  | openProof => exact keeps_proofBoundary keeps_openProof.goingOn
  | closeProof => exact keeps_proofBoundary keeps_closeProof
  | endDocument => exact keeps_endDocument frame
  | endFile =>
    have hread : Along Takes (take fun _ => readFileRest) :=
      takes_take fun _ tokens => counts_fileRestFrom tokens 0
    exact hread.keeps.goingOn
  | verbatim => cases h
  | makeName => cases h
  | takeToken => cases h
  | openCode =>
    have hread : Along Takes (take fun _ => readCode codeEnd) :=
      takes_take fun _ tokens => counts_codeFrom codeEnd tokens 0 0
    exact hread.keeps.goingOn
  | nothing => exact along_pure steady_keeps _

theorem keeps_openDollars : Along Keeps (openDollars setting nested) := by
  intro s
  show Keeps s (after (if s.stream.peek? = some .mathShift then _ else _) s)
  split
  · next hs => exact steady_keeps.trans (keeps_skipShift hs) ((keeps_skipMath (hnested _)).goingOn _)
  · exact (keeps_skipMath (hnested _)).goingOn s

theorem keeps_mathShift (frame : Frame) : Along Keeps (mathShift setting nested frame) := by
  cases frame with
  | dollar => exact along_pure steady_keeps _
  | doubleDollar =>
    intro s
    show Keeps s (after (if s.stream.peek? = some .mathShift then _ else _) s)
    split
    · next hs => exact keeps_skipShift hs
    · exact steady_keeps.refl s
  | _ => exact keeps_openDollars hnested

/-- Interpreting a token that has been taken; with the end of a file its file is left. -/
theorem keeps_interpret {s : State} {t : Token} (ht : t.IsContent)
    (h : ∀ name, t = .control name → takesBlindly s.dictionary name = false) :
    Keeps s (after (interpret setting nested frame t) s) := by
  have hclear : Along Keeps clearPeriod := by
    refine along_modify fun s => ?_
    split
    · exact keeps_of_eq rfl rfl rfl
    · exact steady_keeps.refl s
  have hscript : ∀ sign, Along Keeps (script sign) := by
    intro sign
    refine along_get_bind_of_forall fun s => ?_
    split
    · exact hclear
    · exact keeps_mathInProse _
  cases t with
  | endOfInput => exact absurd rfl ht
  | mathShift => exact keeps_mathShift hnested frame s
  | control name =>
    have hname := h name rfl
    unfold interpret command
    dsimp only
    split
    · exact steady_keeps.refl s
    · split
      · next kind hkind =>
        have hblind : kind.takesBlindly = false := by
          unfold takesBlindly at hname
          rwa [hkind] at hname
        exact keeps_structural hnested name frame hblind s
      · next hkind =>
        rw [after_goingOn]
        exact keeps_plainCommand hkind hname
  | char c => exact (keeps_character c).goingOn s
  | space => exact (keeps_emit _).goingOn s
  | active c => exact (keeps_emit _).goingOn s
  | alignTab => exact (hclear.bind steady_keeps fun _ => keeps_emit _).goingOn s
  | superscript => exact (hscript _).goingOn s
  | subscript => exact (hscript _).goingOn s
  | _ => exact steady_keeps.refl s

/-- **One round** keeps states sound if the scans that it calls do, unless it begins with a command
that takes tokens blindly. -/
theorem keeps_round {s : State} (hblind : s.readsBlindly = false) :
    Keeps s (after (round setting nested frame) s) := by
  intro hs
  unfold round
  cases hahead : s.stream.ahead with
  | nil =>
    rw [after_bind_ok (next_nil hahead)]
    cases frame with
    | file => exact hs
    | _ => exact hs
  | cons t rest =>
    rw [after_bind_ok (next_cons hahead)]
    have hmarks : marks (t :: rest) = s.includes.depth := hahead ▸ hs.inStep
    by_cases ht : t = .endOfInput
    · subst ht
      refine ⟨?_, hs.clean⟩
      show marks rest = (s.includes.leave 1).depth
      rw [marks_endOfInput] at hmarks
      rw [Includes.depth_leave]
      omega
    · have hbehind := (takes_one hahead ht).keeps hs
      refine keeps_interpret hnested ht (fun name hname => ?_) hbehind
      subst hname
      unfold readsBlindly at hblind
      rwa [hahead] at hblind

end Rounds

/-! ### Rounds that take any token -/

theorem keepsClean_skipBranch (atElse : Bool) : Along KeepsClean (skipBranch setting atElse) := by
  refine (keepsClean_take _).bind steady_keepsClean fun ending => ?_
  split
  · exact along_pure steady_keepsClean ()
  · exact along_fail steady_keepsClean _
  · exact along_fail steady_keepsClean _

theorem keepsClean_beginConditional (truth : Bool) :
    Along KeepsClean (beginConditional setting truth) := by
  cases truth with
  | true => exact along_pure steady_keepsClean ()
  | false => exact keepsClean_skipBranch true

theorem keepsClean_bareTest (name : String) : Along KeepsClean (bareTest setting name) := by
  unfold bareTest
  split
  · exact keepsClean_beginConditional true
  split
  · refine (keepsClean_onStream _).bind steady_keepsClean fun _ => ?_
    refine (along_peek steady_keepsClean).bind steady_keepsClean fun t? => ?_
    dsimp only
    split
    · exact (keepsClean_onStream _).bind steady_keepsClean fun _ => keepsClean_beginConditional _
    · exact keepsClean_beginConditional _
  · exact keepsClean_beginConditional false

theorem keepsClean_emit (fragment : Fragment) : Along KeepsClean (emit fragment) := by
  refine along_modify fun s => ?_
  unfold State.emit
  split
  · exact keepsClean_of_eq rfl
  · exact keepsClean_of_eq rfl

theorem clean_of_finishesInStep_applyEffect {s : State} {name : String} {effect : Effect}
    (hs : s.Sound) (h : FinishesInStep (applyEffect setting name effect) s) :
    (after (applyEffect setting name effect) s).dictionary.Clean := by
  cases hblind : effect.takesBlindly with
  | false => exact (keeps_applyEffect name hblind s hs).clean
  | true =>
    cases effect with
    | silent signature => exact keepsClean_operands signature s hs.clean
    | placeholder kind signature =>
      exact (keepsClean_operands signature).bind steady_keepsClean (fun _ => keepsClean_emit _) s
        hs.clean
    | gap signature =>
      exact (keepsClean_operands signature).bind steady_keepsClean (fun _ => keepsClean_emit _) s
        hs.clean
    | definition kind =>
      cases kind with
      | parameterText => exact clean_of_finishesInStep_defineByText hs h
      | copy => exact clean_of_finishesInStep_copy hs h
      | newTest => exact keepsClean_declareTest s hs.clean
      | _ => cases hblind
    | choice kind =>
      cases kind with
      | untested signature =>
        have hchoose : Along KeepsClean (choose false) :=
          takes_argument.keepsClean.bind steady_keepsClean fun _ =>
            takes_argument.keepsClean.bind steady_keepsClean fun _ => keepsClean_onStream _
        exact (keepsClean_operands signature).bind steady_keepsClean (fun _ => hchoose) s hs.clean
      | _ => cases hblind
    | _ => cases hblind

theorem clean_of_finishesInStep_plainCommand {s : State} {name : String} (hs : s.Sound)
    (h : FinishesInStep (plainCommand setting name) s) :
    (after (plainCommand setting name) s).dictionary.Clean := by
  rw [plainCommand_eq, finishesInStep_bind (m := get) (a := s) (t := s) rfl] at h
  rw [plainCommand_eq, after_get_bind]
  cases hmeaning : s.dictionary.meaning name with
  | defined definition => exact keepsClean_expand name definition s hs.clean
  | flagSetting flag value => exact hs.clean.setFlag _ _
  | flagTest flag => exact keepsClean_beginConditional _ s hs.clean
  | bareTest => exact keepsClean_bareTest name s hs.clean
  | effect effect =>
    rw [hmeaning] at h
    exact clean_of_finishesInStep_applyEffect hs h
  | nothing => exact hs.clean

/-- **A round that takes tokens blindly** calls no scan of a span. It ends the frame, or it runs
something behind which the definitions are clean unless it finishes out of step. -/
theorem round_of_readsBlindly (setting : Setting) {s : State} (frame : Frame) (hs : s.Sound)
    (hblind : s.readsBlindly = true) :
    ∃ u : State, u.Sound ∧
      ((∀ nested, round setting nested frame s = .ok .close u) ∨
        ∃ body : Scan Unit, (∀ nested, round setting nested frame s = goingOn body u) ∧
          (FinishesInStep body u → (after body u).dictionary.Clean)) := by
  unfold readsBlindly at hblind
  split at hblind
  · next name rest hahead =>
    have hbehind := (takes_one hahead (by simp)).keeps hs
    have hround : ∀ nested, round setting nested frame s =
        command setting nested frame name { s with stream := ⟨rest, s.consumed + 1⟩ } :=
      fun nested => bind_ok (next_cons hahead)
    refine ⟨_, hbehind, ?_⟩
    by_cases hclosed : frame.closedBy name = true
    · refine .inl fun nested => (hround nested).trans ?_
      unfold command
      rw [if_pos hclosed]
      rfl
    refine .inr ?_
    unfold takesBlindly at hblind
    cases hkind : Structural.ofName? name with
    | none =>
      refine ⟨plainCommand setting name, fun nested => (hround nested).trans ?_,
        clean_of_finishesInStep_plainCommand hbehind⟩
      unfold command
      rw [if_neg hclosed, hkind]
    | some kind =>
      rw [hkind] at hblind
      have hcommand : ∀ nested, round setting nested frame s =
          structural setting nested name frame kind { s with stream := ⟨rest, s.consumed + 1⟩ } := by
        refine fun nested => (hround nested).trans ?_
        unfold command
        rw [if_neg hclosed, hkind]
      cases kind with
      | endBranch =>
        exact ⟨skipBranch setting false, hcommand, fun _ => keepsClean_skipBranch false _ hs.clean⟩
      | verbatim =>
        exact ⟨take fun _ => readInlineVerbatim, hcommand, fun _ => keepsClean_take _ _ hs.clean⟩
      | makeName =>
        exact ⟨take fun _ => readMadeName, hcommand, fun _ => keepsClean_take _ _ hs.clean⟩
      | takeToken =>
        exact ⟨discard next, hcommand, fun _ => keepsClean_next.discard _ hs.clean⟩
      | _ => cases hblind
  · cases hblind

end Scan

end ProofProse
