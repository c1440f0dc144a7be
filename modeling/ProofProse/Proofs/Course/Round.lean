import ProofProse.Proofs.Course.Reading
import ProofProse.Proofs.Meaning

/-! # The course of a scan

Commands lead along `Course`, provided that the scans of their spans do. A scan calls itself for
spans only, so that a whole scan, with all scans inside it, leads along `Course`
(`course_within`). -/

namespace ProofProse

namespace Scan

variable {setting : Setting} {α : Type} {nested : Frame → Scan Flow}

/-! ### Included files -/

theorem course_load (kind : InclusionKind) (target : String) :
    Along (Course setting) (load setting kind target) := by
  unfold load
  split
  · exact along_pure steady_course _
  · refine along_get_bind_of_forall fun s => ?_
    dsimp only
    split
    · exact (course_warn _).bind steady_course fun _ => along_pure steady_course _
    · split
      · exact along_pure steady_course _
      · exact (course_warn _).bind steady_course fun _ => along_pure steady_course _

theorem course_load_bind (kind : InclusionKind) (target : String) {f : Option Found → Scan α}
    (hsome : ∀ found s, s.includes.depth < setting.options.includeDepth →
      Course setting s (after (f (some found)) s))
    (hnone : Along (Course setting) (f none)) :
    Along (Course setting) (load setting kind target >>= f) := by
  intro s
  have hload : Course setting s (after (load setting kind target) s) := course_load kind target s
  cases h : load setting kind target s with
  | ok found? t =>
    rw [after_ok h] at hload
    rw [after_bind_ok h]
    cases found? with
    | none => exact hload.trans (hnone t)
    | some found =>
      obtain ⟨rfl, hdepth, -⟩ := load_some h
      exact hsome found t hdepth
  | error i t =>
    rw [after_error h] at hload
    rw [after_bind_error h]
    exact hload

theorem course_followPackages : ∀ names : List String,
    Along (Course setting) (followPackages setting names)
  | [] => along_pure steady_course ()
  | name :: names =>
    course_load_bind .package name (fun _ s hdepth => .enter s _ _ hdepth)
      (course_followPackages names)

theorem course_inputTarget : Along (Course setting) inputTarget := by
  unfold inputTarget
  refine course_skipSpaces.bind steady_course fun _ => ?_
  refine (along_peek steady_course).bind steady_course fun t? => ?_
  split
  · exact course_argumentText
  · refine along_get_bind_of_forall fun s => ?_
    refine Along.bind steady_course ?_ fun _ => along_pure steady_course _
    exact course_onStream_of_passed (p := fun _ => True) fun u =>
      Stream.passed_skipWhile (fun _ _ => trivial) u

theorem course_inclusion (kind : InclusionKind) :
    Along (Course setting) (inclusion setting kind) := by
  cases kind with
  | documentClass =>
    refine (course_operands _).bind steady_course fun _ => ?_
    exact course_optionalArgument.discard
  | package =>
    refine (course_optionalArgument.discard).bind steady_course fun _ => ?_
    refine course_argumentText.bind steady_course fun names => ?_
    refine (course_optionalArgument.discard).bind steady_course fun _ => ?_
    exact course_followPackages _
  | input =>
    refine course_inputTarget.bind steady_course fun target => ?_
    exact course_load_bind .input target (fun _ s hdepth => .enter s _ _ hdepth)
      (along_pure steady_course _)

/-! ### Prose and proofs -/

theorem course_character (c : Char) : Along (Course setting) (character c) := by
  refine along_modify fun s => ?_
  split
  · exact .period s _
  · split
    · unfold State.addChar
      split
      · split
        · exact .emit s _
        · exact .emit s _
      · split
        · exact (Course.emit s _).trans (.emit _ _)
        · exact .emit s _
    · exact .refl s

theorem course_mathInProse (command : String) : Along (Course setting) (mathInProse command) := by
  refine along_get_bind_of_forall fun s => ?_
  split
  · exact along_drop steady_course _
  · exact along_pure steady_course _

theorem course_accented (mark : Char) : Along (Course setting) (accented mark) := by
  refine course_argument.bind steady_course fun content => ?_
  unfold emitText
  dsimp only
  split
  · exact along_pure steady_course _
  · exact course_emit _

/-- A proof opens behind its title, which is as deep in spans as the command. -/
theorem course_openProof {s : State} (hs : s.inSpan = false) :
    Course setting s (after openProof s) := by
  have htitle : Along (Course setting) (discard optionalArgument) :=
    course_optionalArgument.discard
  unfold openProof
  cases h : (discard optionalArgument : Scan Unit) s with
  | ok a t =>
    have hst := htitle.ok h
    rw [after_bind_ok h]
    exact hst.trans (.openProof t (hst.inSpan_eq.trans hs))
  | error i t =>
    rw [after_bind_error h]
    exact htitle.error h

theorem after_closeProof (s : State) : after closeProof s = s.leaveProof := by
  obtain ⟨stream, dictionary, includes, mathDepth, discardDepth, proofDepth, period, draft, start,
    warnings⟩ := s
  unfold after closeProof State.leaveProof
  rcases proofDepth with _ | _ | depth <;> simp

theorem course_closeProof {s : State} (hs : s.inSpan = false) :
    Course setting s (after closeProof s) := by
  rw [after_closeProof]
  exact .closeProof s hs

/-! ### Spans -/

theorem course_markMath : Along (Course setting) (modify (·.markMath)) := by
  refine along_modify fun s => ?_
  unfold State.markMath
  dsimp only
  split
  · exact (Course.emit s _).trans (.emit _ _)
  · exact .emit s _

theorem course_skipMath {frame : Frame} (hn : Along (Course setting) (nested frame)) :
    Along (Course setting) (skipMath setting nested frame) := by
  intro s
  by_cases hdepth : s.mathDepth + s.discardDepth < setting.options.skipDepth
  · have h := skipMath_eq setting nested s frame
    rw [if_pos hdepth] at h
    cases hspan : nested frame s.enterMath with
    | error i t =>
      rw [hspan] at h
      rw [after_error h]
      exact .math hdepth (hn.error hspan)
    | ok flow t =>
      rw [hspan] at h
      rw [after_ok h]
      exact (Course.math hdepth (hn.ok hspan)).trans (course_markMath t.leaveMath)
  · rw [after_error (by rw [skipMath_eq, if_neg hdepth])]
    exact .refl s

theorem course_skipDiscarded {name : String}
    (hn : Along (Course setting) (nested (.environment name))) :
    Along (Course setting) (skipDiscarded setting nested name) := by
  intro s
  by_cases hdepth : s.mathDepth + s.discardDepth < setting.options.skipDepth
  · have h := skipDiscarded_eq setting nested s name
    rw [if_pos hdepth] at h
    cases hspan : nested (.environment name) s.enterDiscarded with
    | error i t =>
      rw [hspan] at h
      rw [after_error h]
      exact .discarded hdepth (hn.error hspan)
    | ok flow t =>
      rw [hspan] at h
      rw [after_ok h]
      exact .discarded hdepth (hn.ok hspan)
  · rw [after_error (by rw [skipDiscarded_eq, if_neg hdepth])]
    exact .refl s

theorem course_skipVerbatim (name : String) :
    Along (Course setting) (skipVerbatim setting name) := by
  unfold skipVerbatim
  refine (course_take _).bind steady_course fun ending => ?_
  split
  · exact along_pure steady_course _
  · exact along_fail steady_course _
  · exact along_fail steady_course _

theorem course_textInMath : Along (Course setting) textInMath := by
  refine course_argument.bind steady_course fun content => ?_
  split
  · exact along_modify fun s => .period s _
  · exact along_pure steady_course _

/-! ### Commands -/

theorem course_endDocument (frame : Frame) : Along (Course setting) (endDocument frame) := by
  unfold endDocument
  split
  · exact along_pure steady_course _
  · exact along_fail steady_course _

theorem course_openByClass (hn : ∀ frame, Along (Course setting) (nested frame)) (name : String)
    {kind : EnvironmentClass} (hkind : kind ≠ .proof) :
    Along (Course setting) (openByClass setting nested name kind) := by
  cases kind with
  | proof => exact absurd rfl hkind
  | math => exact course_skipMath (hn _)
  | discarded => exact course_skipDiscarded (hn _)
  | verbatim => exact course_skipVerbatim name
  | transparent signature => exact course_operands signature

theorem course_openEnvironment (hn : ∀ frame, Along (Course setting) (nested frame)) :
    Along (Course setting) (openEnvironment setting nested) := by
  unfold openEnvironment
  refine course_argumentText.bind steady_course fun name => ?_
  split
  · exact along_pure steady_course _
  · refine along_get_bind fun s => ?_
    split
    · split
      · exact ((course_pushBack _).bind steady_course fun _ => along_pure steady_course _) s
      · next hs =>
        rw [after_goingOn]
        exact course_openProof (Bool.eq_false_iff.mpr hs)
    · next hname =>
      split
      · exact Along.goingOn (course_expand name _) s
      · exact Along.goingOn
          (course_openByClass hn name (ofName_ne_proof (Bool.eq_false_iff.mpr hname))) s

theorem course_closeEnvironment (frame : Frame) :
    Along (Course setting) (closeEnvironment frame) := by
  unfold closeEnvironment
  refine course_argumentText.bind steady_course fun name => ?_
  split
  · exact along_pure steady_course _
  · refine along_get_bind fun s => ?_
    split
    · split
      · exact ((course_pushBack _).bind steady_course fun _ => along_pure steady_course _) s
      · next hs => exact course_closeProof (Bool.eq_false_iff.mpr hs)
    · split
      · exact course_endDocument frame s
      · split
        · exact Along.goingOn (course_pushBack _) s
        · exact .refl s

/-- A boundary of a proof that is met inside a span closes the span and stays. -/
theorem course_proofBoundary (name : String) {boundary : Scan Flow}
    (h : ∀ s, s.inSpan = false → Course setting s (after boundary s)) :
    Along (Course setting) (proofBoundary name boundary) := by
  refine along_get_bind fun s => ?_
  split
  · exact ((course_pushBackOne _).bind steady_course fun _ => along_pure steady_course _) s
  · next hs => exact h s (Bool.eq_false_iff.mpr hs)

theorem course_structural (hn : ∀ frame, Along (Course setting) (nested frame)) (name : String)
    (frame : Frame) (kind : Structural) :
    Along (Course setting) (structural setting nested name frame kind) := by
  cases kind with
  | openEnvironment => exact course_openEnvironment hn
  | closeEnvironment => exact course_closeEnvironment frame
  | openInline => exact Along.goingOn (course_skipMath (hn _))
  | openDisplay => exact Along.goingOn (course_skipMath (hn _))
  | endBranch => exact Along.goingOn (course_skipBranch false)
  | openProof =>
    refine course_proofBoundary name fun s hs => ?_
    rw [after_goingOn]
    exact course_openProof hs
  | closeProof => exact course_proofBoundary name fun s hs => course_closeProof hs
  | endDocument => exact course_endDocument frame
  | endFile => exact Along.goingOn (course_take _)
  | verbatim => exact Along.goingOn (course_take _)
  | makeName => exact Along.goingOn (course_take _)
  | takeToken => exact Along.goingOn (course_next.discard)
  | openCode => exact Along.goingOn (course_take _)
  | nothing => exact along_pure steady_course _

theorem course_applyEffect (name : String) (effect : Effect) :
    Along (Course setting) (applyEffect setting name effect) := by
  cases effect with
  | silent signature => exact course_operands signature
  | placeholder kind signature =>
    exact (course_operands signature).bind steady_course fun _ => course_emit _
  | literal text => exact course_emit _
  | gap signature => exact (course_operands signature).bind steady_course fun _ => course_emit _
  | accent mark => exact course_accented mark
  | definition kind => exact course_declaration kind
  | choice kind => exact course_choice kind
  | inclusion kind => exact course_inclusion kind
  | mathText =>
    refine along_get_bind_of_forall fun s => ?_
    split
    · exact course_textInMath
    · exact along_pure steady_course _
  | mathOnly =>
    refine along_get_bind_of_forall fun s => ?_
    split
    · exact course_mathInProse name
    · exact along_pure steady_course _

theorem course_plainCommand (name : String) :
    Along (Course setting) (plainCommand setting name) := by
  rw [plainCommand_eq]
  refine along_get_bind_of_forall fun s => ?_
  cases s.dictionary.meaning name with
  | defined definition => exact course_expand name definition
  | flagSetting flag value => exact along_modify fun t => .change t _ (.setFlag _ _ _)
  | flagTest flag => exact along_get_bind_of_forall fun _ => course_beginConditional _
  | bareTest => exact course_bareTest name
  | effect effect => exact course_applyEffect name effect
  | nothing => exact along_pure steady_course _

theorem course_command (hn : ∀ frame, Along (Course setting) (nested frame)) (frame : Frame)
    (name : String) : Along (Course setting) (command setting nested frame name) := by
  unfold command
  split
  · exact along_pure steady_course _
  · split
    · exact course_structural hn name frame _
    · exact Along.goingOn (course_plainCommand name)

/-! ### Rounds -/

theorem course_mathShift (hn : ∀ frame, Along (Course setting) (nested frame)) (frame : Frame) :
    Along (Course setting) (mathShift setting nested frame) := by
  have hopen : Along (Course setting) (openDollars setting nested) := by
    unfold openDollars
    refine (along_peek steady_course).bind steady_course fun t? => ?_
    split
    · exact (course_skip 1).bind steady_course fun _ => Along.goingOn (course_skipMath (hn _))
    · exact Along.goingOn (course_skipMath (hn _))
  cases frame with
  | dollar => exact along_pure steady_course _
  | doubleDollar =>
    refine (along_peek steady_course).bind steady_course fun t? => ?_
    split
    · exact (course_skip 1).bind steady_course fun _ => along_pure steady_course _
    · exact along_pure steady_course _
  | _ => exact hopen

theorem course_clearPeriod : Along (Course setting) clearPeriod := by
  refine along_modify fun s => ?_
  split
  · exact .period s false
  · exact .refl s

theorem course_script (sign : Token) : Along (Course setting) (script sign) := by
  refine along_get_bind_of_forall fun s => ?_
  split
  · exact course_clearPeriod
  · exact course_mathInProse _

theorem course_interpret (hn : ∀ frame, Along (Course setting) (nested frame)) (frame : Frame)
    (t : Token) : Along (Course setting) (interpret setting nested frame t) := by
  cases t with
  | endOfInput =>
    exact Along.goingOn (along_modify fun s => .read s s.stream 1 (Nat.le_refl _))
  | mathShift => exact course_mathShift hn frame
  | control name => exact course_command hn frame name
  | char c => exact Along.goingOn (course_character c)
  | space => exact Along.goingOn (course_emit _)
  | active c => exact Along.goingOn (course_emit _)
  | alignTab =>
    exact Along.goingOn (course_clearPeriod.bind steady_course fun _ => course_emit _)
  | superscript => exact Along.goingOn (course_script _)
  | subscript => exact Along.goingOn (course_script _)
  | _ => exact along_pure steady_course _

theorem course_endOfStream (frame : Frame) : Along (Course setting) (endOfStream frame) := by
  cases frame with
  | file => exact along_pure steady_course _
  | _ => exact along_fail steady_course _

/-- **One round** leads along `Course` if the scans that it calls do. -/
theorem course_round (hn : ∀ frame, Along (Course setting) (nested frame)) (frame : Frame) :
    Along (Course setting) (round setting nested frame) := by
  unfold round
  refine course_next.bind steady_course fun t? => ?_
  split
  · exact course_endOfStream frame
  · exact course_interpret hn frame _

/-- **A scan**, with all the scans inside it, leads along `Course`. -/
theorem course_within : ∀ (fuel : Nat) (frame : Frame) (start : Nat),
    Along (Course setting) (within setting fuel frame start)
  | 0, _, _ => along_fail steady_course _
  | fuel + 1, frame, start => by
    have hinner : ∀ frame, Along (Course setting) (inner setting fuel frame) :=
      fun frame s => course_within fuel frame s.consumed s
    intro s
    have hround := course_round hinner frame
    rcases within_cases setting fuel frame start s with ⟨failure, h⟩ | ⟨-, h⟩ | ⟨t, ht, h⟩
    · rw [after_error h]
      exact .refl s
    · unfold after
      rw [h]
      exact hround s
    · unfold after
      rw [h]
      exact (hround.ok ht).trans (course_within fuel frame start t)

/-- The scan of a span leads along `Course`. -/
theorem course_inner (setting : Setting) (fuel : Nat) (frame : Frame) :
    Along (Course setting) (inner setting fuel frame) :=
  fun s => course_within fuel frame s.consumed s

end Scan

end ProofProse
