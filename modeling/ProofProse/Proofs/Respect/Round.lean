import ProofProse.Proofs.Course.Round
import ProofProse.Proofs.Respect.Reading

/-! # States that differ in leftovers

Outside proofs the draft and the place where a proof was opened are left over from an earlier proof,
outside mathematics the mark of a period is, and the warnings so far tell nothing but what happened.
Two states that agree in all else are `Alike`, and from such states a scan runs in the same way
(`respects_within`): a proof that opens sets the draft and its place anew, mathematics that opens
sets the mark of the period anew, and none of them is read before. -/

namespace ProofProse

/-- Two states that agree in all that can be read of them; to the warnings `before` and `before'`
both have added the same. -/
structure State.Alike (before before' : List Warning) (s t : State) : Prop where
  stream : t.stream = s.stream
  dictionary : t.dictionary = s.dictionary
  includes : t.includes = s.includes
  mathDepth : t.mathDepth = s.mathDepth
  discardDepth : t.discardDepth = s.discardDepth
  proofDepth : t.proofDepth = s.proofDepth
  /-- The mark of a period is read in mathematics only. -/
  finalPeriod : s.inMath = true → t.finalPeriod = s.finalPeriod
  /-- The draft is read in proofs only. -/
  draft : s.inProof = true → t.draft = s.draft
  /-- The place where a proof was opened is read in proofs only. -/
  proofStart : s.inProof = true → t.proofStart = s.proofStart
  warnings : ∃ added, s.warnings.toList = before ++ added ∧ t.warnings.toList = before' ++ added

namespace State

variable {before before' : List Warning} {s t : State}

/-- A state is like itself, so one run by itself shows what can interrupt it. -/
theorem Alike.refl (s : State) : Alike s.warnings.toList s.warnings.toList s s :=
  ⟨rfl, rfl, rfl, rfl, rfl, rfl, fun _ => rfl, fun _ => rfl, fun _ => rfl, [], by simp, by simp⟩

section Read

variable (h : Alike before before' s t)

include h

theorem Alike.inMath : t.inMath = s.inMath := by unfold State.inMath; rw [h.mathDepth]

theorem Alike.inProof : t.inProof = s.inProof := by unfold State.inProof; rw [h.proofDepth]

theorem Alike.inSpan : t.inSpan = s.inSpan := by
  unfold State.inSpan
  rw [h.mathDepth, h.discardDepth]

theorem Alike.capturing : t.capturing = s.capturing := by
  unfold State.capturing
  rw [h.inProof, h.inSpan]

theorem Alike.consumed : t.consumed = s.consumed := by unfold State.consumed; rw [h.stream]

/-- Where text is kept a proof is open, so the drafts are the same. -/
theorem Alike.draft_of_capturing (hs : s.capturing = true) : t.draft = s.draft :=
  h.draft (Bool.and_eq_true_iff.mp hs).1

end Read

theorem indifferent_alike (before before' : List Warning) : Indifferent (Alike before before') where
  stream h := h.stream
  dictionary h := h.dictionary
  includes h := h.includes
  inProof h := h.inProof
  read h _ _ := { h with stream := rfl, includes := rfl }
  define h _ := { h with dictionary := rfl }
  warn h warning := by
    obtain ⟨added, hs, ht⟩ := h.warnings
    refine { h with warnings := ⟨added ++ [warning], ?_, ?_⟩ }
    · simp [State.warn, hs]
    · simp [State.warn, ht]

theorem Alike.emit (h : Alike before before' s t) (fragment : Fragment) :
    Alike before before' (s.emit fragment) (t.emit fragment) := by
  unfold State.emit
  rw [h.capturing]
  split
  · next hs => exact { h with draft := fun _ => by rw [h.draft_of_capturing hs] }
  · exact h

theorem Alike.addChar (h : Alike before before' s t) (hs : s.capturing = true) (c : Char) :
    Alike before before' (s.addChar c) (t.addChar c) := by
  unfold State.addChar
  rw [h.stream, h.draft_of_capturing hs]
  split
  · split
    · exact h.emit _
    · exact h.emit _
  · split
    · exact (h.emit _).emit _
    · exact h.emit _

theorem Alike.setPeriod (h : Alike before before' s t) (period : Bool) :
    Alike before before' { s with finalPeriod := period } { t with finalPeriod := period } :=
  { h with finalPeriod := fun _ => rfl }

/-! ### Spans -/

/-- Mathematics opens with a mark of its own, unless it opens in mathematics. -/
theorem Alike.enterMath (h : Alike before before' s t) :
    Alike before before' s.enterMath t.enterMath := by
  refine { h with mathDepth := congrArg (· + 1) h.mathDepth, finalPeriod := fun _ => ?_ }
  have hmath := h.mathDepth
  show (if t.mathDepth == 0 then false else t.finalPeriod) =
    if s.mathDepth == 0 then false else s.finalPeriod
  rw [hmath]
  split
  · rfl
  · next hs =>
    have hpos : s.mathDepth ≠ 0 := fun hzero => hs (by rw [hzero]; rfl)
    exact h.finalPeriod (decide_eq_true (Nat.pos_of_ne_zero hpos))

/-- What mathematics leaves behind is told by a mark that was set in it. -/
theorem Alike.leaveMath (h : Alike before before' s t) (hs : s.inMath = true) :
    Alike before before' s.leaveMath t.leaveMath ∧
      t.leaveMath.finalPeriod = s.leaveMath.finalPeriod := by
  have hperiod := h.finalPeriod hs
  refine ⟨{ h with mathDepth := congrArg (· - 1) h.mathDepth, finalPeriod := fun _ => hperiod }, ?_⟩
  exact hperiod

theorem Alike.markMath (h : Alike before before' s t) (hperiod : t.finalPeriod = s.finalPeriod) :
    Alike before before' s.markMath t.markMath := by
  unfold State.markMath
  rw [hperiod]
  dsimp only
  split
  · exact (h.emit _).emit _
  · exact h.emit _

theorem Alike.enterDiscarded (h : Alike before before' s t) :
    Alike before before' s.enterDiscarded t.enterDiscarded :=
  { h with discardDepth := congrArg (· + 1) h.discardDepth }

theorem Alike.leaveDiscarded (h : Alike before before' s t) :
    Alike before before' s.leaveDiscarded t.leaveDiscarded :=
  { h with discardDepth := congrArg (· - 1) h.discardDepth }

/-! ### Proofs -/

/-- A proof opens with a draft and a place of its own, unless it opens in a proof. -/
theorem Alike.enterProof (h : Alike before before' s t) :
    Alike before before' s.enterProof t.enterProof := by
  have hdepth := h.proofDepth
  unfold State.enterProof
  by_cases hs : s.proofDepth = 0
  · have ht : t.proofDepth = 0 := hdepth.trans hs
    rw [if_pos (by simp [hs]), if_pos (by simp [ht])]
    exact { h with
      proofDepth := congrArg (· + 1) hdepth, finalPeriod := fun _ => rfl
      draft := fun _ => rfl, proofStart := fun _ => h.consumed }
  · have ht : ¬t.proofDepth = 0 := by rwa [hdepth]
    have hproof : s.inProof = true := decide_eq_true (Nat.pos_of_ne_zero hs)
    rw [if_neg (by simp [hs]), if_neg (by simp [ht])]
    exact { h with
      proofDepth := congrArg (· + 1) hdepth, draft := fun _ => h.draft hproof
      proofStart := fun _ => h.proofStart hproof }

theorem Alike.abandonProof (h : Alike before before' s t) :
    Alike before before' s.abandonProof t.abandonProof := by
  unfold State.abandonProof
  rw [h.stream, h.includes, h.proofDepth]
  exact { h with
    stream := rfl, includes := rfl, mathDepth := rfl, discardDepth := rfl, proofDepth := rfl
    finalPeriod := fun _ => rfl, draft := fun _ => rfl, proofStart := nofun }

end State

namespace Scan

open State

variable {limits : Prop} {before before' : List Warning} {setting : Setting}
  {nested : Frame → Scan Flow}

/-! ### Text -/

theorem respects_goingOn {R : State → State → Prop} {body : Scan Unit} (h : Respects limits R body) :
    Respects limits R (goingOn body) :=
  h.bind fun _ => respects_pure _

theorem respects_emit (fragment : Fragment) : Respects limits (Alike before before') (emit fragment) :=
  respects_modify fun _ _ h => h.emit fragment

theorem respects_character (c : Char) : Respects limits (Alike before before') (character c) := by
  refine respects_modify fun s t h => ?_
  rw [h.inMath, h.capturing]
  split
  · exact h.setPeriod _
  · split
    · next hs => exact h.addChar hs c
    · exact h

/-- Mathematics that stands in prose is met where text is kept, so inside a proof. -/
theorem respects_mathInProse (command : String) :
    Respects limits (Alike before before') (mathInProse command) := by
  intro s t h
  show Matches _ _ ((if s.capturing then drop _ else pure () : Scan Unit) s)
    ((if t.capturing then drop _ else pure () : Scan Unit) t)
  rw [h.capturing]
  split
  · next hs => exact ⟨rfl, h, (Bool.and_eq_true_iff.mp hs).1⟩
  · exact ⟨rfl, h⟩

theorem respects_accented (mark : Char) : Respects limits (Alike before before') (accented mark) := by
  refine (respects_argument (indifferent_alike _ _)).bind fun content => ?_
  unfold emitText
  dsimp only
  split
  · exact respects_pure _
  · exact respects_emit _

theorem respects_openProof : Respects limits (Alike before before') openProof :=
  (respects_optionalArgument (indifferent_alike _ _)).discard.bind fun _ =>
    respects_modify fun _ _ h => h.enterProof

theorem respects_closeProof : Respects limits (Alike before before') closeProof := by
  intro s t h
  have hdepth := h.proofDepth
  unfold closeProof
  rw [hdepth]
  split
  · exact ⟨rfl, h⟩
  · next hs =>
    have hproof : s.inProof = true := by unfold State.inProof; rw [hs]; rfl
    refine ⟨by rw [h.draft hproof], ?_⟩
    exact { h with proofDepth := rfl, draft := fun _ => rfl, proofStart := nofun }
  · next depth _ hs =>
    have hproof : s.inProof = true := by unfold State.inProof; rw [hs]; rfl
    refine ⟨rfl, ?_⟩
    exact { h with
      proofDepth := rfl, draft := fun _ => h.draft hproof
      proofStart := fun _ => h.proofStart hproof }

theorem respects_textInMath : Respects limits (Alike before before') textInMath := by
  refine (respects_argument (indifferent_alike _ _)).bind fun content => ?_
  split
  · exact respects_modify fun _ _ h => h.setPeriod _
  · exact respects_pure _

theorem respects_skipVerbatim (name : String) :
    Respects limits (Alike before before') (skipVerbatim setting name) := by
  refine (respects_take (indifferent_alike _ _) fun _ _ _ => rfl).bind fun ending => ?_
  split
  · exact respects_pure _
  · exact respects_fail fun _ => trivial
  · exact respects_fail fun _ => trivial

/-! ### Spans -/

section Spans

variable (hnested : ∀ inner, Respects limits (Alike before before') (nested inner))

include hnested

/-- Behind mathematics the mark of the period is the one of its own scan, which is still in
mathematics when it ends. -/
theorem respects_skipMath (hcourse : ∀ inner, Along (Course setting) (nested inner))
    (inner : Frame) : Respects limits (Alike before before') (skipMath setting nested inner) := by
  intro s t h
  rw [skipMath_eq, skipMath_eq, h.mathDepth, h.discardDepth]
  split
  · rcases (hnested inner _ _ h.enterMath).cases with
      ⟨flow, u, v, hs, ht, huv⟩ | ⟨i, u, v, hs, ht, huv, hallowed⟩
    · have hdepth := ((hcourse inner).ok hs).depths.1
      have hmath : u.inMath = true := by unfold State.inMath; rw [hdepth]; rfl
      obtain ⟨hleave, hperiod⟩ := huv.leaveMath hmath
      rw [hs, ht]
      exact ⟨rfl, hleave.markMath hperiod⟩
    · have hdepth := ((hcourse inner).error hs).depths.1
      have hmath : u.inMath = true := by unfold State.inMath; rw [hdepth]; rfl
      rw [hs, ht]
      exact ⟨rfl, (huv.leaveMath hmath).1, hallowed⟩
  · exact ⟨rfl, h, trivial⟩

theorem respects_skipDiscarded (name : String) :
    Respects limits (Alike before before') (skipDiscarded setting nested name) := by
  intro s t h
  rw [skipDiscarded_eq, skipDiscarded_eq, h.mathDepth, h.discardDepth]
  split
  · rcases (hnested (.environment name) _ _ h.enterDiscarded).cases with
      ⟨flow, u, v, hs, ht, huv⟩ | ⟨i, u, v, hs, ht, huv, hallowed⟩
    · rw [hs, ht]
      exact ⟨rfl, huv.leaveDiscarded⟩
    · rw [hs, ht]
      exact ⟨rfl, huv.leaveDiscarded, hallowed⟩
  · exact ⟨rfl, h, trivial⟩

end Spans

/-! ### Commands -/

theorem respects_endDocument (frame : Frame) :
    Respects limits (Alike before before') (endDocument frame) := by
  unfold endDocument
  split
  · exact respects_pure _
  · exact respects_fail fun _ => trivial

theorem respects_proofBoundary (name : String) {boundary : Scan Flow}
    (h : Respects limits (Alike before before') boundary) :
    Respects limits (Alike before before') (proofBoundary name boundary) := by
  refine respects_get_bind (fun s t h => by rw [h.inSpan]) fun s => ?_
  split
  · exact (respects_pushBackOne (indifferent_alike _ _) _).bind fun _ => respects_pure _
  · exact h

theorem respects_closeEnvironment (frame : Frame) :
    Respects limits (Alike before before') (closeEnvironment frame) := by
  have hpush : ∀ tokens, Respects limits (Alike before before') (pushBack tokens) :=
    respects_pushBack (indifferent_alike _ _)
  unfold closeEnvironment
  refine (respects_argumentText (indifferent_alike _ _)).bind fun name => ?_
  split
  · exact respects_pure _
  refine respects_get_bind (fun s t h => by rw [h.inSpan, h.dictionary]) fun s => ?_
  split
  · split
    · exact (hpush _).bind fun _ => respects_pure _
    · exact respects_closeProof
  split
  · exact respects_endDocument frame
  split
  · exact respects_goingOn (hpush _)
  · exact respects_pure _

theorem respects_applyEffect (name : String) (effect : Effect) :
    Respects limits (Alike before before') (applyEffect setting name effect) := by
  have hR : Indifferent (Alike before before') := indifferent_alike _ _
  cases effect with
  | silent signature => exact respects_operands hR signature
  | placeholder kind signature =>
    exact (respects_operands hR signature).bind fun _ => respects_emit _
  | literal text => exact respects_emit _
  | gap signature => exact (respects_operands hR signature).bind fun _ => respects_emit _
  | accent mark => exact respects_accented mark
  | definition kind => exact respects_declaration hR kind
  | choice kind => exact respects_choice hR kind
  | inclusion kind => exact respects_inclusion hR kind
  | mathText =>
    refine respects_get_bind (fun s t h => by rw [h.inMath]) fun s => ?_
    split
    · exact respects_textInMath
    · exact respects_pure _
  | mathOnly =>
    refine respects_get_bind (fun s t h => by rw [h.inMath]) fun s => ?_
    split
    · exact respects_mathInProse name
    · exact respects_pure _

theorem respects_plainCommand (name : String) :
    Respects limits (Alike before before') (plainCommand setting name) := by
  have hR : Indifferent (Alike before before') := indifferent_alike _ _
  rw [plainCommand_eq]
  refine respects_get_bind (fun s t h => by rw [h.dictionary]) fun s => ?_
  cases s.dictionary.meaning name with
  | defined definition => exact respects_expand hR name definition
  | flagSetting flag value =>
    exact respects_onDictionary hR fun dictionary => (dictionary.setFlag flag value).1
  | flagTest flag =>
    exact respects_get_bind (fun s t h => by rw [h.dictionary]) fun _ =>
      respects_beginConditional hR _
  | bareTest => exact respects_bareTest hR name
  | effect effect => exact respects_applyEffect name effect
  | nothing => exact respects_pure _

section Commands

variable (hnested : ∀ inner, Respects limits (Alike before before') (nested inner))
  (hcourse : ∀ inner, Along (Course setting) (nested inner))

include hnested hcourse

theorem respects_openEnvironment :
    Respects limits (Alike before before') (openEnvironment setting nested) := by
  have hR : Indifferent (Alike before before') := indifferent_alike _ _
  unfold openEnvironment
  refine (respects_argumentText hR).bind fun name => ?_
  split
  · exact respects_pure _
  refine respects_get_bind (fun s t h => by rw [h.inSpan, h.dictionary]) fun s => ?_
  split
  · split
    · exact (respects_pushBack hR _).bind fun _ => respects_pure _
    · exact respects_goingOn respects_openProof
  split
  · exact respects_goingOn (respects_expand hR name _)
  · refine respects_goingOn ?_
    unfold openByClass
    split
    · exact respects_openProof
    · exact respects_skipMath hnested hcourse _
    · exact respects_skipDiscarded hnested name
    · exact respects_skipVerbatim name
    · exact respects_operands hR _

theorem respects_structural (name : String) (frame : Frame) (kind : Structural) :
    Respects limits (Alike before before') (structural setting nested name frame kind) := by
  have hR : Indifferent (Alike before before') := indifferent_alike _ _
  have htake : ∀ read : List Token → Reading Unit,
      Respects limits (Alike before before') (goingOn (take fun _ => read)) :=
    fun read => respects_goingOn (respects_take hR fun _ _ _ => rfl)
  cases kind with
  | openEnvironment => exact respects_openEnvironment hnested hcourse
  | closeEnvironment => exact respects_closeEnvironment frame
  | openInline => exact respects_goingOn (respects_skipMath hnested hcourse _)
  | openDisplay => exact respects_goingOn (respects_skipMath hnested hcourse _)
  | endBranch => exact respects_goingOn (respects_skipBranch hR false)
  | openProof => exact respects_proofBoundary name (respects_goingOn respects_openProof)
  | closeProof => exact respects_proofBoundary name respects_closeProof
  | endDocument => exact respects_endDocument frame
  | takeToken => exact respects_goingOn (respects_next hR).discard
  | nothing => exact respects_pure _
  | _ => exact htake _

theorem respects_mathShift (frame : Frame) :
    Respects limits (Alike before before') (mathShift setting nested frame) := by
  have hR : Indifferent (Alike before before') := indifferent_alike _ _
  have hmath : ∀ inner,
      Respects limits (Alike before before') (goingOn (skipMath setting nested inner)) :=
    fun inner => respects_goingOn (respects_skipMath hnested hcourse inner)
  have hopen : Respects limits (Alike before before') (openDollars setting nested) := by
    refine (respects_peek hR).bind fun t? => ?_
    split
    · exact (respects_onStream hR _).bind fun _ => hmath _
    · exact hmath _
  cases frame with
  | dollar => exact respects_pure _
  | doubleDollar =>
    refine (respects_peek hR).bind fun t? => ?_
    split
    · exact (respects_onStream hR _).bind fun _ => respects_pure _
    · exact respects_pure _
  | _ => exact hopen

theorem respects_interpret (frame : Frame) (t : Token) :
    Respects limits (Alike before before') (interpret setting nested frame t) := by
  have hclear : Respects limits (Alike before before') clearPeriod := by
    refine respects_modify fun s t h => ?_
    rw [h.inMath]
    split
    · exact h.setPeriod _
    · exact h
  have hscript : ∀ sign, Respects limits (Alike before before') (script sign) := by
    intro sign
    refine respects_get_bind (fun s t h => by rw [h.inMath]) fun s => ?_
    split
    · exact hclear
    · exact respects_mathInProse _
  cases t with
  | endOfInput =>
    exact respects_goingOn (respects_modify fun s t h =>
      { h with includes := congrArg (·.leave 1) h.includes })
  | mathShift => exact respects_mathShift hnested hcourse frame
  | control name =>
    show Respects _ _ (command setting nested frame name)
    unfold command
    split
    · exact respects_pure _
    split
    · exact respects_structural hnested hcourse name frame _
    · exact respects_goingOn (respects_plainCommand name)
  | char c => exact respects_goingOn (respects_character c)
  | space => exact respects_goingOn (respects_emit _)
  | active c => exact respects_goingOn (respects_emit _)
  | alignTab => exact respects_goingOn (hclear.bind fun _ => respects_emit _)
  | superscript => exact respects_goingOn (hscript _)
  | subscript => exact respects_goingOn (hscript _)
  | _ => exact respects_pure _

theorem respects_round (frame : Frame) :
    Respects limits (Alike before before') (round setting nested frame) := by
  refine (respects_next (indifferent_alike _ _)).bind fun t? => ?_
  split
  · cases frame with
    | file => exact respects_pure _
    | _ => exact respects_fail fun _ => trivial
  · exact respects_interpret hnested hcourse frame _

end Commands

/-! ### Scans -/

theorem passedLimit?_eq_of_alike {s t : State} (h : Alike before before' s t) (frame : Frame)
    (start : Nat) : passedLimit? setting frame start t = passedLimit? setting frame start s := by
  unfold passedLimit?
  rw [h.consumed, h.inProof]
  cases hs : s.inProof with
  | true => rw [h.proofStart hs]
  | false => rfl

/-- **A scan** of two states that differ in leftovers runs in the same way, by induction on the
rounds left; the scans of spans inside it have fewer of them. -/
theorem respects_within : ∀ (fuel : Nat) (frame : Frame) (start : Nat),
    Respects True (Alike before before') (within setting fuel frame start)
  | 0, _, _ => respects_fail fun inProof => Interrupt.allowed_fatal inProof _
  | fuel + 1, frame, start => by
    intro s t h
    have hnested : ∀ inner', Respects True (Alike before before') (inner setting fuel inner') := by
      intro inner' u v huv
      have hstart := huv.consumed
      show Matches True _ (within setting fuel inner' u.consumed u)
        (within setting fuel inner' v.consumed v)
      rw [hstart]
      exact respects_within fuel inner' u.consumed u v huv
    have hround := respects_round hnested (course_inner setting fuel) frame s t h
    rw [within_succ, within_succ, passedLimit?_eq_of_alike h]
    cases passedLimit? setting frame start s with
    | some failure => exact ⟨rfl, h, Interrupt.allowed_fatal _ failure⟩
    | none =>
      rcases hround.cases with ⟨flow, u, v, hs, ht, huv⟩ | ⟨i, u, v, hs, ht, huv, hallowed⟩
      · rw [hs, ht]
        cases flow with
        | goOn => exact respects_within fuel frame start u v huv
        | _ => exact ⟨rfl, huv⟩
      · rw [hs, ht]
        exact ⟨rfl, huv, hallowed⟩

end Scan

end ProofProse
