import ProofProse.Proofs.Lockstep
import ProofProse.Proofs.Renaming
import ProofProse.Proofs.Resume

/-! # The loop in a frame

The loop of a scan goes from round to round, and over a file also over the ends of proofs, until the
frame ends or the file is given up (`Comes`). The run goes on from every state that the loop over a
file comes to (`Comes.goesOn`), and fails where a limit on tokens stops the loop (`Stops.failure`).

A file that is read inside another one is complete when the loop comes from its first token to the
mark of its end, and the way there is the same whatever stands behind the mark (`Complete`). The loop
then goes on with what stands behind the mark (`comesTo_file`). -/

namespace ProofProse

namespace Failure

/-- A limit on tokens was passed. -/
def isTokenLimit : Failure → Bool
  | runawayMath _ => true
  | runawayEnvironment _ _ => true
  | runawayConditional _ => true
  | tokenBudgetExceeded _ => true
  | _ => false

end Failure

namespace State

/-- The state elsewhere: with other tokens ahead, and other counts of those that have been taken,
all in all and before the open proof. -/
def elsewhere (s : State) (tokens : List Token) (consumed proofStart : Nat) : State :=
  { s with stream := ⟨tokens, consumed⟩, proofStart := proofStart }

/-- Two states agree in all but the stream and the counts. -/
def Agrees (s t : State) : Prop := t = s.elsewhere t.stream.ahead t.consumed t.proofStart

end State

namespace Scan

/-! ### Turns of the loop -/

/-- One turn of the loop in a frame: a round, perhaps to the end of a proof where the frame is that
of the file. -/
inductive Turn (setting : Setting) : Frame → State → Option Outcome → State → Prop
  | goOn {frame : Frame} {s t : State}
      (h : round setting (scan setting) frame s = .ok .goOn t) : Turn setting frame s none t
  | proofEnd {s t : State} {proof? : Option Proof}
      (h : round setting (scan setting) .file s = .ok (.proofEnd proof?) t) :
      Turn setting .file s (proof?.map .completed) t
  | dropped {s t : State} {reason : DropReason}
      (h : round setting (scan setting) .file s = .error (.drop reason) t) :
      Turn setting .file s (some (.dropped reason)) t.abandonProof

section Loop

variable (setting : Setting) (frame : Frame) (start : Nat)

/-- The loop in a frame that began at `start` comes from one state to another, with some outcomes on
the way. -/
inductive Comes : State → List Outcome → State → Prop
  | here {s : State} : Comes s [] s
  | turn {s t u : State} {outcome? : Option Outcome} {outcomes : List Outcome}
      (hlimit : passedLimit? setting frame start s = none) (h : Turn setting frame s outcome? t)
      (hrest : Comes t outcomes u) : Comes s (outcome?.toList ++ outcomes) u

/-- The loop stops at a limit on tokens: its own, or one of a span or region in the next round. -/
inductive Stops (s : State) : Prop
  | here {failure : Failure} (h : passedLimit? setting frame start s = some failure)
  | inside {failure : Failure} {t : State} (hfailure : failure.isTokenLimit = true)
      (h : round setting (scan setting) frame s = .error (.fatal failure) t)

/-- The loop comes to a state that satisfies `P`, with some outcomes. -/
def Reaches (s : State) (outcomes : List Outcome) (P : State → Prop) : Prop :=
  ∃ t, Comes setting frame start s outcomes t ∧ P t

/-- The same, unless a limit on tokens stops the loop before. -/
def ComesTo (s : State) (outcomes : List Outcome) (P : State → Prop) : Prop :=
  (∃ before t, Comes setting frame start s before t ∧ Stops setting frame start t) ∨
    Reaches setting frame start s outcomes P

/-- A file is complete, where it is read from `u` on: whatever stands behind the mark of its end,
and however many tokens have been taken before, the loop comes from its tokens to the mark, with the
same outcomes and in the state `v`, unless a limit on tokens stops it. -/
def Complete (tokens : List Token) (u : State) (outcomes : List Outcome) (v : State) : Prop :=
  ∀ behind consumed proofStart,
    ComesTo setting frame start
      (u.elsewhere (tokens ++ .endOfInput :: behind) consumed proofStart) outcomes
      fun t => v.Agrees t ∧ t.stream.ahead = .endOfInput :: behind

end Loop

section Turns

variable {setting : Setting} {frame : Frame} {start : Nat} {s t u : State}
  {outcomes outcomes' : List Outcome} {P Q : State → Prop}

theorem Comes.trans (h : Comes setting frame start s outcomes t)
    (h' : Comes setting frame start t outcomes' u) :
    Comes setting frame start s (outcomes ++ outcomes') u := by
  induction h with
  | here => exact h'
  | turn hlimit hturn _ ih =>
    rw [List.append_assoc]
    exact .turn hlimit hturn (ih h')

theorem comesTo_here (h : P s) : ComesTo setting frame start s [] P := .inr ⟨s, .here, h⟩

theorem ComesTo.trans (h : ComesTo setting frame start s outcomes P)
    (h' : ∀ t, P t → ComesTo setting frame start t outcomes' Q) :
    ComesTo setting frame start s (outcomes ++ outcomes') Q := by
  rcases h with hstops | ⟨t, hcomes, hP⟩
  · exact .inl hstops
  · rcases h' t hP with ⟨before, u, hbefore, hstops⟩ | ⟨u, hrest, hQ⟩
    · exact .inl ⟨_, u, hcomes.trans hbefore, hstops⟩
    · exact .inr ⟨u, hcomes.trans hrest, hQ⟩

/-- A round after which the loop goes on, unless it stops before. -/
theorem comesTo_goOn (h : round setting (scan setting) frame s = .ok .goOn t)
    (hrest : ComesTo setting frame start t outcomes P) :
    ComesTo setting frame start s outcomes P := by
  cases hlimit : passedLimit? setting frame start s with
  | some failure => exact .inl ⟨[], s, .here, .here hlimit⟩
  | none =>
    have hone : ComesTo setting frame start s [] (· = t) :=
      .inr ⟨t, .turn hlimit (.goOn h) .here, rfl⟩
    exact hone.trans fun _ ht => ht ▸ hrest

/-- A round over a file and outside proofs, within the limit of the file. -/
theorem reaches_goOn (hconsumed : s.consumed ≤ setting.options.fileLimit)
    (hproof : s.inProof = false) (h : round setting (scan setting) .file s = .ok .goOn t)
    (hrest : Reaches setting .file start t outcomes P) :
    Reaches setting .file start s outcomes P := by
  obtain ⟨u, hcomes, hP⟩ := hrest
  have hlimit : passedLimit? setting .file start s = none :=
    passedLimit?_eq_none_iff.mpr
      ⟨hconsumed, nofun, fun hin => absurd (hproof.symm.trans hin) Bool.false_ne_true⟩
  exact ⟨u, .turn hlimit (.goOn h) hcomes, hP⟩

end Turns

/-! ### The loop and the run

A turn of the loop over a file is a part of the run, so the run goes on from every state that the
loop comes to. In the frame of a span the loop is the scan of the span. -/

/-- The run from `s` has some outcomes, and then goes on as the run from `t`. -/
structure GoesOn (setting : Setting) (s : State) (outcomes : List Outcome) (t : State) : Prop where
  outcomes : (s.history setting).steps.map (·.outcome) =
    outcomes ++ (t.history setting).steps.map (·.outcome)
  failure : (s.history setting).failure = (t.history setting).failure
  last : (s.history setting).last = (t.history setting).last

section Run

variable {setting : Setting} {frame : Frame} {start : Nat} {s t u : State} {outcome : Outcome}
  {outcomes outcomes' : List Outcome}

theorem GoesOn.trans (h : GoesOn setting s outcomes t) (h' : GoesOn setting t outcomes' u) :
    GoesOn setting s (outcomes ++ outcomes') u where
  outcomes := by rw [h.outcomes, h'.outcomes, List.append_assoc]
  failure := h.failure.trans h'.failure
  last := h.last.trans h'.last

theorem within_file (other : Nat) : ∀ (fuel start : Nat) (s : State),
    within setting fuel .file start s = within setting fuel .file other s
  | 0, _, _ => rfl
  | fuel + 1, start, s => by
    have hlimit : passedLimit? setting .file start s = passedLimit? setting .file other s := rfl
    rw [within_succ, within_succ, hlimit]
    split
    · rfl
    · split
      · exact within_file other fuel start _
      · rfl

theorem scan_file (start : Nat) (s : State) :
    scan setting .file s = scanFrom setting .file start s :=
  scan_eq_scanFrom.trans (within_file start _ _ s)

theorem nextOutcome_succ (setting : Setting) (s : State) :
    s.nextOutcome setting = s.nextWithin setting (setting.options.fileLimit + 1 + 1) := rfl

theorem nextOutcome_congr (h : scan setting .file s = scan setting .file t) :
    s.nextOutcome setting = t.nextOutcome setting := by
  rw [nextOutcome_succ, nextOutcome_succ]
  unfold State.nextWithin
  rw [h]

theorem nextOutcome_of_withoutText (h : scan setting .file s = .ok (.proofEnd none) t) :
    s.nextOutcome setting = t.nextOutcome setting := by
  obtain ⟨n, result, hends⟩ := exists_ends setting .file s.consumed s
  obtain ⟨m, answer, hnext⟩ := exists_nextEnds setting t
  rw [hends.scan_eq] at h
  rw [h] at hends
  rw [hnext.nextOutcome_eq, (NextEnds.withoutText hends hnext).nextOutcome_eq]

theorem goesOn_of_nextOutcome_eq (h : s.nextOutcome setting = t.nextOutcome setting) :
    GoesOn setting s [] t := by
  have hhistory : s.history setting = t.history setting := by
    show State.historyWithin setting [] (setting.options.fileLimit + 1 + 1) s =
      State.historyWithin setting [] (setting.options.fileLimit + 1 + 1) t
    unfold State.historyWithin
    rw [h]
  exact ⟨by rw [hhistory]; rfl, by rw [hhistory], by rw [hhistory]⟩

theorem goesOn_of_outcome (h : s.nextOutcome setting = (.ok (some outcome), t)) :
    GoesOn setting s [outcome] t := by
  obtain ⟨n, answer, hnext⟩ := exists_nextEnds setting s
  obtain ⟨m, history, hrun⟩ := exists_runEnds setting t
  rw [hnext.nextOutcome_eq] at h
  rw [h] at hnext
  have hs := (RunEnds.outcome hnext hrun).history_eq
  have ht := hrun.history_eq
  exact ⟨by rw [hs, ht]; rfl, by rw [hs, ht], by rw [hs, ht]⟩

/-- Behind a proof that its scan comes to a run goes on from the state there. -/
theorem goesOn_of_proofEnd {proof : Proof}
    (h : scan setting .file s = .ok (.proofEnd (some proof)) t) :
    GoesOn setting s [.completed proof] t := by
  refine goesOn_of_outcome ?_
  rw [nextOutcome_succ]
  unfold State.nextWithin
  rw [h]

/-- **A turn of the loop** is a part of the run. -/
theorem Turn.goesOn {outcome? : Option Outcome} (h : Turn setting .file s outcome? t)
    (hlimit : passedLimit? setting .file start s = none) :
    GoesOn setting s outcome?.toList t := by
  have hstop : ∀ {result : EStateM.Result Interrupt State Flow},
      round setting (scan setting) .file s = result → (∀ t, result ≠ .ok .goOn t) →
      scan setting .file s = result := by
    intro result hround hresult
    rw [scan_file start, scanFrom_stop hlimit fun t ht => hresult t (hround ▸ ht), hround]
  cases h with
  | goOn h =>
    refine goesOn_of_nextOutcome_eq (nextOutcome_congr ?_)
    rw [scan_file start, scan_file start, scanFrom_goOn hlimit h]
  | @proofEnd _ t proof? h =>
    have hscan := hstop h fun _ hgoOn => by cases hgoOn
    cases proof? with
    | none => exact goesOn_of_nextOutcome_eq (nextOutcome_of_withoutText hscan)
    | some proof => exact goesOn_of_proofEnd hscan
  | dropped h =>
    refine goesOn_of_outcome ?_
    rw [nextOutcome_succ]
    unfold State.nextWithin
    rw [hstop h fun _ hgoOn => by cases hgoOn]

/-- **The loop over a file** is a part of the run, by induction on the turns. -/
theorem Comes.goesOn (h : Comes setting .file start s outcomes t) : GoesOn setting s outcomes t := by
  induction h with
  | here => exact ⟨rfl, rfl, rfl⟩
  | turn hlimit hturn _ ih => exact (hturn.goesOn hlimit).trans ih

/-- **The loop in a span** is its scan. -/
theorem Comes.scanFrom_eq (hframe : frame ≠ .file) (h : Comes setting frame start s outcomes t) :
    outcomes = [] ∧ scanFrom setting frame start s = scanFrom setting frame start t := by
  induction h with
  | here => exact ⟨rfl, rfl⟩
  | turn hlimit hturn _ ih =>
    cases hturn with
    | goOn h => exact ⟨ih.1, (scanFrom_goOn hlimit h).trans ih.2⟩
    | proofEnd h => exact absurd rfl hframe
    | dropped h => exact absurd rfl hframe

theorem isTokenLimit_of_passedLimit? {failure : Failure}
    (h : passedLimit? setting frame start s = some failure) : failure.isTokenLimit = true := by
  unfold passedLimit? at h
  dsimp only at h
  split at h
  · cases h
    rfl
  · split at h
    · cases h
      cases frame <;> rfl
    · split at h
      · cases h
        rfl
      · cases h

theorem history_of_fatal {failure : Failure} (h : scan setting .file s = .error (.fatal failure) t) :
    s.history setting = ⟨[], some failure, t⟩ := by
  have hnext : s.nextOutcome setting = (.error failure, t) := by
    rw [nextOutcome_succ]
    unfold State.nextWithin
    rw [h]
  show State.historyWithin setting [] (setting.options.fileLimit + 1 + 1) s = _
  unfold State.historyWithin
  rw [hnext]
  rfl

/-- Where the loop stops the run fails: a limit on tokens was passed. -/
theorem Stops.failure (h : Stops setting .file start s) :
    ∃ failure, (s.history setting).failure = some failure ∧ failure.isTokenLimit = true := by
  cases h with
  | @here failure hlimit =>
    have hscan : scan setting .file s = .error (.fatal failure) s := by
      rw [scan_file start, scanFrom_limit hlimit]
    rw [history_of_fatal hscan]
    exact ⟨failure, rfl, isTokenLimit_of_passedLimit? hlimit⟩
  | @inside failure t hfailure h =>
    cases hlimit : passedLimit? setting .file start s with
    | some failure =>
      have hscan : scan setting .file s = .error (.fatal failure) s := by
        rw [scan_file start, scanFrom_limit hlimit]
      rw [history_of_fatal hscan]
      exact ⟨failure, rfl, isTokenLimit_of_passedLimit? hlimit⟩
    | none =>
      have hstop : ∀ t, round setting (scan setting) .file s ≠ .ok .goOn t := by
        intro t hgoOn
        cases h.symm.trans hgoOn
      have hscan : scan setting .file s = .error (.fatal failure) t := by
        rw [scan_file start, scanFrom_stop hlimit hstop, h]
      rw [history_of_fatal hscan]
      exact ⟨failure, rfl, hfailure⟩

end Run

/-! ### Complete files -/

section Files

variable {setting : Setting} {nested : Frame → Scan Flow} {frame : Frame} {start : Nat}
  {s u v : State} {tokens body rest : List Token} {name : String}

theorem round_fileEnd (hs : s.stream.ahead = .endOfInput :: rest) :
    round setting nested frame s =
      .ok .goOn (State.leaveFiles { s with stream := ⟨rest, s.consumed + 1⟩ } 1) := by
  unfold round
  rw [bind_ok (next_cons hs)]
  rfl

/-- Behind a complete file the loop goes on with what stands behind it. -/
theorem comesTo_file (behind : List Token) {outcomes outcomes' : List Outcome} {P : State → Prop}
    (hfile : Complete setting frame start tokens u outcomes v)
    (hrest : ∀ consumed proofStart, ComesTo setting frame start
      ((v.leaveFiles 1).elsewhere behind consumed proofStart) outcomes' P)
    (hs : s = u.elsewhere (tokens ++ .endOfInput :: behind) s.consumed s.proofStart) :
    ComesTo setting frame start s (outcomes ++ outcomes') P := by
  rw [hs]
  refine (hfile behind s.consumed s.proofStart).trans fun t ht => ?_
  obtain ⟨hagrees, hahead⟩ := ht
  refine comesTo_goOn (round_fileEnd hahead) ?_
  have hnext : ({ t with stream := ⟨behind, t.consumed + 1⟩ } : State).leaveFiles 1 =
      (v.leaveFiles 1).elsewhere behind (t.consumed + 1) t.proofStart := by
    rw [hagrees]
    rfl
  rw [hnext]
  exact hrest _ _

/-! ### Files of definitions -/

/-- A definition with a parameter text, written out. -/
def definitionTokens (name : String) (text body : List Token) : List Token :=
  .control "def" :: .control name :: (text ++ .openGroup :: (body ++ [.closeGroup]))

theorem readParameterText_none (rest : List Token) :
    readParameterText ([] ++ .openGroup :: rest) =
      ⟨.found [] [], rest, ([] : List Token).length + 1, 0⟩ := rfl

section Definitions

variable {text lead : List Token} {delimiters : List (List Token)}

/-- The parameter text and the body of a definition, if it is not refused. -/
theorem defineWithText_ok
    (htext : ∀ rest, readParameterText (text ++ .openGroup :: rest) =
      ⟨.found lead delimiters, rest, text.length + 1, 0⟩)
    (hfrozen : s.dictionary.isFrozen name = false)
    (harity : protectedArity? name ≠ some delimiters.length)
    (hbody : ∀ t ∈ body, t.StandsInGroup)
    (hs : s.stream.ahead = text ++ .openGroup :: (body ++ .closeGroup :: rest)) :
    defineWithText (some name) s = .ok ()
      { s with
        stream := ⟨rest, s.consumed + (body.length + text.length + 2)⟩
        dictionary := s.dictionary.enter name (.defined { lead, delimiters, body }) } := by
  have hfree : ¬ (protectedArity? name == some (Definition.arity { lead, delimiters, body })) = true :=
    fun h => harity (eq_of_beq h)
  have hdefine : s.dictionary.define name { lead, delimiters, body } =
      .ok (s.dictionary.enter name (.defined { lead, delimiters, body })) := by
    unfold Dictionary.define
    rw [hfrozen, if_neg Bool.false_ne_true, if_neg hfree]
  have hbalanced : balanced "definition"
      { s with stream := ⟨body ++ .closeGroup :: rest, s.consumed + (text.length + 1)⟩ } = _ :=
    balanced_group "definition" hbody rfl
  have hcount : s.consumed + (body.length + text.length + 2) =
      s.consumed + (text.length + 1) + (body.length + 1) := by omega
  unfold defineWithText
  rw [bind_ok (take_ok _ _), hs, htext]
  show (balanced "definition" >>= fun content =>
    define name { lead := lead, delimiters := delimiters, body := content })
    { s with stream := ⟨body ++ .closeGroup :: rest, s.consumed + (text.length + 1)⟩ } = _
  rw [bind_ok hbalanced, hcount]
  unfold define
  rw [bind_ok (m := get) rfl]
  dsimp only
  rw [hdefine]
  rfl

theorem round_definition
    (hcommand : effect? s.dictionary "def" = some (.definition .parameterText))
    (htext : ∀ rest, readParameterText (text ++ .openGroup :: rest) =
      ⟨.found lead delimiters, rest, text.length + 1, 0⟩)
    (hfrozen : s.dictionary.isFrozen name = false)
    (harity : protectedArity? name ≠ some delimiters.length)
    (hbody : ∀ t ∈ body, t.StandsInGroup)
    (hs : s.stream.ahead = definitionTokens name text body ++ rest) :
    round setting nested frame s = .ok .goOn
      { s with
        stream := ⟨rest, s.consumed + (body.length + text.length + 4)⟩
        dictionary := s.dictionary.enter name (.defined { lead, delimiters, body }) } := by
  have hs : s.stream.ahead =
      .control "def" :: .control name :: (text ++ .openGroup :: (body ++ .closeGroup :: rest)) := by
    simpa [definitionTokens] using hs
  have hname : Structural.ofName? "def" = none := Structural.ofName?_eq_none_iff.mpr (by decide)
  have hdefinition : defineByText
      { s with stream :=
          ⟨.control name :: (text ++ .openGroup :: (body ++ .closeGroup :: rest)),
            s.consumed + 1⟩ } =
      .ok () { s with
        stream := ⟨rest, s.consumed + 2 + (body.length + text.length + 2)⟩
        dictionary := s.dictionary.enter name (.defined { lead, delimiters, body }) } := by
    unfold defineByText
    rw [bind_ok (next_cons rfl)]
    exact defineWithText_ok (s := { s with stream := ⟨_, s.consumed + 2⟩ }) htext hfrozen harity
      hbody rfl
  have heffect : plainCommand setting "def"
      { s with stream :=
          ⟨.control name :: (text ++ .openGroup :: (body ++ .closeGroup :: rest)),
            s.consumed + 1⟩ } =
      applyEffect setting "def" (.definition .parameterText) _ :=
    plainCommand_of_effect? hcommand
  have hcount : s.consumed + (body.length + text.length + 4) =
      s.consumed + 2 + (body.length + text.length + 2) := by omega
  rw [round_cons hs, hcount]
  show command setting nested frame "def" _ = _
  rw [command_plain hname]
  exact bind_ok (heffect.trans hdefinition)

theorem complete_definition
    (hcommand : effect? u.dictionary "def" = some (.definition .parameterText))
    (htext : ∀ rest, readParameterText (text ++ .openGroup :: rest) =
      ⟨.found lead delimiters, rest, text.length + 1, 0⟩)
    (hfrozen : u.dictionary.isFrozen name = false)
    (harity : protectedArity? name ≠ some delimiters.length)
    (hbody : ∀ t ∈ body, t.StandsInGroup) :
    Complete setting frame start (definitionTokens name text body) u []
      { u with dictionary := u.dictionary.enter name (.defined { lead, delimiters, body }) } :=
  fun _ _ _ => comesTo_goOn (round_definition hcommand htext hfrozen harity hbody rfl)
    (comesTo_here ⟨rfl, rfl⟩)

end Definitions

end Files

end Scan

end ProofProse
