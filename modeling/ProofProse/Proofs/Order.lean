import ProofProse.Proofs.Ending

/-! # The order of a run

The states that a run visits come one after the other, those in spans before those behind the spans.
Of two of them the one for which fewer tokens have been taken comes first, and what is defined in the
other one has been defined by changes to what is defined in it (`Visits.precedes`).

A scan is deterministic: a round opens one span at most (`Opens.unique`), and where it does and goes
on, it does so behind all that the scan of the span visits (`precedes_after`). So two states that one
scan visits are comparable, by induction on the way to one of them (`comparable_of_reaches`), and the
states in which the file is scanned on follow one another. The run ends behind all of them
(`Visits.precedes_last`). -/

namespace ProofProse

open Relation

/-- No fewer tokens have been taken, and the definitions come from those of the first state. -/
structure State.Precedes (s t : State) : Prop where
  consumed : s.consumed ≤ t.consumed
  changes : s.dictionary.Changes t.dictionary

namespace State

variable {s t u : State}

theorem steady_precedes : Steady Precedes where
  refl _ := ⟨Nat.le_refl _, .refl⟩
  trans h h' := ⟨Nat.le_trans h.consumed h'.consumed, h.changes.trans h'.changes⟩

theorem Precedes.trans (h : s.Precedes t) (h' : t.Precedes u) : s.Precedes u :=
  steady_precedes.trans h h'

theorem SameSource.precedes (h : s.SameSource t) : s.Precedes t where
  consumed := Nat.le_of_eq (congrArg Stream.consumed h.1.symm)
  changes := by rw [h.2.2]

theorem precedes_abandonProof (s : State) : s.Precedes s.abandonProof where
  consumed := Nat.le_add_right _ _
  changes := .refl

end State

theorem Course.precedes {setting : Setting} {s t : State} (h : Course setting s t) : s.Precedes t :=
  ⟨h.consumed_le, h.changes⟩

namespace Scan

open State

variable {setting : Setting} {nested : Frame → Scan Flow} {frame inner inner' : Frame}
  {fuel start : Nat} {s t u u' v : State}

theorem precedes_within (fuel : Nat) (frame : Frame) (start : Nat) (s : State) :
    s.Precedes (after (within setting fuel frame start) s) :=
  (course_within fuel frame start s).precedes

theorem precedes_round (setting : Setting) (fuel : Nat) (frame : Frame) (s : State) :
    s.Precedes (after (round setting (Scan.inner setting fuel) frame) s) := by
  have hinner : ∀ inner, Along (Course setting) (Scan.inner setting fuel inner) :=
    fun inner t => course_within fuel inner t.consumed t
  exact (course_round hinner frame s).precedes

/-! ### Spans -/

theorem Opens.precedes (h : Opens setting frame s inner u) : s.Precedes u := by
  obtain ⟨t, hround, -, -, hdictionary⟩ := h.round_closeAtOnce
  have hcourse := course_round (along_closeAtOnce setting) frame s
  rw [after_ok hround] at hcourse
  have hconsumed := h.consumed
  refine ⟨by omega, ?_⟩
  rw [← hdictionary]
  exact hcourse.changes

theorem Opens.unique (h : Opens setting frame s inner u) (h' : Opens setting frame s inner' u') :
    inner = inner' ∧ u = u' := by
  classical
  refine Classical.byContradiction fun hne => ?_
  -- A scan that is interrupted in the first span only would tell the two apart.
  let nested : Frame → Scan Flow := fun frame v =>
    if frame = inner ∧ v = u then .error (.fatal .unterminatedMath) v else .ok .close v
  have hfirst : nested inner u = .error (.fatal .unterminatedMath) u := if_pos ⟨rfl, rfl⟩
  have hother : nested inner' u' = .ok .close u' :=
    if_neg fun heq => hne ⟨heq.1.symm, heq.2.symm⟩
  obtain ⟨t, herror, -⟩ := h.round_error hfirst
  obtain ⟨t', hok, -⟩ := h'.round_ok hother
  rw [hok] at herror
  cases herror

/-- What a round comes to that opens a span lies behind the scan of the span. -/
theorem Opens.precedes_after (h : Opens setting frame s inner u) (nested : Frame → Scan Flow) :
    (after (nested inner) u).Precedes (after (round setting nested frame) s) := by
  cases hrun : nested inner u with
  | ok flow v =>
    obtain ⟨t, hround, hvt⟩ := h.round_ok hrun
    rw [after_ok hrun, after_ok hround]
    exact hvt.precedes
  | error i v =>
    obtain ⟨t, hround, hvt, -⟩ := h.round_error hrun
    rw [after_error hrun, after_error hround]
    exact hvt.precedes

/-! ### One scan -/

/-- A scan in a frame that began at `start`, before one of its rounds. -/
structure Moment where
  /-- How many rounds are left. -/
  fuel : Nat
  /-- The frame. -/
  frame : Frame
  /-- How many tokens had been taken when the frame began. -/
  start : Nat
  /-- The state. -/
  state : State

namespace Moment

/-- Where the scan from here ends. -/
def last (setting : Setting) (m : Moment) : State :=
  after (within setting m.fuel m.frame m.start) m.state

/-- A round leads from one moment to another: to the next round, or into a span. -/
inductive Step (setting : Setting) : Moment → Moment → Prop
  | goOn {fuel start : Nat} {frame : Frame} {s t : State}
      (hlimit : passedLimit? setting frame start s = none)
      (h : round setting (Scan.inner setting fuel) frame s = .ok .goOn t) :
      Step setting ⟨fuel + 1, frame, start, s⟩ ⟨fuel, frame, start, t⟩
  | opens {fuel start : Nat} {frame inner : Frame} {s u : State}
      (hlimit : passedLimit? setting frame start s = none) (h : Opens setting frame s inner u) :
      Step setting ⟨fuel + 1, frame, start, s⟩ ⟨fuel, inner, u.consumed, u⟩

variable {m m' m₁ m₂ : Moment}

theorem precedes_last (setting : Setting) (m : Moment) : m.state.Precedes (m.last setting) :=
  precedes_within m.fuel m.frame m.start m.state

theorem Step.precedes (h : Step setting m m') : m.state.Precedes m'.state := by
  cases h with
  | @goOn fuel start frame s t hlimit h =>
    have hround := precedes_round setting fuel frame s
    rwa [after_ok h] at hround
  | opens hlimit h => exact h.precedes

theorem last_precedes_round (fuel : Nat) (h : Opens setting frame s inner u) :
    (last setting ⟨fuel, inner, u.consumed, u⟩).Precedes
      (after (round setting (Scan.inner setting fuel) frame) s) :=
  h.precedes_after (Scan.inner setting fuel)

theorem round_precedes_last (hlimit : passedLimit? setting frame start s = none) :
    (after (round setting (Scan.inner setting fuel) frame) s).Precedes
      (last setting ⟨fuel + 1, frame, start, s⟩) := by
  unfold last
  by_cases hround : ∃ t, round setting (Scan.inner setting fuel) frame s = .ok .goOn t
  · obtain ⟨t, ht⟩ := hround
    have hlast : after (within setting (fuel + 1) frame start) s =
        after (within setting fuel frame start) t := by
      unfold after
      rw [within_goOn hlimit ht]
    rw [after_ok ht]
    dsimp only
    rw [hlast]
    exact precedes_within fuel frame start t
  · have hlast : after (within setting (fuel + 1) frame start) s =
        after (round setting (Scan.inner setting fuel) frame) s := by
      unfold after
      rw [within_stop hlimit fun t ht => hround ⟨t, ht⟩]
    dsimp only
    rw [hlast]
    exact steady_precedes.refl _

theorem Step.last_precedes (h : Step setting m m') : (m'.last setting).Precedes (m.last setting) := by
  cases h with
  | @goOn fuel start frame s t hlimit h =>
    have hlast : last setting ⟨fuel + 1, frame, start, s⟩ = last setting ⟨fuel, frame, start, t⟩ := by
      unfold last after
      rw [within_goOn hlimit h]
    rw [hlast]
    exact steady_precedes.refl _
  | @opens fuel start frame inner s u hlimit h =>
    exact (last_precedes_round fuel h).trans (round_precedes_last hlimit)

theorem precedes_of_reaches (h : ReflTransGen (Step setting) m m') :
    m.state.Precedes m'.state := by
  induction h with
  | refl => exact steady_precedes.refl _
  | tail _ hstep ih => exact ih.trans hstep.precedes

theorem precedes_last_of_reaches (h : ReflTransGen (Step setting) m m') :
    m'.state.Precedes (m.last setting) := by
  have hlast : (m'.last setting).Precedes (m.last setting) := by
    induction h with
    | refl => exact steady_precedes.refl _
    | tail _ hstep ih => exact hstep.last_precedes.trans ih
  exact (m'.precedes_last setting).trans hlast

/-- All that a scan visits in a span precedes the state behind the span. -/
theorem precedes_of_opens (hopens : Opens setting frame s inner u)
    (hround : round setting (Scan.inner setting fuel) frame s = .ok .goOn t)
    (h : ReflTransGen (Step setting) ⟨fuel, inner, u.consumed, u⟩ m) : m.state.Precedes t := by
  have hspan := last_precedes_round fuel hopens
  rw [after_ok hround] at hspan
  exact (precedes_last_of_reaches h).trans hspan

/-- **Two moments of one scan** are comparable, by induction on the way to one of them: the ways
part where one leads into a span and the other one leads on. -/
theorem comparable_of_reaches (h₁ : ReflTransGen (Step setting) m m₁)
    (h₂ : ReflTransGen (Step setting) m m₂) :
    m₁.state.Precedes m₂.state ∨ m₂.state.Precedes m₁.state := by
  induction h₁ using ReflTransGen.head_induction_on with
  | refl => exact .inl (precedes_of_reaches h₂)
  | @head m n hstep hrest ih =>
    rcases h₂.cases_head with rfl | ⟨n', hstep', hrest'⟩
    · exact .inr (precedes_of_reaches (hrest.head hstep))
    cases hstep with
    | goOn hlimit hround =>
      cases hstep' with
      | goOn hlimit' hround' =>
        obtain ⟨-, rfl⟩ := EStateM.Result.ok.inj (hround.symm.trans hround')
        exact ih hrest'
      | opens hlimit' hopens' =>
        exact .inr ((precedes_of_opens hopens' hround hrest').trans (precedes_of_reaches hrest))
    | opens hlimit hopens =>
      cases hstep' with
      | goOn hlimit' hround' =>
        exact .inl ((precedes_of_opens hopens hround' hrest).trans (precedes_of_reaches hrest'))
      | opens hlimit' hopens' =>
        obtain ⟨rfl, rfl⟩ := hopens.unique hopens'
        exact ih hrest'

end Moment

/-! ### A run -/

/-- The file is scanned on from a state, behind a proof that was completed or dropped. -/
inductive ScansOn (setting : Setting) : State → State → Prop
  | proofEnd {s t : State} {proof? : Option Proof}
      (h : scan setting .file s = .ok (.proofEnd proof?) t) : ScansOn setting s t
  | dropped {s t : State} {reason : DropReason}
      (h : scan setting .file s = .error (.drop reason) t) : ScansOn setting s t.abandonProof

/-- The scan of the file from a state. -/
def Moment.ofFile (setting : Setting) (s : State) : Moment := ⟨rounds setting, .file, s.consumed, s⟩

variable {first s' : State}

theorem begins_iff : Begins setting first s ↔ ReflTransGen (ScansOn setting) first s := by
  constructor
  · intro h
    induction h with
    | first => exact .refl
    | proofEnd _ h ih => exact ih.tail (.proofEnd h)
    | dropped _ h ih => exact ih.tail (.dropped h)
  · intro h
    induction h with
    | refl => exact .first
    | tail _ h ih =>
      cases h with
      | proofEnd h => exact .proofEnd ih h
      | dropped h => exact .dropped ih h

theorem rightUnique_scansOn : Relator.RightUnique (ScansOn setting) := by
  intro s t t' h h'
  cases h with
  | proofEnd h =>
    cases h' with
    | proofEnd h' => exact (EStateM.Result.ok.inj (h.symm.trans h')).2
    | dropped h' => cases h.symm.trans h'
  | dropped h =>
    cases h' with
    | proofEnd h' => cases h.symm.trans h'
    | dropped h' => rw [(EStateM.Result.error.inj (h.symm.trans h')).2]

theorem ScansOn.last_precedes (h : ScansOn setting s t) :
    ((Moment.ofFile setting s).last setting).Precedes t := by
  cases h with
  | proofEnd h =>
    have hlast : (Moment.ofFile setting s).last setting = t := after_ok h
    rw [hlast]
    exact steady_precedes.refl _
  | @dropped t reason h =>
    have hlast : (Moment.ofFile setting s).last setting = t := after_error h
    rw [hlast]
    exact precedes_abandonProof t

theorem precedes_of_scansOn (h : ReflTransGen (ScansOn setting) s t) : s.Precedes t := by
  induction h with
  | refl => exact steady_precedes.refl _
  | tail _ hon ih => exact ih.trans ((Moment.precedes_last _ _).trans hon.last_precedes)

/-- A state that is visited is one that the scan of the file comes to, from some state. -/
theorem Visits.reaches (h : Visits setting first fuel frame start s) :
    ∃ b, ReflTransGen (ScansOn setting) first b ∧
      ReflTransGen (Moment.Step setting) (.ofFile setting b) ⟨fuel, frame, start, s⟩ := by
  induction h with
  | @begins s hs => exact ⟨s, begins_iff.mp hs, .refl⟩
  | goOn _ hlimit h ih =>
    obtain ⟨b, hb, hreach⟩ := ih
    exact ⟨b, hb, hreach.tail (.goOn hlimit h)⟩
  | opens _ hlimit h ih =>
    obtain ⟨b, hb, hreach⟩ := ih
    exact ⟨b, hb, hreach.tail (.opens hlimit h)⟩

theorem Visits.precedes_first (h : Visits setting first fuel frame start s) : first.Precedes s := by
  obtain ⟨b, hb, hreach⟩ := h.reaches
  exact (precedes_of_scansOn hb).trans (Moment.precedes_of_reaches hreach)

theorem Visits.comparable {fuel' start' : Nat} {frame' : Frame}
    (h : Visits setting first fuel frame start s)
    (h' : Visits setting first fuel' frame' start' s') : s.Precedes s' ∨ s'.Precedes s := by
  -- What is visited in one scan of the file precedes what is visited in a later one.
  have hlater : ∀ {b b' : State} {m m' : Moment}, ReflTransGen (ScansOn setting) b b' →
      ReflTransGen (Moment.Step setting) (.ofFile setting b) m →
      ReflTransGen (Moment.Step setting) (.ofFile setting b') m' →
      m.state.Precedes m'.state ∨ m'.state.Precedes m.state := by
    intro b b' m m' hbb hm hm'
    rcases hbb.cases_head with rfl | ⟨c, hbc, hcb⟩
    · exact Moment.comparable_of_reaches hm hm'
    · have hend := (Moment.precedes_last_of_reaches hm).trans hbc.last_precedes
      have hbegin := (precedes_of_scansOn hcb).trans (Moment.precedes_of_reaches hm')
      exact .inl (hend.trans hbegin)
  obtain ⟨b, hb, hreach⟩ := h.reaches
  obtain ⟨b', hb', hreach'⟩ := h'.reaches
  rcases ReflTransGen.total_of_right_unique rightUnique_scansOn hb hb' with hbb | hbb
  · exact hlater hbb hreach hreach'
  · exact (hlater hbb hreach' hreach).symm

/-- **The order of a run**: where fewer tokens have been taken comes first. -/
theorem Visits.precedes {fuel' start' : Nat} {frame' : Frame}
    (h : Visits setting first fuel frame start s)
    (h' : Visits setting first fuel' frame' start' s') (hconsumed : s.consumed < s'.consumed) :
    s.Precedes s' := by
  rcases h.comparable h' with hprecedes | hprecedes
  · exact hprecedes
  · exact absurd hprecedes.consumed (Nat.not_le.mpr hconsumed)

theorem not_scansOn {result : EStateM.Result Interrupt State Flow}
    (h : scan setting .file s = result) (hend : ∀ proof? u, result ≠ .ok (.proofEnd proof?) u)
    (hdrop : ∀ reason u, result ≠ .error (.drop reason) u) : ∀ t, ¬ScansOn setting s t := by
  intro t hon
  cases hon with
  | proofEnd hscan => exact hend _ _ (h.symm.trans hscan)
  | dropped hscan => exact hdrop _ _ (h.symm.trans hscan)

theorem last_ofFile {result : EStateM.Result Interrupt State Flow}
    (h : scan setting .file s = result) :
    (Moment.ofFile setting s).last setting = lastState result := by
  rw [← h]
  exact after_eq_lastState _ s

theorem precedes_drain (s : State) : s.Precedes s.drain where
  consumed := (Stream.passed_skipWhile (p := fun _ => True) (fun _ _ => trivial) s.stream).consumed_le
  changes := .refl

end Scan

/-! ### The end of a run -/

section Runs

open Scan State

variable {setting : Setting} {first s b : State} {n fuel start : Nat} {frame : Frame}
  {answer : Except Failure (Option Outcome) × State} {history : History}

theorem NextEnds.last_precedes (h : NextEnds setting s n answer) :
    ((Moment.ofFile setting s).last setting).Precedes answer.2 := by
  induction h with
  | @withoutText s t _ _ _ h hrest ih =>
    rw [last_ofFile h.scan_eq]
    exact (Moment.precedes_last setting (.ofFile setting t)).trans ih
  | closed h =>
    rw [last_ofFile h.scan_eq]
    exact precedes_drain _
  | ended h =>
    rw [last_ofFile h.scan_eq]
    exact precedes_drain _
  | dropped h =>
    rw [last_ofFile h.scan_eq]
    exact precedes_abandonProof _
  | _ h =>
    rw [last_ofFile h.scan_eq]
    exact steady_precedes.refl _

/-- A scan from where the file is scanned on is part of the search for an outcome, or comes behind the
outcome. -/
theorem NextEnds.precedes_or (h : NextEnds setting s n answer)
    (hb : ReflTransGen (ScansOn setting) s b) :
    ((Moment.ofFile setting b).last setting).Precedes answer.2 ∨
      (∃ outcome, answer.1 = .ok (some outcome)) ∧ ReflTransGen (ScansOn setting) answer.2 b := by
  induction h with
  | @completed s t n proof h =>
    rcases hb.cases_head with rfl | ⟨c, hon, hcb⟩
    · exact .inl (NextEnds.completed h).last_precedes
    · have hc : c = t := rightUnique_scansOn hon (.proofEnd h.scan_eq)
      exact .inr ⟨⟨_, rfl⟩, hc ▸ hcb⟩
  | @withoutText s t n m answer h hrest ih =>
    rcases hb.cases_head with rfl | ⟨c, hon, hcb⟩
    · exact .inl (NextEnds.withoutText h hrest).last_precedes
    · have hc : c = t := rightUnique_scansOn hon (.proofEnd h.scan_eq)
      exact ih (hc ▸ hcb)
  | @dropped s t n reason h =>
    rcases hb.cases_head with rfl | ⟨c, hon, hcb⟩
    · exact .inl (NextEnds.dropped h).last_precedes
    · have hc : c = t.abandonProof := rightUnique_scansOn hon (.dropped h.scan_eq)
      exact .inr ⟨⟨_, rfl⟩, hc ▸ hcb⟩
  | closed h =>
    rw [(reflTransGen_iff_eq (not_scansOn h.scan_eq nofun nofun)).mp hb]
    exact .inl (NextEnds.closed h).last_precedes
  | ended h =>
    rw [(reflTransGen_iff_eq (not_scansOn h.scan_eq nofun nofun)).mp hb]
    exact .inl (NextEnds.ended h).last_precedes
  | failed h =>
    rw [(reflTransGen_iff_eq (not_scansOn h.scan_eq nofun nofun)).mp hb]
    exact .inl (NextEnds.failed h).last_precedes

theorem NextEnds.precedes (h : NextEnds setting s n answer) : s.Precedes answer.2 :=
  (Moment.precedes_last setting (.ofFile setting s)).trans h.last_precedes

theorem RunEnds.precedes (h : RunEnds setting s n history) : s.Precedes history.last := by
  induction h with
  | outcome h hrest ih => exact h.precedes.trans ih
  | ended h => exact h.precedes
  | failed h => exact h.precedes

theorem RunEnds.last_precedes (h : RunEnds setting s n history)
    (hb : ReflTransGen (ScansOn setting) s b) :
    ((Moment.ofFile setting b).last setting).Precedes history.last := by
  induction h with
  | outcome h hrest ih =>
    rcases h.precedes_or hb with hlast | ⟨-, htb⟩
    · exact hlast.trans hrest.precedes
    · exact ih htb
  | ended h =>
    rcases h.precedes_or hb with hlast | ⟨⟨_, hnone⟩, -⟩
    · exact hlast
    · cases hnone
  | failed h =>
    rcases h.precedes_or hb with hlast | ⟨⟨_, hnone⟩, -⟩
    · exact hlast
    · cases hnone

/-- **The end of a run** comes behind all states that it visits. -/
theorem Scan.Visits.precedes_last (h : Visits setting first fuel frame start s) :
    s.Precedes (first.history setting).last := by
  obtain ⟨b, hb, hreach⟩ := h.reaches
  obtain ⟨n, history, hrun⟩ := exists_runEnds setting first
  rw [hrun.history_eq]
  exact (Moment.precedes_last_of_reaches hreach).trans (hrun.last_precedes hb)

end Runs

end ProofProse
