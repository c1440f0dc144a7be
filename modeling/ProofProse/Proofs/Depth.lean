import ProofProse.Proofs.Flow
import ProofProse.Proofs.Visits

/-! # The depth of spans

Mathematics and skipped environments are scanned in frames of their own, and two counters hold how
many of each are open (`State.depths`). A scan leaves both counters as it found them, however it
ends, so what a span adds is what is taken away behind it. Spans are opened below the greatest depth
only; with the states in which the scans of spans begin (`Opens.depths`) this bounds the depth in
all states that a run visits (`depth_le_of_visits`). Between two proofs no span is open
(`depths_of_begins`). -/

namespace ProofProse

namespace State

/-- How many spans of mathematics are open, and how many skipped environments. -/
def depths (s : State) : Nat × Nat := (s.mathDepth, s.discardDepth)

/-- How many spans are open. -/
def depth (s : State) : Nat := s.mathDepth + s.discardDepth

theorem depth_eq {s t : State} (h : t.depths = s.depths) : t.depth = s.depth := by
  have hmath : t.mathDepth = s.mathDepth := congrArg Prod.fst h
  have hdiscard : t.discardDepth = s.discardDepth := congrArg Prod.snd h
  unfold depth
  rw [hmath, hdiscard]

theorem inSpan_iff {s : State} : s.inSpan = true ↔ 0 < s.depth := by
  unfold inSpan depth
  rw [Bool.or_eq_true, decide_eq_true_iff, decide_eq_true_iff]
  omega

@[simp] theorem depth_enterMath (s : State) : s.enterMath.depth = s.depth + 1 := by
  unfold depth enterMath
  dsimp only
  omega

@[simp] theorem depth_enterDiscarded (s : State) : s.enterDiscarded.depth = s.depth + 1 := by
  unfold depth enterDiscarded
  dsimp only
  omega

end State

theorem Course.depths_eq {setting : Setting} {s t : State} (h : Course setting s t) :
    t.depths = s.depths :=
  Prod.ext h.depths.1 h.depths.2

namespace Scan

open State

variable {setting : Setting} {α : Type} {m : Scan α} {first s t u : State} {fuel start : Nat}
  {frame inner' : Frame}

/-! ### One scan -/

theorem depths_after (h : Along (Course setting) m) (s : State) : (after m s).depths = s.depths :=
  (h s).depths_eq

/-- What mathematics adds to the depth is there to be taken away when its scan has ended. -/
theorem depths_leaveMath (setting : Setting) (fuel : Nat) (frame : Frame) (s : State) :
    (after (Scan.inner setting fuel frame) s.enterMath).mathDepth = s.mathDepth + 1 ∧
      (after (Scan.inner setting fuel frame) s.enterMath).leaveMath.depths = s.depths := by
  obtain ⟨hmath, hdiscard⟩ := (course_inner setting fuel frame s.enterMath).depths
  exact ⟨hmath, Prod.ext (congrArg (· - 1) hmath) hdiscard⟩

theorem depths_leaveDiscarded (setting : Setting) (fuel : Nat) (frame : Frame) (s : State) :
    (after (Scan.inner setting fuel frame) s.enterDiscarded).discardDepth = s.discardDepth + 1 ∧
      (after (Scan.inner setting fuel frame) s.enterDiscarded).leaveDiscarded.depths =
        s.depths := by
  obtain ⟨hmath, hdiscard⟩ := (course_inner setting fuel frame s.enterDiscarded).depths
  exact ⟨hdiscard, Prod.ext hmath (congrArg (· - 1) hdiscard)⟩

/-! ### Scans of spans -/

theorem along_closeAtOnce (setting : Setting) (frame : Frame) :
    Along (Course setting) (closeAtOnce frame) :=
  along_pure steady_course _

/-- A round that comes to a computation comes to it as deep in spans as it began. -/
theorem depths_of_round {body : Scan Unit} (hbody : Along (Course setting) body)
    (h : round setting closeAtOnce frame s = goingOn body u) : u.depths = s.depths := by
  have hround := depths_after (course_round (along_closeAtOnce setting) frame) s
  have hend : after (round setting closeAtOnce frame) s = after body u := by
    unfold after
    rw [h]
    exact after_goingOn body u
  rw [hend, depths_after hbody u] at hround
  exact hround

/-- A span is opened below the greatest depth, from the depth of the round that opens it. -/
theorem Opens.depths (h : Opens setting frame s inner' u) :
    u.depth = s.depth + 1 ∧ u.depth ≤ setting.options.skipDepth := by
  cases h with
  | math hopen hdepth =>
    have hround := depth_eq (depths_of_round (course_skipMath (along_closeAtOnce setting _)) (hopen _))
    rw [depth_enterMath, hround]
    exact ⟨rfl, hround ▸ hdepth⟩
  | discarded hopen hdepth =>
    have hround := depth_eq (depths_of_round (course_skipDiscarded (along_closeAtOnce setting _)) (hopen _))
    rw [depth_enterDiscarded, hround]
    exact ⟨rfl, hround ▸ hdepth⟩

/-! ### Whole runs -/

theorem depths_of_begins (hfirst : first.depths = (0, 0)) (h : Begins setting first s) :
    s.depths = (0, 0) := by
  induction h with
  | first => exact hfirst
  | proofEnd _ h ih => exact ((course_within _ _ _).ok h).depths_eq.trans ih
  | dropped _ _ _ => rfl

/-- By induction on the run, no visited state is deeper in spans than may be. -/
theorem depth_le_of_visits (hfirst : first.depths = (0, 0))
    (h : Visits setting first fuel frame start s) : s.depth ≤ setting.options.skipDepth := by
  induction h with
  | begins hs =>
    have hdepth := depth_eq ((depths_of_begins hfirst hs).trans hfirst.symm)
    have hzero : first.depth = 0 := by
      obtain ⟨hmath, hdiscard⟩ := Prod.mk.inj hfirst
      unfold State.depth
      omega
    omega
  | goOn _ _ h ih =>
    have hround := ((course_round (course_inner setting _) _).ok h).depths_eq
    rw [depth_eq hround]
    exact ih
  | opens _ _ hopens _ => exact hopens.depths.2

/-- The scans that a run makes beside those of the file are scans of spans. -/
theorem inSpan_of_visits (h : Visits setting first fuel frame start s) (hframe : frame ≠ .file) :
    s.inSpan = true := by
  induction h with
  | begins _ => exact absurd rfl hframe
  | goOn _ _ h ih =>
    rw [((course_round (course_inner setting _) _).ok h).inSpan_eq]
    exact ih hframe
  | opens _ _ hopens _ =>
    have hdepth := hopens.depths.1
    exact inSpan_iff.mpr (by omega)

/-- The search for the next outcome ends outside spans, if it begins there. -/
theorem depths_nextWithin : ∀ (fuel : Nat) (s : State), s.depths = (0, 0) →
    (s.nextWithin setting fuel).2.depths = (0, 0)
  | 0, _, hs => hs
  | fuel + 1, s, hs => by
    have hscan : (after (scan setting .file) s).depths = (0, 0) :=
      (depths_after (course_within _ _ _) s).trans hs
    unfold nextWithin
    cases h : scan setting .file s with
    | ok flow t =>
      rw [after_ok h] at hscan
      cases flow with
      | goOn => exact depths_nextWithin fuel t hscan
      | close => exact hscan
      | endDocument => exact hscan
      | proofEnd proof =>
        cases proof with
        | none => exact depths_nextWithin fuel t hscan
        | some proof => exact hscan
    | error i t =>
      rw [after_error h] at hscan
      cases i with
      | drop reason => rfl
      | fatal failure => exact hscan

/-- **Frames are balanced and bounded.** A scan in any frame and from any state, however it ends,
leaves both depths as they were. So there is one span more to take away when the scan of a span has
ended, and behind it the depths are those before. In a run of a source every round begins and ends
within the greatest depth, and so does a span that it opens, one deeper than the round. The scan of
a span ends only with what closes the span, and the file is scanned on, and the search for an
outcome ends, outside all spans. -/
theorem frames_balanced_and_bounded (setting : Setting) (source path : String) :
    (∀ (fuel : Nat) (frame : Frame) (start : Nat) (s : State),
      (after (within setting fuel frame start) s).depths = s.depths) ∧
    (∀ (fuel : Nat) (frame : Frame) (s : State),
      ((after (Scan.inner setting fuel frame) s.enterMath).mathDepth = s.mathDepth + 1 ∧
        (after (Scan.inner setting fuel frame) s.enterMath).leaveMath.depths = s.depths) ∧
      (after (Scan.inner setting fuel frame) s.enterDiscarded).discardDepth = s.discardDepth + 1 ∧
        (after (Scan.inner setting fuel frame) s.enterDiscarded).leaveDiscarded.depths =
          s.depths) ∧
    (∀ fuel frame start s, Visits setting (.ofSource setting source path) fuel frame start s →
      s.depth ≤ setting.options.skipDepth ∧
      (∀ fuel', (after (round setting (Scan.inner setting fuel') frame) s).depth ≤
        setting.options.skipDepth) ∧
      (∀ inner' u, Opens setting frame s inner' u →
        u.depth = s.depth + 1 ∧ u.depth ≤ setting.options.skipDepth) ∧
      (frame ≠ .file → ∀ flow t, within setting fuel frame start s = .ok flow t →
        flow = .close)) ∧
    ∀ s, Begins setting (.ofSource setting source path) s →
      s.depths = (0, 0) ∧ (after (scan setting .file) s).depths = (0, 0) ∧
        (s.nextOutcome setting).2.depths = (0, 0) := by
  have hfirst : (State.ofSource setting source path).depths = (0, 0) := rfl
  refine ⟨fun fuel frame start => depths_after (course_within fuel frame start),
    fun fuel frame s => ⟨depths_leaveMath setting fuel frame s,
      depths_leaveDiscarded setting fuel frame s⟩,
    fun fuel frame start s hv => ?_, fun s hs => ?_⟩
  · have hdepth := depth_le_of_visits hfirst hv
    refine ⟨hdepth, fun fuel' => ?_, fun inner' u hopens => hopens.depths,
      fun hframe flow t h => ?_⟩
    · rw [depth_eq (depths_after (course_round (course_inner setting fuel') frame) s)]
      exact hdepth
    · exact close_of_within hframe (inSpan_of_visits hv hframe) h
  · have hdepths := depths_of_begins hfirst hs
    exact ⟨hdepths, (depths_after (course_within _ _ _) s).trans hdepths,
      depths_nextWithin _ s hdepths⟩

end Scan

end ProofProse
