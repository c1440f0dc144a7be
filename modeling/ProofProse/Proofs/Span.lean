import ProofProse.Proofs.Flow

/-! # Skipped spans leave no trace

Mathematics and skipped environments are interpreted, for what they define, but nothing in them
reaches the proof around them. Whatever is met inside a span, definitions, included files, conditionals,
boundaries of proofs and further spans, the proof being read is the same behind it (`Course.sameProof`):
no text is kept inside a span, and proofs open and close outside spans only. Behind mathematics that
stands in prose there is one placeholder, and the period that the mathematics ended with
(`markMath_toList`). -/

namespace ProofProse

/-- The proof being read is the same in two states. -/
structure State.SameProof (s t : State) : Prop where
  depth : t.proofDepth = s.proofDepth
  start : t.proofStart = s.proofStart
  draft : t.draft = s.draft

/-- What mathematics leaves in a draft. -/
def mathMark (period : Bool) : List Fragment :=
  if period then [.placeholder .math, .text " ."] else [.placeholder .math]

/-- Adds what mathematics leaves. -/
def Draft.markMath (draft : Draft) (period : Bool) : Draft :=
  let marked := draft.push (.placeholder .math)
  if period then marked.push (.text " .") else marked

namespace State

variable {s t u : State}

theorem SameProof.refl (s : State) : s.SameProof s := ⟨rfl, rfl, rfl⟩

theorem SameProof.trans (h : s.SameProof t) (h' : t.SameProof u) : s.SameProof u :=
  ⟨h'.depth.trans h.depth, h'.start.trans h.start, h'.draft.trans h.draft⟩

theorem capturing_eq_false (h : s.inSpan = true) : s.capturing = false := by
  unfold capturing
  rw [h, Bool.not_true, Bool.and_false]

theorem emit_of_not_capturing (h : s.capturing = false) (fragment : Fragment) :
    s.emit fragment = s := by
  unfold emit
  rw [h]; rfl

theorem emit_toList {fragment : Fragment} (h : fragment ≠ .space) :
    (s.emit fragment).draft.toList =
      s.draft.toList ++ if s.capturing then [fragment] else [] := by
  have hpush : s.draft.push fragment = ⟨fragment :: s.draft.newestFirst⟩ := by
    unfold Draft.push
    split
    · next hspace _ => exact absurd rfl h
    · rfl
  unfold emit
  cases s.capturing with
  | false => simp
  | true => simp [hpush, Draft.toList]

/-! A piece of text changes the draft only. -/

@[simp] theorem emit_proofDepth (s : State) (fragment : Fragment) :
    (s.emit fragment).proofDepth = s.proofDepth := by
  unfold emit
  split <;> rfl

@[simp] theorem emit_proofStart (s : State) (fragment : Fragment) :
    (s.emit fragment).proofStart = s.proofStart := by
  unfold emit
  split <;> rfl

@[simp] theorem emit_finalPeriod (s : State) (fragment : Fragment) :
    (s.emit fragment).finalPeriod = s.finalPeriod := by
  unfold emit
  split <;> rfl

@[simp] theorem emit_capturing (s : State) (fragment : Fragment) :
    (s.emit fragment).capturing = s.capturing := by
  unfold emit
  split <;> rfl

/-- **The trace of mathematics**: one placeholder, and its period. -/
theorem markMath_toList (s : State) :
    s.markMath.draft.toList =
      s.draft.toList ++ if s.capturing then mathMark s.finalPeriod else [] := by
  have hmath : (s.emit (.placeholder .math)).draft.toList =
      s.draft.toList ++ if s.capturing then [.placeholder .math] else [] :=
    emit_toList (by simp)
  have hperiod := @emit_toList (s.emit (.placeholder .math)) (.text " .") (by simp)
  unfold markMath mathMark
  cases s.finalPeriod with
  | false => simpa using hmath
  | true =>
    rw [emit_capturing, hmath] at hperiod
    cases hc : s.capturing <;> simpa [hc] using hperiod

@[simp] theorem markMath_proofDepth (s : State) : s.markMath.proofDepth = s.proofDepth := by
  unfold markMath
  dsimp only
  split <;> simp

@[simp] theorem markMath_proofStart (s : State) : s.markMath.proofStart = s.proofStart := by
  unfold markMath
  dsimp only
  split <;> simp

@[simp] theorem markMath_finalPeriod (s : State) : s.markMath.finalPeriod = s.finalPeriod := by
  unfold markMath
  dsimp only
  split <;> simp

end State

/-! ### Inside a span -/

/-- **Inside a span** nothing is done to the proof around it. -/
theorem Course.sameProof {setting : Setting} {s t : State} (h : Course setting s t)
    (hs : s.inSpan = true) : s.SameProof t := by
  induction h with
  | trans hst _ ih ih' => exact (ih hs).trans (ih' (hst.inSpan_eq.trans hs))
  | emit s fragment =>
    rw [State.emit_of_not_capturing (State.capturing_eq_false hs)]
    exact .refl s
  | openProof s h => rw [hs] at h; cases h
  | closeProof s h => rw [hs] at h; cases h
  | math _ _ ih =>
    obtain ⟨hdepth, hstart, hdraft⟩ := ih (by simp [State.inSpan, State.enterMath])
    exact ⟨hdepth, hstart, hdraft⟩
  | discarded _ _ ih =>
    obtain ⟨hdepth, hstart, hdraft⟩ := ih (by simp [State.inSpan, State.enterDiscarded])
    exact ⟨hdepth, hstart, hdraft⟩
  | _ => exact ⟨rfl, rfl, rfl⟩

namespace State

variable {s t : State}

theorem inSpan_enterMath (s : State) : s.enterMath.inSpan = true := by
  simp [inSpan, enterMath]

theorem inSpan_enterDiscarded (s : State) : s.enterDiscarded.inSpan = true := by
  simp [inSpan, enterDiscarded]

/-- What a span of mathematics leads to, left again, keeps text where it was kept before. -/
theorem leaveMath_capturing {setting : Setting} (h : Course setting s.enterMath t) :
    t.leaveMath.capturing = s.capturing := by
  obtain ⟨hmath, hdiscard⟩ := h.depths
  have hproof := h.sameProof (inSpan_enterMath s)
  unfold capturing inProof inSpan leaveMath
  dsimp only
  rw [hproof.depth, hmath, hdiscard]
  rfl

theorem sameProof_leaveMath {setting : Setting} (h : Course setting s.enterMath t) :
    s.SameProof t.leaveMath := by
  obtain ⟨hdepth, hstart, hdraft⟩ := h.sameProof (inSpan_enterMath s)
  exact ⟨hdepth, hstart, hdraft⟩

theorem sameProof_leaveDiscarded {setting : Setting} (h : Course setting s.enterDiscarded t) :
    s.SameProof t.leaveDiscarded := by
  obtain ⟨hdepth, hstart, hdraft⟩ := h.sameProof (inSpan_enterDiscarded s)
  exact ⟨hdepth, hstart, hdraft⟩

end State

/-! ### Behind a span -/

namespace Scan

/-- A scan inside a span did nothing to the proof in `s`, and did not end it. -/
def Undisturbed (s : State) : EStateM.Result Interrupt State Flow → Prop
  | .ok flow t => s.SameProof t ∧ ∀ proof, flow ≠ .proofEnd proof
  | .error _ t => s.SameProof t

theorem undisturbed_inner (setting : Setting) (fuel : Nat) (frame : Frame) {s : State}
    (hs : s.inSpan = true) : Undisturbed s (inner setting fuel frame s) := by
  cases h : inner setting fuel frame s with
  | ok flow t =>
    refine ⟨((course_inner setting fuel frame).ok h).sameProof hs, fun proof hflow => ?_⟩
    have hallowed := flows_within fuel s.consumed s flow t h
    rw [hflow, hs] at hallowed
    cases hallowed
  | error i t => exact ((course_inner setting fuel frame).error h).sameProof hs

/-- **Skipped spans leave no trace.** Behind mathematics the proof is what it was, and where text is
kept the draft has gained the mark of mathematics alone; behind a skipped environment, and where
the skipping was interrupted, all is as before. The scan inside the span, whatever it looks for and
however many rounds it has left, neither touches the proof nor ends it. -/
theorem skipped_spans_leave_no_trace (setting : Setting) (fuel : Nat) (s : State) :
    (∀ frame, match skipMath setting (inner setting fuel) frame s with
      | .ok _ t =>
        t.proofDepth = s.proofDepth ∧ t.proofStart = s.proofStart ∧
          t.draft.toList =
            s.draft.toList ++ if s.capturing then mathMark t.finalPeriod else []
      | .error _ t => s.SameProof t) ∧
    (∀ name, match skipDiscarded setting (inner setting fuel) name s with
      | .ok _ t => s.SameProof t
      | .error _ t => s.SameProof t) ∧
    (∀ frame, Undisturbed s.enterMath (inner setting fuel frame s.enterMath)) ∧
    (∀ frame, Undisturbed s.enterDiscarded (inner setting fuel frame s.enterDiscarded)) := by
  refine ⟨fun frame => ?_, fun name => ?_,
    fun frame => undisturbed_inner setting fuel frame (State.inSpan_enterMath s),
    fun frame => undisturbed_inner setting fuel frame (State.inSpan_enterDiscarded s)⟩
  · rw [skipMath_eq]
    by_cases hdepth : s.mathDepth + s.discardDepth < setting.options.skipDepth
    · rw [if_pos hdepth]
      cases hspan : inner setting fuel frame s.enterMath with
      | error i t => exact State.sameProof_leaveMath ((course_inner setting fuel frame).error hspan)
      | ok flow t =>
        have hcourse := (course_inner setting fuel frame).ok hspan
        have hproof := State.sameProof_leaveMath hcourse
        refine ⟨by simpa using hproof.depth, by simpa using hproof.start, ?_⟩
        rw [State.markMath_toList, State.markMath_finalPeriod, State.leaveMath_capturing hcourse,
          hproof.draft]
    · rw [if_neg hdepth]
      exact .refl s
  · rw [skipDiscarded_eq]
    by_cases hdepth : s.mathDepth + s.discardDepth < setting.options.skipDepth
    · rw [if_pos hdepth]
      cases hspan : inner setting fuel (.environment name) s.enterDiscarded with
      | error i t => exact State.sameProof_leaveDiscarded ((course_inner setting fuel _).error hspan)
      | ok flow t => exact State.sameProof_leaveDiscarded ((course_inner setting fuel _).ok hspan)
    · rw [if_neg hdepth]
      exact .refl s

end Scan

end ProofProse
