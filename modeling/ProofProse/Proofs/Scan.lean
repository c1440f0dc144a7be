import ProofProse.Proofs.Computation
import ProofProse.Scan.Loop

/-! # Equations of scans

How the parts of a scan run: what a check of the depth and a search for a file come to, and the three
ways in which one round of a scan is followed by the next (`within_limit`, `within_goOn`,
`within_stop`). `inner` is the scan that a span gets inside a round. -/

namespace ProofProse

namespace Scan

variable {setting : Setting} {α : Type} {s : State}

/-! ### Parts of rounds -/

theorem after_goingOn (body : Scan Unit) (s : State) : after (goingOn body) s = after body s := by
  unfold goingOn
  cases h : body s with
  | ok a t => rw [after_bind_ok h, after_ok h]; rfl
  | error i t => rw [after_bind_error h, after_error h]

theorem Along.goingOn {R : State → State → Prop} {body : Scan Unit} (h : Along R body) :
    Along R (goingOn body) := by
  intro s
  rw [after_goingOn]
  exact h s

/-- A file that `load` finds is one that the search finds: the state is as before, and another file
may be entered. -/
theorem load_some {kind : InclusionKind} {target : String} {s t : State} {found : Found}
    (h : load setting kind target s = .ok (some found) t) :
    t = s ∧ s.includes.depth < setting.options.includeDepth ∧
      search setting target s.includes.current (Inclusion.candidates kind target) = .ok found := by
  unfold load at h
  split at h
  · cases h
  · rw [bind_ok (m := get) (a := s) (t := s) rfl] at h
    split at h
    · cases h
    · next hdepth =>
      cases hsearch : search setting target s.includes.current (Inclusion.candidates kind target) with
      | ok file =>
        rw [hsearch] at h
        cases h
        exact ⟨rfl, Nat.lt_of_not_le hdepth, rfl⟩
      | error warning =>
        rw [hsearch] at h
        cases h

theorem checkDepth_of_lt (h : s.mathDepth + s.discardDepth < setting.options.skipDepth) :
    checkDepth setting s = .ok () s := by
  unfold checkDepth
  rw [bind_ok (m := get) (a := s) (t := s) rfl, if_neg (by omega)]
  rfl

theorem checkDepth_of_ge (h : ¬s.mathDepth + s.discardDepth < setting.options.skipDepth) :
    checkDepth setting s = .error (.fatal (.nestingTooDeep setting.options.skipDepth)) s := by
  unfold checkDepth
  rw [bind_ok (m := get) (a := s) (t := s) rfl, if_pos (by omega)]
  rfl

theorem ofName_ne_proof {name : String} (h : isProofName name = false) :
    EnvironmentClass.ofName name ≠ .proof := by
  unfold EnvironmentClass.ofName
  rw [h, if_neg Bool.false_ne_true]
  split
  · simp
  · split
    · simp
    · split <;> simp

/-! ### Spans -/

section Spans

variable (setting : Setting) (nested : Frame → Scan Flow) (s : State)

theorem skipMath_eq (frame : Frame) : skipMath setting nested frame s =
    if s.mathDepth + s.discardDepth < setting.options.skipDepth then
      match nested frame s.enterMath with
      | .ok _ t => .ok () t.leaveMath.markMath
      | .error i t => .error i t.leaveMath
    else .error (.fatal (.nestingTooDeep setting.options.skipDepth)) s := by
  unfold skipMath
  split
  · next hdepth =>
    have henter : (modify (·.enterMath) : Scan Unit) s = .ok () s.enterMath := rfl
    rw [bind_ok (checkDepth_of_lt hdepth), bind_ok henter]
    cases hn : nested frame s.enterMath with
    | error i t =>
      have hleave : (discard (andAlways (nested frame) (·.leaveMath)) : Scan Unit) s.enterMath =
          .error i t.leaveMath := discard_error (by unfold andAlways; rw [hn])
      exact bind_error hleave
    | ok flow t =>
      have hleave : (discard (andAlways (nested frame) (·.leaveMath)) : Scan Unit) s.enterMath =
          .ok () t.leaveMath := discard_ok (by unfold andAlways; rw [hn])
      rw [bind_ok hleave]
      rfl
  · next hdepth => exact bind_error (checkDepth_of_ge hdepth)

theorem skipDiscarded_eq (name : String) : skipDiscarded setting nested name s =
    if s.mathDepth + s.discardDepth < setting.options.skipDepth then
      match nested (.environment name) s.enterDiscarded with
      | .ok _ t => .ok () t.leaveDiscarded
      | .error i t => .error i t.leaveDiscarded
    else .error (.fatal (.nestingTooDeep setting.options.skipDepth)) s := by
  unfold skipDiscarded
  split
  · next hdepth =>
    have henter : (modify (·.enterDiscarded) : Scan Unit) s = .ok () s.enterDiscarded := rfl
    rw [bind_ok (checkDepth_of_lt hdepth), bind_ok henter]
    cases hn : nested (.environment name) s.enterDiscarded with
    | error i t => exact discard_error (by unfold andAlways; rw [hn])
    | ok flow t => exact discard_ok (by unfold andAlways; rw [hn])
  · next hdepth => exact bind_error (checkDepth_of_ge hdepth)

end Spans

theorem skipMath_ok {setting : Setting} {nested : Frame → Scan Flow} {frame : Frame} {s t : State}
    {flow : Flow} (hdepth : s.mathDepth + s.discardDepth < setting.options.skipDepth)
    (h : nested frame s.enterMath = .ok flow t) :
    skipMath setting nested frame s = .ok () t.leaveMath.markMath := by
  rw [skipMath_eq, if_pos hdepth, h]

/-! ### Rounds of a scan -/

/-- No limit has been passed: not that of the file, nor that of the frame, nor that of the proof. -/
theorem passedLimit?_eq_none_iff {frame : Frame} {start : Nat} {s : State} :
    passedLimit? setting frame start s = none ↔
      s.consumed ≤ setting.options.fileLimit ∧
      (∀ limit, frame.limit? setting.options = some limit → s.consumed - start ≤ limit) ∧
      (s.inProof = true → s.consumed - s.proofStart ≤ setting.options.environmentLimit) := by
  unfold passedLimit?
  dsimp only
  split
  · next hfile => exact ⟨nofun, fun h => absurd h.1 (by omega)⟩
  next hfile =>
  split
  · next limit hframe =>
    obtain ⟨hlimit, hover⟩ := Option.filter_eq_some_iff.mp hframe
    have hover : s.consumed - start > limit := of_decide_eq_true hover
    exact ⟨nofun, fun h => absurd (h.2.1 limit hlimit) (by omega)⟩
  next hframe =>
  have hwithin : ∀ limit, frame.limit? setting.options = some limit →
      s.consumed - start ≤ limit := by
    intro limit hlimit
    have := Option.filter_eq_none_iff.mp hframe limit hlimit
    have := of_decide_eq_false (Bool.eq_false_iff.mpr this)
    omega
  by_cases hin : s.inProof = true
  · by_cases hproof : s.consumed - s.proofStart > setting.options.environmentLimit
    · rw [if_pos (by simp [hin, hproof])]
      exact ⟨nofun, fun h => absurd (h.2.2 hin) (by omega)⟩
    · rw [if_neg (by simp [hproof])]
      exact ⟨fun _ => ⟨by omega, hwithin, fun _ => by omega⟩, fun _ => rfl⟩
  · rw [if_neg (by simp [hin])]
    exact ⟨fun _ => ⟨by omega, hwithin, fun h => absurd h hin⟩, fun _ => rfl⟩

/-- The scan that a frame of its own gets, with some rounds left. -/
abbrev inner (setting : Setting) (fuel : Nat) : Frame → Scan Flow :=
  fun frame s => within setting fuel frame s.consumed s

variable {fuel : Nat} {frame : Frame} {start : Nat} {s t : State}

theorem within_succ : within setting (fuel + 1) frame start s =
    match passedLimit? setting frame start s with
    | some failure => .error (.fatal failure) s
    | none =>
      match round setting (inner setting fuel) frame s with
      | .ok .goOn t => within setting fuel frame start t
      | result => result := rfl

theorem within_limit {failure : Failure} (h : passedLimit? setting frame start s = some failure) :
    within setting (fuel + 1) frame start s = .error (.fatal failure) s := by
  rw [within_succ, h]

theorem within_goOn (h : passedLimit? setting frame start s = none)
    (hround : round setting (inner setting fuel) frame s = .ok .goOn t) :
    within setting (fuel + 1) frame start s = within setting fuel frame start t := by
  rw [within_succ, h]
  dsimp only
  rw [hround]

theorem within_stop (h : passedLimit? setting frame start s = none)
    (hround : ∀ t, round setting (inner setting fuel) frame s ≠ .ok .goOn t) :
    within setting (fuel + 1) frame start s = round setting (inner setting fuel) frame s := by
  rw [within_succ, h]
  dsimp only
  split
  · next t ht => exact absurd ht (hround t)
  · rfl

/-- A scan with some rounds left does one of three things: it stops at a limit, it ends with its
first round, or it goes on behind it. -/
theorem within_cases (setting : Setting) (fuel : Nat) (frame : Frame) (start : Nat) (s : State) :
    (∃ failure, within setting (fuel + 1) frame start s = .error (.fatal failure) s) ∨
    ((∀ t, round setting (inner setting fuel) frame s ≠ .ok .goOn t) ∧
      within setting (fuel + 1) frame start s = round setting (inner setting fuel) frame s) ∨
    ∃ t, round setting (inner setting fuel) frame s = .ok .goOn t ∧
      within setting (fuel + 1) frame start s = within setting fuel frame start t := by
  cases h : passedLimit? setting frame start s with
  | some failure => exact .inl ⟨failure, within_limit h⟩
  | none =>
    by_cases hround : ∃ t, round setting (inner setting fuel) frame s = .ok .goOn t
    · obtain ⟨t, ht⟩ := hround
      exact .inr (.inr ⟨t, ht, within_goOn h ht⟩)
    · have hstop : ∀ t, round setting (inner setting fuel) frame s ≠ .ok .goOn t :=
        fun t ht => hround ⟨t, ht⟩
      exact .inr (.inl ⟨hstop, within_stop h hstop⟩)

theorem within_ne_goOn : ∀ (fuel start : Nat) (s t : State),
    within setting fuel frame start s ≠ .ok .goOn t
  | 0, _, _, _ => by
    intro h
    cases h
  | fuel + 1, start, s, t => by
    intro h
    rcases within_cases setting fuel frame start s with ⟨failure, hs⟩ | ⟨hstop, hs⟩ | ⟨u, hu, hs⟩
    · rw [hs] at h; cases h
    · rw [hs] at h
      exact hstop t h
    · rw [hs] at h
      exact within_ne_goOn fuel start u t h

end Scan

end ProofProse
