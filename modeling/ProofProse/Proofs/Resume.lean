import ProofProse.Proofs.Ending

/-! # Scans that go on from the middle

`scanFrom` scans on from a state that an earlier round has led to. How many rounds are left does not
matter (`within_eq_scanFrom`), so the equations of a scan need not count them: a round is one with
whole scans of spans in it (`scanFrom_goOn`, `scanFrom_stop`).

In the middle of a scan some spans stand open, one inside the other, each with a scan of its own
(`Span`). `resume` goes on with the innermost of them and, when it has ended, with those around it.
In every state that the scan of a file comes to, with the spans that stand open there (`Stands`),
resuming comes to the result of the whole scan (`Stands.resume_eq`). The counters of the state count
the open spans, and no span is scanned in the frame of a file or of a proof (`Stands.fits`). -/

namespace ProofProse

open Relation

namespace Scan

variable {setting : Setting} {frame : Frame} {start fuel : Nat} {s t u : State}

/-! ### Scanning on -/

/-- Scans on in a frame that began at `start`. -/
def scanFrom (setting : Setting) (frame : Frame) (start : Nat) : Scan Flow :=
  within setting (rounds setting) frame start

theorem course_scan (setting : Setting) (frame : Frame) : Along (Course setting) (scan setting frame) :=
  fun s => course_within (rounds setting) frame s.consumed s

theorem scan_eq_scanFrom : scan setting frame s = scanFrom setting frame s.consumed s := rfl

/-- With more rounds than tokens are left, the number of rounds does not matter. -/
theorem within_eq_scanFrom (hfuel : s.left setting < fuel) :
    within setting fuel frame start s = scanFrom setting frame start s := by
  obtain ⟨n, result, hends⟩ := exists_ends setting frame start s
  unfold scanFrom
  rw [hends.within_eq fuel hfuel, hends.within_eq _ (s.left_lt_rounds setting)]

theorem round_inner_eq (hlimit : passedLimit? setting frame start s = none)
    (hfuel : s.left setting < fuel + 1) :
    round setting (inner setting fuel) frame s = round setting (scan setting) frame s := by
  rcases opens_or_const setting frame s with ⟨inner', u, hopens⟩ | ⟨result, hconst⟩
  · have hless := (hopens.left hlimit).2
    exact hopens.round_congr (within_eq_scanFrom (by omega))
  · rw [hconst, hconst]

theorem scanFrom_limit {failure : Failure} (h : passedLimit? setting frame start s = some failure) :
    scanFrom setting frame start s = .error (.fatal failure) s :=
  within_limit h

theorem scanFrom_goOn (hlimit : passedLimit? setting frame start s = none)
    (h : round setting (scan setting) frame s = .ok .goOn t) :
    scanFrom setting frame start s = scanFrom setting frame start t := by
  have hround := round_inner_eq hlimit (s.left_lt_rounds setting)
  have hstep : scanFrom setting frame start s =
      within setting (setting.options.fileLimit + 1) frame start t :=
    within_goOn hlimit (hround.trans h)
  have hconsumed := consumed_round (course_inner setting (setting.options.fileLimit + 1)) frame s
  rw [after_ok (hround.trans h)] at hconsumed
  have hfile := (passedLimit?_eq_none_iff.mp hlimit).1
  have hreads : s.reads = 1 := by
    rcases opens_or_const setting frame s with ⟨inner', u, hopens⟩ | ⟨result, hconst⟩
    · exact hopens.reads
    · rw [hconst] at h
      exact reads_of_goOn ((hconst closeAtOnce).trans h)
  rw [hstep]
  refine within_eq_scanFrom ?_
  unfold State.left
  omega

theorem scanFrom_stop (hlimit : passedLimit? setting frame start s = none)
    (h : ∀ t, round setting (scan setting) frame s ≠ .ok .goOn t) :
    scanFrom setting frame start s = round setting (scan setting) frame s := by
  have hround := round_inner_eq hlimit (s.left_lt_rounds setting)
  have hstep := within_stop hlimit (fun t ht => h t (hround.symm.trans ht))
  exact hstep.trans hround

/-- A round in a frame, after which the scan of the frame goes on. -/
def NextRound (setting : Setting) (frame : Frame) (start : Nat) (s t : State) : Prop :=
  passedLimit? setting frame start s = none ∧ round setting (scan setting) frame s = .ok .goOn t

/-- Any number of rounds, one after the other. -/
abbrev Rounds (setting : Setting) (frame : Frame) (start : Nat) : State → State → Prop :=
  ReflTransGen (NextRound setting frame start)

theorem Rounds.scanFrom_eq (h : Rounds setting frame start s t) :
    scanFrom setting frame start s = scanFrom setting frame start t := by
  induction h with
  | refl => rfl
  | tail _ hround ih => exact ih.trans (scanFrom_goOn hround.1 hround.2)

end Scan

/-! ### Open spans -/

/-- The frame of a span: neither that of a file nor that of a proof. -/
def Frame.isOfSpan : Frame → Bool
  | file => false
  | environment name => !isProofName name
  | _ => true

/-- A span that stands open. -/
inductive Span where
  /-- Mathematics, scanned in a frame from a count of tokens on. -/
  | math (frame : Frame) (start : Nat)
  /-- A skipped environment. -/
  | discarded (name : String) (start : Nat)
  deriving DecidableEq

namespace Span

/-- The frame that a span is scanned in. -/
def frame : Span → Frame
  | math frame _ => frame
  | discarded name _ => .environment name

/-- How many tokens had been taken when a span was opened. -/
def start : Span → Nat
  | math _ start => start
  | discarded _ start => start

/-- Whether a span is mathematics. -/
def isMath : Span → Bool
  | math _ _ => true
  | discarded _ _ => false

/-- Goes back to the scan around a span whose own scan has ended. -/
def leave : Span → State → State
  | math _ _, s => s.leaveMath.markMath
  | discarded _ _, s => s.leaveDiscarded

/-- Goes back to the scan around a span whose own scan was interrupted. -/
def abort : Span → State → State
  | math _ _, s => s.leaveMath
  | discarded _ _, s => s.leaveDiscarded

end Span

/-- The counters of a state count the spans that stand open, innermost first. -/
structure Fits (spans : List Span) (s : State) : Prop where
  frames : ∀ span ∈ spans, span.frame.isOfSpan = true
  math : s.mathDepth = spans.countP (·.isMath)
  discarded : s.discardDepth = spans.countP (!·.isMath)

theorem Fits.depth_eq {spans : List Span} {s : State} (h : Fits spans s) :
    s.depth = spans.length := by
  have hcount := List.length_eq_countP_add_countP Span.isMath (l := spans)
  have hnot : spans.countP (fun span => !span.isMath) = spans.countP (fun span => ¬span.isMath) :=
    List.countP_congr fun span _ => by simp
  unfold State.depth
  rw [h.math, h.discarded, hcount, hnot]

theorem Fits.inSpan {spans : List Span} {s : State} (h : Fits spans s) (hspans : spans ≠ []) :
    s.inSpan = true := by
  rw [State.inSpan_iff, h.depth_eq]
  exact List.length_pos_iff.mpr hspans

namespace Scan

variable {setting : Setting} {s t u s₀ : State} {start : Nat} {spans : List Span}

/-- The frame of the innermost scan. -/
def topFrame : List Span → Frame
  | [] => .file
  | span :: _ => span.frame

/-- Where the innermost scan began, when that of the file began at `start`. -/
def topStart (start : Nat) : List Span → Nat
  | [] => start
  | span :: _ => span.start

/-- What the whole scan comes to, when the innermost scan has come to a result. -/
def around (setting : Setting) (start : Nat) :
    List Span → EStateM.Result Interrupt State Flow → EStateM.Result Interrupt State Flow
  | [], result => result
  | span :: spans, .ok _ t =>
    around setting start spans
      (scanFrom setting (topFrame spans) (topStart start spans) (span.leave t))
  | span :: spans, .error i t => around setting start spans (.error i (span.abort t))

/-- Goes on with the innermost of some open spans, and then with the scans around it, out to that of
a file that began at `start`. -/
def resume (setting : Setting) (start : Nat) (spans : List Span) (s : State) :
    EStateM.Result Interrupt State Flow :=
  around setting start spans (scanFrom setting (topFrame spans) (topStart start spans) s)

/-- The scan of a file from `s₀` on comes to a state, with some spans open. -/
inductive Stands (setting : Setting) (s₀ : State) : List Span → State → Prop
  | begins : Stands setting s₀ [] s₀
  | goOn {spans : List Span} {s t : State} (hs : Stands setting s₀ spans s)
      (hlimit : passedLimit? setting (topFrame spans) (topStart s₀.consumed spans) s = none)
      (h : round setting (scan setting) (topFrame spans) s = .ok .goOn t) :
      Stands setting s₀ spans t
  | math {spans : List Span} {s u : State} {frame : Frame} (hs : Stands setting s₀ spans s)
      (hlimit : passedLimit? setting (topFrame spans) (topStart s₀.consumed spans) s = none)
      (h : ∀ nested,
        round setting nested (topFrame spans) s = goingOn (skipMath setting nested frame) u)
      (hdepth : u.mathDepth + u.discardDepth < setting.options.skipDepth) :
      Stands setting s₀ (.math frame u.consumed :: spans) u.enterMath
  | discarded {spans : List Span} {s u : State} {name : String} (hs : Stands setting s₀ spans s)
      (hlimit : passedLimit? setting (topFrame spans) (topStart s₀.consumed spans) s = none)
      (h : ∀ nested,
        round setting nested (topFrame spans) s = goingOn (skipDiscarded setting nested name) u)
      (hdepth : u.mathDepth + u.discardDepth < setting.options.skipDepth) :
      Stands setting s₀ (.discarded name u.consumed :: spans) u.enterDiscarded

theorem resume_opened {span : Span}
    (hlimit : passedLimit? setting (topFrame spans) (topStart start spans) s = none)
    (hround : round setting (scan setting) (topFrame spans) s =
      match scanFrom setting span.frame span.start u with
      | .ok _ t => .ok .goOn (span.leave t)
      | .error i t => .error i (span.abort t)) :
    resume setting start (span :: spans) u = resume setting start spans s := by
  unfold resume
  show around setting start (span :: spans) (scanFrom setting span.frame span.start u) = _
  cases hspan : scanFrom setting span.frame span.start u with
  | ok flow t =>
    rw [hspan] at hround
    rw [scanFrom_goOn hlimit hround]
    rfl
  | error i t =>
    rw [hspan] at hround
    rw [scanFrom_stop hlimit (by rw [hround]; nofun), hround]
    rfl

/-- **Resuming** the open spans comes to what the whole scan comes to, by induction on the way to the
state. -/
theorem Stands.resume_eq (h : Stands setting s₀ spans s) :
    resume setting s₀.consumed spans s = scan setting .file s₀ := by
  induction h with
  | begins => rfl
  | goOn hs hlimit h ih =>
    rw [← ih]
    unfold resume
    rw [scanFrom_goOn hlimit h]
  | @math spans s u frame hs hlimit h hdepth ih =>
    rw [← ih]
    refine resume_opened hlimit ?_
    show _ = match scan setting frame u.enterMath with
      | .ok _ t => EStateM.Result.ok Flow.goOn t.leaveMath.markMath
      | .error i t => .error i t.leaveMath
    rw [h]
    unfold goingOn
    cases hspan : scan setting frame u.enterMath with
    | ok flow t =>
      have hskip : skipMath setting (scan setting) frame u = .ok () t.leaveMath.markMath := by
        rw [skipMath_eq, if_pos hdepth, hspan]
      rw [bind_ok hskip]
      rfl
    | error i t =>
      have hskip : skipMath setting (scan setting) frame u = .error i t.leaveMath := by
        rw [skipMath_eq, if_pos hdepth, hspan]
      rw [bind_error hskip]
  | @discarded spans s u name hs hlimit h hdepth ih =>
    rw [← ih]
    refine resume_opened hlimit ?_
    show _ = match scan setting (.environment name) u.enterDiscarded with
      | .ok _ t => EStateM.Result.ok Flow.goOn t.leaveDiscarded
      | .error i t => .error i t.leaveDiscarded
    rw [h]
    unfold goingOn
    cases hspan : scan setting (.environment name) u.enterDiscarded with
    | ok flow t =>
      have hskip : skipDiscarded setting (scan setting) name u = .ok () t.leaveDiscarded := by
        rw [skipDiscarded_eq, if_pos hdepth, hspan]
      rw [bind_ok hskip]
      rfl
    | error i t =>
      have hskip : skipDiscarded setting (scan setting) name u = .error i t.leaveDiscarded := by
        rw [skipDiscarded_eq, if_pos hdepth, hspan]
      rw [bind_error hskip]

/-! ### The frames of spans -/

section Frames

variable {nested nested' : Frame → Scan Flow} {frame inner' : Frame} {name : String}

theorem openEnvironment_congr (h : ∀ inner : Frame, inner.isOfSpan = true → nested inner = nested' inner) :
    openEnvironment setting nested = openEnvironment setting nested' := by
  unfold openEnvironment
  refine congrArg (argumentText >>= ·) (funext fun name => ?_)
  split
  · rfl
  refine congrArg (get >>= ·) (funext fun s => ?_)
  split
  · rfl
  · next hproof =>
    have hname : nested (.environment name) = nested' (.environment name) :=
      h (.environment name) (by simpa [Frame.isOfSpan] using hproof)
    cases EnvironmentClass.ofName name with
    | math => simp only [openByClass, skipMath, hname]
    | discarded => simp only [openByClass, skipDiscarded, hname]
    | _ => rfl

theorem round_congr_ofSpan (h : ∀ inner : Frame, inner.isOfSpan = true → nested inner = nested' inner) :
    round setting nested frame = round setting nested' frame := by
  have hskip : ∀ inner : Frame, inner.isOfSpan = true →
      skipMath setting nested inner = skipMath setting nested' inner := fun inner hinner => by
    unfold skipMath
    rw [h inner hinner]
  have hopen : openDollars setting nested = openDollars setting nested' := by
    unfold openDollars
    rw [hskip .dollar rfl, hskip .doubleDollar rfl]
  refine congrArg (next >>= ·) (funext fun t? => ?_)
  cases t? with
  | none => rfl
  | some t =>
    cases t with
    | mathShift =>
      show mathShift setting nested frame = mathShift setting nested' frame
      cases frame <;> first | rfl | exact hopen
    | control name =>
      show command setting nested frame name = command setting nested' frame name
      unfold command
      split
      · rfl
      split
      · next kind _ =>
        cases kind with
        | openEnvironment => exact openEnvironment_congr h
        | openInline => exact congrArg goingOn (hskip .inline rfl)
        | openDisplay => exact congrArg goingOn (hskip .display rfl)
        | _ => rfl
      · rfl
    | _ => rfl

/-- A span that a round opens is scanned in the frame of a span: a round that calls no other scans
could not tell whether they fail. -/
theorem Opens.isOfSpan (h : Opens setting frame s inner' u) : inner'.isOfSpan = true := by
  rw [← Bool.not_eq_false]
  intro hinner
  let fails : Frame → Scan Flow := fun inner =>
    if inner.isOfSpan then closeAtOnce inner else fail .unterminatedMath
  have hfails : fails inner' u = .error (.fatal .unterminatedMath) u := by
    show (if inner'.isOfSpan then closeAtOnce inner' else fail .unterminatedMath) u = _
    rw [hinner]
    rfl
  have hsame : round setting fails frame = round setting closeAtOnce frame :=
    round_congr_ofSpan fun inner hspan => if_pos hspan
  obtain ⟨t, herror, -⟩ := h.round_error hfails
  obtain ⟨t', hok, -⟩ := h.round_closeAtOnce
  rw [hsame, hok] at herror
  cases herror

/-- The computation that a round comes to finds the depths of the round. -/
theorem depths_of_skipMath
    (h : ∀ nested, round setting nested frame s = goingOn (skipMath setting nested inner') u) :
    u.depths = s.depths :=
  depths_of_round (course_skipMath (along_closeAtOnce setting _)) (h _)

theorem depths_of_skipDiscarded
    (h : ∀ nested, round setting nested frame s = goingOn (skipDiscarded setting nested name) u) :
    u.depths = s.depths :=
  depths_of_round (course_skipDiscarded (along_closeAtOnce setting _)) (h _)

end Frames

/-- **The counters** of a state count the spans that stand open in it. -/
theorem Stands.fits (hs₀ : s₀.depths = (0, 0)) (h : Stands setting s₀ spans s) : Fits spans s := by
  induction h with
  | begins => exact ⟨nofun, congrArg Prod.fst hs₀, congrArg Prod.snd hs₀⟩
  | goOn _ _ h ih =>
    have hdepths := ((course_round (course_scan setting) _).ok h).depths
    exact ⟨ih.frames, hdepths.1.trans ih.math, hdepths.2.trans ih.discarded⟩
  | @math spans s u frame _ _ h hdepth ih =>
    have hdepths := depths_of_skipMath h
    have hmath : u.mathDepth = s.mathDepth := congrArg Prod.fst hdepths
    have hdiscarded : u.discardDepth = s.discardDepth := congrArg Prod.snd hdepths
    refine ⟨fun span hspan => ?_, ?_, ?_⟩
    · rcases List.mem_cons.mp hspan with rfl | hspan
      · exact (Opens.math h hdepth).isOfSpan
      · exact ih.frames span hspan
    · rw [List.countP_cons_of_pos rfl, ← ih.math, ← hmath]
      rfl
    · rw [List.countP_cons_of_neg (by simp [Span.isMath]), ← ih.discarded, ← hdiscarded]
      rfl
  | @discarded spans s u name _ _ h hdepth ih =>
    have hdepths := depths_of_skipDiscarded h
    have hmath : u.mathDepth = s.mathDepth := congrArg Prod.fst hdepths
    have hdiscarded : u.discardDepth = s.discardDepth := congrArg Prod.snd hdepths
    refine ⟨fun span hspan => ?_, ?_, ?_⟩
    · rcases List.mem_cons.mp hspan with rfl | hspan
      · exact (Opens.discarded h hdepth).isOfSpan
      · exact ih.frames span hspan
    · rw [List.countP_cons_of_neg (by simp [Span.isMath]), ← ih.math, ← hmath]
      rfl
    · rw [List.countP_cons_of_pos rfl, ← ih.discarded, ← hdiscarded]
      rfl

end Scan

end ProofProse
