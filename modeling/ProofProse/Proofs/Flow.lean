import ProofProse.Proofs.Course.Round

/-! # How scans end

What a round of a scan can answer depends on its frame and on whether it stands in a span: only a
scan of the file ends with the document, and only outside spans a proof ends (`Flow.Allowed`). The
scan of a span therefore ends with what closes the span, or is interrupted (`close_of_within`). -/

namespace ProofProse

/-- What may end a round in a frame, inside a span or outside. -/
def Flow.Allowed (frame : Frame) (inSpan : Bool) : Flow → Prop
  | goOn => True
  | close => True
  | endDocument => frame = .file
  | proofEnd _ => inSpan = false

namespace Scan

variable {setting : Setting} {α : Type} {frame : Frame} {nested : Frame → Scan Flow}

/-- A computation answers only what it may in a frame. -/
def Flows (frame : Frame) (m : Scan Flow) : Prop :=
  ∀ s flow t, m s = .ok flow t → flow.Allowed frame s.inSpan

theorem flows_pure {flow : Flow} (h : ∀ inSpan, flow.Allowed frame inSpan) :
    Flows frame (pure flow) := by
  intro s flow' t hm
  cases hm
  exact h _

theorem flows_goingOn (body : Scan Unit) : Flows frame (goingOn body) := by
  intro s flow t h
  unfold goingOn at h
  cases hb : body s with
  | ok a u =>
    rw [bind_ok hb] at h
    cases h
    trivial
  | error i u =>
    rw [bind_error hb] at h
    cases h

theorem Along.flows_bind {m : Scan α} {f : α → Scan Flow} (hm : Along (Course setting) m)
    (hf : ∀ a, Flows frame (f a)) : Flows frame (m >>= f) := by
  intro s flow u h
  cases hs : m s with
  | ok a t =>
    rw [bind_ok hs] at h
    have := hf a t flow u h
    rwa [(hm.ok hs).inSpan_eq] at this
  | error i t =>
    rw [bind_error hs] at h
    cases h

theorem flows_pushBack (setting : Setting) (tokens : List Token) :
    Flows frame (do pushBack tokens; return .close) := by
  have hpush : Along (Course setting) (pushBack tokens) := course_pushBack tokens
  exact hpush.flows_bind fun _ => flows_pure fun _ => trivial

theorem flows_endDocument : Flows frame (endDocument frame) := by
  intro s flow t h
  unfold endDocument at h
  split at h
  · next hframe =>
    cases h
    exact hframe
  · cases h

theorem flows_closeProof {s : State} (hs : s.inSpan = false) {flow : Flow} {t : State}
    (h : closeProof s = .ok flow t) : flow.Allowed frame s.inSpan := by
  unfold closeProof at h
  split at h
  · cases h; trivial
  · cases h; exact hs
  · cases h; trivial

theorem flows_proofBoundary (name : String) {boundary : Scan Flow}
    (h : ∀ s flow t, s.inSpan = false → boundary s = .ok flow t → flow.Allowed frame s.inSpan) :
    Flows frame (proofBoundary name boundary) := by
  intro s flow t hs
  unfold proofBoundary at hs
  rw [bind_ok (m := get) (a := s) (t := s) rfl] at hs
  split at hs
  · cases hs; trivial
  · next hspan => exact h s flow t (Bool.eq_false_iff.mpr hspan) hs

theorem flows_openEnvironment : Flows frame (openEnvironment setting nested) := by
  have htext : Along (Course setting) argumentText := course_argumentText
  unfold openEnvironment
  refine htext.flows_bind fun name => ?_
  split
  · exact flows_pure fun _ => trivial
  · intro s flow t h
    rw [bind_ok (m := get) (a := s) (t := s) rfl] at h
    split at h
    · split at h
      · exact flows_pushBack setting _ s flow t h
      · exact flows_goingOn _ s flow t h
    · cases he : s.dictionary.environment? name with
      | some environment =>
        rw [he] at h
        exact flows_goingOn _ s flow t h
      | none =>
        rw [he] at h
        exact flows_goingOn _ s flow t h

theorem flows_closeEnvironment (setting : Setting) : Flows frame (closeEnvironment frame) := by
  have htext : Along (Course setting) argumentText := course_argumentText
  unfold closeEnvironment
  refine htext.flows_bind fun name => ?_
  split
  · exact flows_pure fun _ => trivial
  · intro s flow t h
    rw [bind_ok (m := get) (a := s) (t := s) rfl] at h
    split at h
    · split at h
      · exact flows_pushBack setting _ s flow t h
      · next hspan => exact flows_closeProof (Bool.eq_false_iff.mpr hspan) h
    · split at h
      · exact flows_endDocument s flow t h
      · cases he : s.dictionary.environment? name with
        | some environment =>
          rw [he] at h
          exact flows_goingOn _ s flow t h
        | none =>
          rw [he] at h
          cases h
          trivial

theorem flows_structural (name : String) (kind : Structural) :
    Flows frame (structural setting nested name frame kind) := by
  cases kind with
  | openEnvironment => exact flows_openEnvironment
  | closeEnvironment => exact flows_closeEnvironment setting
  | openProof => exact flows_proofBoundary name fun s flow t _ h => flows_goingOn _ s flow t h
  | closeProof => exact flows_proofBoundary name fun s flow t hs h => flows_closeProof hs h
  | endDocument => exact flows_endDocument
  | nothing => exact flows_pure fun _ => trivial
  | _ => exact flows_goingOn _

theorem flows_command (name : String) : Flows frame (command setting nested frame name) := by
  unfold command
  split
  · exact flows_pure fun _ => trivial
  · split
    · exact flows_structural name _
    · exact flows_goingOn _

theorem flows_mathShift : Flows frame (mathShift setting nested frame) := by
  have hpeek : Along (Course setting) peek := along_peek steady_course
  have hskip : Along (Course setting) (onStream (·.skip 1)) := course_skip 1
  have hopen : Flows frame (openDollars setting nested) := by
    refine hpeek.flows_bind fun t? => ?_
    split
    · exact hskip.flows_bind fun _ => flows_goingOn _
    · exact flows_goingOn _
  cases frame with
  | dollar => exact flows_pure fun _ => trivial
  | doubleDollar =>
    refine hpeek.flows_bind fun t? => ?_
    split
    · exact hskip.flows_bind fun _ => flows_pure fun _ => trivial
    · exact flows_pure fun _ => trivial
  | _ => exact hopen

theorem flows_interpret (t : Token) : Flows frame (interpret setting nested frame t) := by
  cases t with
  | mathShift => exact flows_mathShift
  | control name => exact flows_command name
  | openGroup => exact flows_pure fun _ => trivial
  | closeGroup => exact flows_pure fun _ => trivial
  | parameter n => exact flows_pure fun _ => trivial
  | deferred n => exact flows_pure fun _ => trivial
  | inert name => exact flows_pure fun _ => trivial
  | _ => exact flows_goingOn _

theorem flows_endOfStream : Flows frame (endOfStream frame) := by
  cases frame with
  | file => exact flows_pure fun _ => rfl
  | _ =>
    intro s flow t h
    cases h

theorem flows_round : Flows frame (round setting nested frame) := by
  have hnext : Along (Course setting) next := course_next
  unfold round
  refine hnext.flows_bind fun t? => ?_
  split
  · exact flows_endOfStream
  · exact flows_interpret _

theorem flows_within : ∀ (fuel start : Nat), Flows frame (within setting fuel frame start)
  | 0, _ => by
    intro s flow t h
    cases h
  | fuel + 1, start => by
    intro s flow t h
    rcases within_cases setting fuel frame start s with ⟨failure, hs⟩ | ⟨-, hs⟩ | ⟨u, hu, hs⟩
    · rw [hs] at h; cases h
    · rw [hs] at h
      exact flows_round s flow t h
    · rw [hs] at h
      have hround : Along (Course setting) (round setting (inner setting fuel) frame) :=
        course_round (course_inner setting fuel) frame
      have := flows_within fuel start u flow t h
      rwa [(hround.ok hu).inSpan_eq] at this

/-- **The scan of a span** ends only with what closes the span. -/
theorem close_of_within {fuel start : Nat} {s t : State} {flow : Flow} (hframe : frame ≠ .file)
    (hs : s.inSpan = true) (h : within setting fuel frame start s = .ok flow t) :
    flow = .close := by
  have hallowed := flows_within fuel start s flow t h
  cases flow with
  | goOn => exact absurd h (within_ne_goOn fuel start s t)
  | close => rfl
  | endDocument => exact absurd hallowed hframe
  | proofEnd proof =>
    rw [hs] at hallowed
    cases hallowed

end Scan

end ProofProse
