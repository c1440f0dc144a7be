import ProofProse.Extraction
import ProofProse.Proofs.Scan

/-! # The states that a scan visits

A round calls at most one scan of a span (`callsOnce_round`), from a state that does not depend on
what that scan does; `Opens` is the relation between the state before the round, the frame of the
span and the state in which its scan begins. `Begins` lists the states in which the file is scanned
from, behind completed and dropped proofs included, and `Visits` the states before all rounds, those
in spans included. A proof that is dropped inside spans is dropped by the scan of the file
(`Visits.begins_of_drop`). -/

namespace ProofProse

namespace State

/-- The same tokens ahead, the same files and the same definitions. -/
def SameSource (s t : State) : Prop :=
  t.stream = s.stream ∧ t.includes = s.includes ∧ t.dictionary = s.dictionary

theorem SameSource.trans {s t u : State} (h : s.SameSource t) (h' : t.SameSource u) :
    s.SameSource u :=
  ⟨h'.1.trans h.1, h'.2.1.trans h.2.1, h'.2.2.trans h.2.2⟩

theorem sameSource_emit (s : State) (fragment : Fragment) : s.SameSource (s.emit fragment) := by
  unfold emit
  split <;> exact ⟨rfl, rfl, rfl⟩

theorem sameSource_markMath (s : State) : s.SameSource s.markMath := by
  unfold markMath
  dsimp only
  split
  · exact (sameSource_emit s _).trans (sameSource_emit _ _)
  · exact sameSource_emit s _

end State

namespace Scan

variable {setting : Setting} {α : Type} {nested nested' : Frame → Scan Flow} {frame : Frame}
  {s t : State}

/-! ### Spans that are opened -/

/-- The round from `s` scans a span in a frame, from a state. -/
inductive Opens (setting : Setting) (frame : Frame) (s : State) : Frame → State → Prop
  | math {inner : Frame} {u : State}
      (h : ∀ nested, round setting nested frame s = goingOn (skipMath setting nested inner) u)
      (hdepth : u.mathDepth + u.discardDepth < setting.options.skipDepth) :
      Opens setting frame s inner u.enterMath
  | discarded {name : String} {u : State}
      (h : ∀ nested, round setting nested frame s = goingOn (skipDiscarded setting nested name) u)
      (hdepth : u.mathDepth + u.discardDepth < setting.options.skipDepth) :
      Opens setting frame s (.environment name) u.enterDiscarded

/-- A computation comes to skipping one span, or does not skip any. -/
inductive CallsOnce (setting : Setting) (m : (Frame → Scan Flow) → Scan Flow) (s : State) : Prop
  | never (h : ∀ nested nested', m nested s = m nested' s)
  | math {inner : Frame} {u : State}
      (h : ∀ nested, m nested s = goingOn (skipMath setting nested inner) u)
  | discarded {name : String} {u : State}
      (h : ∀ nested, m nested s = goingOn (skipDiscarded setting nested name) u)

theorem CallsOnce.bind {m : Scan α} {f : α → (Frame → Scan Flow) → Scan Flow}
    (h : ∀ a t, m s = .ok a t → CallsOnce setting (f a) t) :
    CallsOnce setting (fun nested => m >>= fun a => f a nested) s := by
  cases hm : m s with
  | error i t => exact .never fun nested nested' => by rw [bind_error hm, bind_error hm]
  | ok a t =>
    cases h a t hm with
    | never hf => exact .never fun nested nested' => by rw [bind_ok hm, bind_ok hm, hf nested nested']
    | math hf => exact .math fun nested => by rw [bind_ok hm, hf nested]
    | discarded hf => exact .discarded fun nested => by rw [bind_ok hm, hf nested]

theorem callsOnce_const (m : Scan Flow) (s : State) : CallsOnce setting (fun _ => m) s :=
  .never fun _ _ => rfl

theorem callsOnce_skipMath (inner : Frame) (s : State) :
    CallsOnce setting (fun nested => goingOn (skipMath setting nested inner)) s :=
  .math fun _ => rfl

theorem callsOnce_openEnvironment (s : State) :
    CallsOnce setting (fun nested => openEnvironment setting nested) s := by
  refine .bind fun name t _ => ?_
  split
  · exact callsOnce_const _ t
  refine .bind fun u v _ => ?_
  split
  · exact callsOnce_const _ v
  split
  · exact callsOnce_const _ v
  cases EnvironmentClass.ofName name with
  | math => exact callsOnce_skipMath _ v
  | discarded => exact .discarded fun _ => rfl
  | _ => exact .never fun _ _ => rfl

theorem callsOnce_structural (name : String) (frame : Frame) (kind : Structural) (s : State) :
    CallsOnce setting (fun nested => structural setting nested name frame kind) s := by
  cases kind with
  | openEnvironment => exact callsOnce_openEnvironment s
  | openInline => exact callsOnce_skipMath _ s
  | openDisplay => exact callsOnce_skipMath _ s
  | _ => exact callsOnce_const _ s

theorem callsOnce_mathShift (frame : Frame) (s : State) :
    CallsOnce setting (fun nested => mathShift setting nested frame) s := by
  have hopen : CallsOnce setting (fun nested => openDollars setting nested) s := by
    refine .bind fun t? t _ => ?_
    split
    · exact .bind fun _ u _ => callsOnce_skipMath _ u
    · exact callsOnce_skipMath _ t
  cases frame with
  | dollar => exact callsOnce_const _ s
  | doubleDollar => exact callsOnce_const _ s
  | _ => exact hopen

theorem callsOnce_round (setting : Setting) (frame : Frame) (s : State) :
    CallsOnce setting (fun nested => round setting nested frame) s := by
  refine .bind fun t? t _ => ?_
  cases t? with
  | none => exact callsOnce_const _ t
  | some token =>
    cases token with
    | mathShift => exact callsOnce_mathShift frame t
    | control name =>
      dsimp only [interpret, command]
      split
      · exact callsOnce_const _ t
      · split
        · exact callsOnce_structural name frame _ t
        · exact callsOnce_const _ t
    | _ => exact callsOnce_const _ t

/-- A scan that ends at once, and leaves the state in which the span began. -/
def closeAtOnce : Frame → Scan Flow := fun _ => pure .close

/-- A round opens a span, or it runs the same whatever the scans of spans do. -/
theorem opens_or_const (setting : Setting) (frame : Frame) (s : State) :
    (∃ inner u, Opens setting frame s inner u) ∨
      ∃ result, ∀ nested, round setting nested frame s = result := by
  cases callsOnce_round setting frame s with
  | never h => exact .inr ⟨_, fun nested => h nested closeAtOnce⟩
  | @math inner u h =>
    by_cases hdepth : u.mathDepth + u.discardDepth < setting.options.skipDepth
    · exact .inl ⟨_, _, .math h hdepth⟩
    · refine .inr ⟨.error (.fatal (.nestingTooDeep setting.options.skipDepth)) u, fun nested => ?_⟩
      exact (h nested).trans (bind_error (by rw [skipMath_eq, if_neg hdepth]))
  | @discarded name u h =>
    by_cases hdepth : u.mathDepth + u.discardDepth < setting.options.skipDepth
    · exact .inl ⟨_, _, .discarded h hdepth⟩
    · refine .inr ⟨.error (.fatal (.nestingTooDeep setting.options.skipDepth)) u, fun nested => ?_⟩
      exact (h nested).trans (bind_error (by rw [skipDiscarded_eq, if_neg hdepth]))

/-! ### Rounds that open a span -/

section Opened

variable {inner : Frame} {u v : State} (hopens : Opens setting frame s inner u)

include hopens

theorem Opens.round_ok {flow : Flow} (h : nested inner u = .ok flow v) :
    ∃ t, round setting nested frame s = .ok .goOn t ∧ v.SameSource t := by
  cases hopens with
  | @math inner w hround hdepth =>
    have hskip : skipMath setting nested inner w = .ok () v.leaveMath.markMath := by
      rw [skipMath_eq, if_pos hdepth, h]
    exact ⟨_, (hround nested).trans (bind_ok hskip), State.sameSource_markMath _⟩
  | @discarded name w hround hdepth =>
    have hskip : skipDiscarded setting nested name w = .ok () v.leaveDiscarded := by
      rw [skipDiscarded_eq, if_pos hdepth, h]
    exact ⟨_, (hround nested).trans (bind_ok hskip), rfl, rfl, rfl⟩

/-- When the scan of the span is interrupted, so is the scan around it, and nothing more is read; a
proof that is dropped is dropped in the same way. -/
theorem Opens.round_error {i : Interrupt} (h : nested inner u = .error i v) :
    ∃ t, round setting nested frame s = .error i t ∧ v.SameSource t ∧
      t.abandonProof = v.abandonProof := by
  cases hopens with
  | @math inner w hround hdepth =>
    have hskip : skipMath setting nested inner w = .error i v.leaveMath := by
      rw [skipMath_eq, if_pos hdepth, h]
    exact ⟨_, (hround nested).trans (bind_error hskip), ⟨rfl, rfl, rfl⟩, rfl⟩
  | @discarded name w hround hdepth =>
    have hskip : skipDiscarded setting nested name w = .error i v.leaveDiscarded := by
      rw [skipDiscarded_eq, if_pos hdepth, h]
    exact ⟨_, (hround nested).trans (bind_error hskip), ⟨rfl, rfl, rfl⟩, rfl⟩

theorem Opens.round_closeAtOnce :
    ∃ t, round setting closeAtOnce frame s = .ok .goOn t ∧ u.SameSource t := by
  have hclose : closeAtOnce inner u = .ok .close u := rfl
  exact hopens.round_ok hclose

theorem Opens.not_const {result : EStateM.Result Interrupt State Flow} :
    ¬∀ nested, round setting nested frame s = result := by
  intro h
  obtain ⟨fails, hfail⟩ : ∃ fails : Frame → Scan Flow,
      fails inner u = .error (.fatal .unterminatedMath) u := ⟨fun _ => fail .unterminatedMath, rfl⟩
  obtain ⟨t, hok, -⟩ := hopens.round_closeAtOnce
  obtain ⟨t', herror, -⟩ := hopens.round_error hfail
  rw [h] at hok herror
  rw [hok] at herror
  cases herror

end Opened

/-! ### Visits -/

/-- The file is scanned from a state: the first one, or one behind a proof. -/
inductive Begins (setting : Setting) (first : State) : State → Prop
  | first : Begins setting first first
  | proofEnd {s t : State} {proof? : Option Proof} (hs : Begins setting first s)
      (h : scan setting .file s = .ok (.proofEnd proof?) t) : Begins setting first t
  | dropped {s t : State} {reason : DropReason} (hs : Begins setting first s)
      (h : scan setting .file s = .error (.drop reason) t) : Begins setting first t.abandonProof

/-- A scan in a frame, with some rounds left, comes to a state before a round of it. -/
inductive Visits (setting : Setting) (first : State) : Nat → Frame → Nat → State → Prop
  | begins {s : State} (hs : Begins setting first s) :
      Visits setting first (rounds setting) .file s.consumed s
  | goOn {fuel : Nat} {frame : Frame} {start : Nat} {s t : State}
      (hs : Visits setting first (fuel + 1) frame start s)
      (hlimit : passedLimit? setting frame start s = none)
      (h : round setting (Scan.inner setting fuel) frame s = .ok .goOn t) :
      Visits setting first fuel frame start t
  | opens {fuel : Nat} {frame inner : Frame} {start : Nat} {s u : State}
      (hs : Visits setting first (fuel + 1) frame start s)
      (hlimit : passedLimit? setting frame start s = none)
      (h : Opens setting frame s inner u) : Visits setting first fuel inner u.consumed u

theorem Begins.nextWithin {first : State} {outcome : Outcome} : ∀ {fuel : Nat} {s t : State},
    Begins setting first s → s.nextWithin setting fuel = (.ok (some outcome), t) →
    Begins setting first t
  | 0, _, _, _, h => by cases h
  | fuel + 1, s, t, hs, h => by
    unfold State.nextWithin at h
    split at h
    · next hscan =>
      cases h
      exact .proofEnd hs hscan
    · next hscan => exact (Begins.proofEnd hs hscan).nextWithin h
    · next hscan => exact absurd hscan (within_ne_goOn _ _ _ _)
    · cases h
    · cases h
    · next hscan =>
      cases h
      exact .dropped hs hscan
    · cases h

theorem Visits.begins_of_drop {first : State} {fuel start : Nat} {reason : DropReason}
    (hs : Visits setting first fuel frame start s)
    (h : within setting fuel frame start s = .error (.drop reason) t) :
    Begins setting first t.abandonProof := by
  induction hs generalizing t with
  | begins hs => exact .dropped hs h
  | goOn hs hlimit hround ih => exact ih ((within_goOn hlimit hround).trans h)
  | @opens fuel frame inner start s u hs hlimit hopens ih =>
    have hspan : Scan.inner setting fuel inner u = .error (.drop reason) t := h
    obtain ⟨v, hround, -, hv⟩ := hopens.round_error hspan
    have hstop : ∀ t, round setting (Scan.inner setting fuel) frame s ≠ .ok .goOn t := by
      intro t ht
      rw [hround] at ht
      cases ht
    have := ih ((within_stop hlimit hstop).trans hround)
    rwa [hv] at this

end Scan

end ProofProse
