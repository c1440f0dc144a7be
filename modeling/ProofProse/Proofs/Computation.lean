import ProofProse.Scan.State

/-! # Reasoning about computations

What a computation does to the state is described by a relation between states. `Along R m` says
that every run of `m`, finished or interrupted, leads from a state to a related one; for a relation
that holds of a state and itself and goes on behind itself (`Steady`) this is kept by all ways to
build a computation (`Along.bind`). `Yields Q m` says that whatever `m` returns satisfies `Q`. -/

namespace ProofProse

/-- A relation that holds of a state and itself, and goes on behind itself. -/
structure Steady (R : State → State → Prop) : Prop where
  refl : ∀ s, R s s
  trans : ∀ {s t u}, R s t → R t u → R s u

namespace Scan

variable {α β : Type} {R R' : State → State → Prop} {Q : α → Prop} {Q' : β → Prop}

/-- The state that a computation ends in, finished or interrupted. -/
def after (m : Scan α) (s : State) : State :=
  match m s with
  | .ok _ t => t
  | .error _ t => t

/-- Every run of a computation leads from a state to a related one. -/
def Along (R : State → State → Prop) (m : Scan α) : Prop := ∀ s, R s (after m s)

/-- Everything that a computation returns satisfies `Q`. -/
def Yields (Q : α → Prop) (m : Scan α) : Prop := ∀ s a t, m s = .ok a t → Q a

/-! ### Runs of composed computations -/

theorem bind_ok {m : Scan α} {f : α → Scan β} {s t : State} {a : α} (h : m s = .ok a t) :
    (m >>= f) s = f a t := by
  show EStateM.bind m f s = f a t
  unfold EStateM.bind
  rw [h]

theorem bind_error {m : Scan α} {f : α → Scan β} {s t : State} {i : Interrupt}
    (h : m s = .error i t) : (m >>= f) s = .error i t := by
  show EStateM.bind m f s = .error i t
  unfold EStateM.bind
  rw [h]

theorem take_ok (read : State → List Token → Reading α) (s : State) :
    take read s = .ok (read s s.stream.ahead).result
      { s with
        stream := s.stream.behind (read s s.stream.ahead)
        includes := s.includes.leave (read s s.stream.ahead).fileEnds } := rfl

theorem take_of_eq (read : State → List Token → Reading α) (s : State) {reading : Reading α}
    (h : read s s.stream.ahead = reading) :
    take read s = .ok reading.result
      { s with
        stream := s.stream.behind reading
        includes := s.includes.leave reading.fileEnds } := by
  rw [take_ok, h]

theorem next_nil {s : State} (hs : s.stream.ahead = []) : next s = .ok none s := by
  unfold next Stream.next?; rw [hs]

theorem next_cons {s : State} {t : Token} {rest : List Token} (hs : s.stream.ahead = t :: rest) :
    next s = .ok (some t) { s with stream := ⟨rest, s.consumed + 1⟩ } := by
  unfold next Stream.next?; rw [hs]; rfl

theorem onStream_ok {f : Stream → Stream} {s : State} (h : f s.stream = s.stream) :
    onStream f s = .ok () s := by
  show EStateM.Result.ok () { s with stream := f s.stream } = .ok () s
  rw [h]

theorem after_ok {m : Scan α} {s t : State} {a : α} (h : m s = .ok a t) : after m s = t := by
  unfold after; rw [h]

theorem after_error {m : Scan α} {s t : State} {i : Interrupt} (h : m s = .error i t) :
    after m s = t := by
  unfold after; rw [h]

theorem discard_ok {m : Scan α} {s t : State} {a : α} (h : m s = .ok a t) :
    (discard m : Scan Unit) s = .ok () t := by
  show EStateM.map (Function.const _ ()) m s = .ok () t
  unfold EStateM.map
  rw [h]

theorem discard_error {m : Scan α} {s t : State} {i : Interrupt} (h : m s = .error i t) :
    (discard m : Scan Unit) s = .error i t := by
  show EStateM.map (Function.const _ ()) m s = .error i t
  unfold EStateM.map
  rw [h]

theorem after_bind_ok {m : Scan α} {f : α → Scan β} {s t : State} {a : α} (h : m s = .ok a t) :
    after (m >>= f) s = after (f a) t := by
  unfold after; rw [bind_ok h]

theorem after_bind_error {m : Scan α} {f : α → Scan β} {s t : State} {i : Interrupt}
    (h : m s = .error i t) : after (m >>= f) s = t :=
  after_error (bind_error h)

/-! ### Relations along a computation -/

theorem Along.mono (hR : ∀ s t, R s t → R' s t) {m : Scan α} (h : Along R m) : Along R' m :=
  fun s => hR s _ (h s)

theorem Along.ok {m : Scan α} (h : Along R m) {s t : State} {a : α} (hm : m s = .ok a t) :
    R s t := by
  have := h s
  rwa [after_ok hm] at this

theorem Along.error {m : Scan α} (h : Along R m) {s t : State} {i : Interrupt}
    (hm : m s = .error i t) : R s t := by
  have := h s
  rwa [after_error hm] at this

theorem along_pure (hR : Steady R) (a : α) : Along R (pure a) := fun s => hR.refl s

theorem along_fail (hR : Steady R) (failure : Failure) : Along R (fail failure : Scan α) :=
  fun s => hR.refl s

theorem along_drop (hR : Steady R) (reason : DropReason) : Along R (drop reason : Scan α) :=
  fun s => hR.refl s

theorem along_endOfTokens (hR : Steady R) (context : String) :
    Along R (endOfTokens context : Scan α) :=
  fun s => hR.refl s

theorem along_peek (hR : Steady R) : Along R peek := fun s => hR.refl s

theorem along_modify {f : State → State} (h : ∀ s, R s (f s)) : Along R (modify f) := h

theorem Along.bind_of_yields (hR : Steady R) {m : Scan α} {f : α → Scan β} (hm : Along R m)
    (hy : Yields Q m) (hf : ∀ a, Q a → Along R (f a)) : Along R (m >>= f) := by
  intro s
  have hms := hm s
  cases h : m s with
  | ok a t =>
    rw [after_ok h] at hms
    rw [after_bind_ok h]
    exact hR.trans hms (hf a (hy s a t h) t)
  | error i t =>
    rw [after_error h] at hms
    rw [after_bind_error h]
    exact hms

theorem Along.bind (hR : Steady R) {m : Scan α} {f : α → Scan β} (hm : Along R m)
    (hf : ∀ a, Along R (f a)) : Along R (m >>= f) :=
  Along.bind_of_yields hR (Q := fun _ => True) hm (fun _ _ _ _ => trivial) fun a _ => hf a

theorem Along.discard {m : Scan α} (hm : Along R m) : Along R (discard m) := by
  intro s
  have hms := hm s
  cases h : m s with
  | ok a t =>
    rw [after_ok h] at hms
    rw [after_ok (discard_ok h)]
    exact hms
  | error i t =>
    rw [after_error h] at hms
    rw [after_error (discard_error h)]
    exact hms

theorem Along.andAlways (hR : Steady R) {m : Scan α} {leave : State → State} (hm : Along R m)
    (hleave : ∀ s, R s (leave s)) : Along R (andAlways m leave) := by
  intro s
  have hms := hm s
  unfold after Scan.andAlways at *
  cases h : m s with
  | ok a t =>
    rw [h] at hms
    exact hR.trans hms (hleave t)
  | error i t =>
    rw [h] at hms
    exact hR.trans hms (hleave t)

theorem after_get_bind {f : State → Scan α} {s : State} : after (get >>= f) s = after (f s) s := rfl

theorem along_get_bind {f : State → Scan α} (h : ∀ s, R s (after (f s) s)) :
    Along R (get >>= f) := h

/-- The state at hand may be looked at, without the answer being used to bound the run. -/
theorem along_get_bind_of_forall {f : State → Scan α} (h : ∀ s, Along R (f s)) :
    Along R (get >>= f) := fun s => h s s

theorem along_forM (hR : Steady R) {f : β → Scan Unit} (h : ∀ b, Along R (f b)) :
    ∀ bs : List β, Along R (bs.forM f)
  | [] => along_pure hR ()
  | b :: bs => (h b).bind hR fun _ => along_forM hR h bs

/-! ### What computations return -/

theorem yields_pure {a : α} (h : Q a) : Yields Q (pure a) := by
  intro s b t hb
  cases hb
  exact h

theorem yields_endOfTokens (context : String) : Yields Q (endOfTokens context) := by
  intro s a t h
  cases h

theorem Yields.bind {m : Scan α} {f : α → Scan β} (hm : Yields Q m)
    (hf : ∀ a, Q a → Yields Q' (f a)) : Yields Q' (m >>= f) := by
  intro s b u hb
  cases h : m s with
  | ok a t => exact hf a (hm s a t h) t b u (by rwa [bind_ok h] at hb)
  | error i t => rw [bind_error h] at hb; cases hb

theorem yields_bind {m : Scan α} {f : α → Scan β} (hf : ∀ a, Yields Q' (f a)) :
    Yields Q' (m >>= f) :=
  Yields.bind (Q := fun _ => True) (fun _ _ _ _ => trivial) fun a _ => hf a

end Scan

end ProofProse
