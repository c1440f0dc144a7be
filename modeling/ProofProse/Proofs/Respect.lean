import ProofProse.Proofs.Computation
import ProofProse.Scan.Argument

/-! # Computations that respect a relation

Two runs of a computation, from related states, are compared. The computation respects the relation
(`Respects`) when both runs return the same, or are interrupted in the same way, in states that are
related again. Every way to build a computation keeps this. With it goes what can interrupt a run
(`Interrupt.Allowed`), which is seen from one run as well, the relation being equality or more: a
proof is dropped only where one is open, and nothing but a scan runs into the limit of the file.

Reading and defining look at four things only: the stream, the dictionary, the files and whether a
proof is open. A relation that says that these are the same, and goes on to hold when the first
three change in both states alike and when both are warned, is `Indifferent`. -/

namespace ProofProse

/-- What may interrupt a run, inside a proof or outside; the limit of the file may only if `limits`
says so. -/
def Interrupt.Allowed (limits : Prop) (inProof : Bool) : Interrupt → Prop
  | drop _ => inProof = true
  | fatal (.tokenBudgetExceeded _) => limits
  | fatal _ => True

theorem Interrupt.allowed_fatal (inProof : Bool) (failure : Failure) :
    (fatal failure).Allowed True inProof := by
  cases failure <;> exact trivial

/-- A relation between states that agree in what is read and defined, and that is kept when both
read or define the same. -/
structure Indifferent (R : State → State → Prop) : Prop where
  stream : ∀ {s t}, R s t → t.stream = s.stream
  dictionary : ∀ {s t}, R s t → t.dictionary = s.dictionary
  includes : ∀ {s t}, R s t → t.includes = s.includes
  inProof : ∀ {s t}, R s t → t.inProof = s.inProof
  read : ∀ {s t}, R s t → ∀ stream includes,
    R { s with stream := stream, includes := includes } { t with stream := stream, includes := includes }
  define : ∀ {s t}, R s t → ∀ dictionary,
    R { s with dictionary := dictionary } { t with dictionary := dictionary }
  warn : ∀ {s t}, R s t → ∀ warning, R (s.warn warning) (t.warn warning)

theorem Indifferent.setStream {R : State → State → Prop} (hR : Indifferent R) {s t : State}
    (h : R s t) (stream : Stream) : R { s with stream := stream } { t with stream := stream } := by
  have hread := hR.read h stream s.includes
  have ht : { t with stream := stream, includes := s.includes } = { t with stream := stream } := by
    rw [← hR.includes h]
  rwa [ht] at hread

namespace Scan

variable {α β : Type} {limits : Prop} {R : State → State → Prop}

/-- Two runs end alike, in related states, and are interrupted by what may interrupt them only. -/
def Matches (limits : Prop) (R : State → State → Prop) :
    EStateM.Result Interrupt State α → EStateM.Result Interrupt State α → Prop
  | .ok a s, .ok b t => b = a ∧ R s t
  | .error i s, .error j t => j = i ∧ R s t ∧ i.Allowed limits s.inProof
  | _, _ => False

/-- From related states a computation ends alike. -/
def Respects (limits : Prop) (R : State → State → Prop) (m : Scan α) : Prop :=
  ∀ s t, R s t → Matches limits R (m s) (m t)

theorem Matches.cases {x y : EStateM.Result Interrupt State α} (h : Matches limits R x y) :
    (∃ a s t, x = .ok a s ∧ y = .ok a t ∧ R s t) ∨
    ∃ i s t, x = .error i s ∧ y = .error i t ∧ R s t ∧ i.Allowed limits s.inProof := by
  cases x with
  | ok a s =>
    cases y with
    | ok b t =>
      obtain ⟨rfl, hR⟩ := h
      exact .inl ⟨b, s, t, rfl, rfl, hR⟩
    | error j t => exact h.elim
  | error i s =>
    cases y with
    | ok b t => exact h.elim
    | error j t =>
      obtain ⟨rfl, hR, hallowed⟩ := h
      exact .inr ⟨j, s, t, rfl, rfl, hR, hallowed⟩

/-! ### Composed computations -/

theorem respects_pure (a : α) : Respects limits R (pure a) := fun _ _ h => ⟨rfl, h⟩

theorem respects_fail {failure : Failure}
    (h : ∀ inProof, (Interrupt.fatal failure).Allowed limits inProof) :
    Respects limits R (fail failure : Scan α) :=
  fun s _ hR => ⟨rfl, hR, h s.inProof⟩

theorem Matches.bind {m : Scan α} {f : α → Scan β} {s t : State} (hm : Matches limits R (m s) (m t))
    (hf : ∀ a u v, m s = .ok a u → m t = .ok a v → R u v → Matches limits R (f a u) (f a v)) :
    Matches limits R ((m >>= f) s) ((m >>= f) t) := by
  rcases hm.cases with ⟨a, u, v, hs, ht, hR⟩ | ⟨i, u, v, hs, ht, hR, hallowed⟩
  · rw [bind_ok hs, bind_ok ht]
    exact hf a u v hs ht hR
  · rw [bind_error hs, bind_error ht]
    exact ⟨rfl, hR, hallowed⟩

theorem Respects.bind {m : Scan α} {f : α → Scan β} (hm : Respects limits R m)
    (hf : ∀ a, Respects limits R (f a)) : Respects limits R (m >>= f) :=
  fun s t h => (hm s t h).bind fun a u v _ _ hR => hf a u v hR

theorem Respects.discard {m : Scan α} (hm : Respects limits R m) :
    Respects limits R (discard m : Scan Unit) := by
  intro s t h
  rcases (hm s t h).cases with ⟨a, u, v, hs, ht, hR⟩ | ⟨i, u, v, hs, ht, hR, hallowed⟩
  · rw [discard_ok hs, discard_ok ht]
    exact ⟨rfl, hR⟩
  · rw [discard_error hs, discard_error ht]
    exact ⟨rfl, hR, hallowed⟩

theorem respects_modify {f : State → State} (h : ∀ s t, R s t → R (f s) (f t)) :
    Respects limits R (modify f) :=
  fun s t hR => ⟨rfl, h s t hR⟩

/-- The state at hand may be looked at where related states do not differ. -/
theorem respects_get_bind {f : State → Scan α} (hread : ∀ s t, R s t → f t = f s)
    (hf : ∀ s, Respects limits R (f s)) : Respects limits R (get >>= f) := by
  intro s t h
  show Matches limits R (f s s) (f t t)
  rw [hread s t h]
  exact hf s s t h

theorem respects_forM {f : β → Scan Unit} (h : ∀ b, Respects limits R (f b)) :
    ∀ bs : List β, Respects limits R (bs.forM f)
  | [] => respects_pure ()
  | b :: bs => (h b).bind fun _ => respects_forM h bs

/-! ### Tokens -/

section Tokens

variable (hR : Indifferent R)

include hR

theorem respects_onStream (f : Stream → Stream) : Respects limits R (onStream f) := by
  refine respects_modify fun s t h => ?_
  rw [hR.stream h]
  exact hR.setStream h _

theorem respects_pushBack (tokens : List Token) : Respects limits R (pushBack tokens) :=
  respects_onStream hR _

theorem respects_pushBackOne (token : Token) : Respects limits R (pushBackOne token) :=
  respects_onStream hR _

theorem respects_next : Respects limits R next := by
  intro s t h
  have hstream := hR.stream h
  unfold next
  rw [hstream]
  cases s.stream.next? with
  | none => exact ⟨rfl, h⟩
  | some taken => exact ⟨rfl, hR.setStream h taken.2⟩

theorem respects_peek : Respects limits R peek := by
  intro s t h
  refine ⟨?_, h⟩
  rw [hR.stream h]

theorem respects_take {read : State → List Token → Reading α}
    (hread : ∀ s t, R s t → read t = read s) : Respects limits R (take read) := by
  intro s t h
  rw [take_ok, take_ok, hread s t h, hR.stream h, hR.includes h]
  exact ⟨rfl, hR.read h _ _⟩

theorem respects_warn (warning : Warning) : Respects limits R (warn warning) :=
  respects_modify fun _ _ h => hR.warn h warning

theorem respects_onDictionary (f : Dictionary → Dictionary) : Respects limits R (onDictionary f) := by
  refine respects_modify fun s t h => ?_
  rw [hR.dictionary h]
  exact hR.define h _

theorem respects_endOfTokens (context : String) :
    Respects limits R (endOfTokens context : Scan α) := by
  intro s t h
  unfold endOfTokens State.endInterrupt
  rw [hR.inProof h]
  refine ⟨rfl, h, ?_⟩
  cases s.inProof with
  | true => exact rfl
  | false => exact trivial

end Tokens

end Scan

end ProofProse
