import ProofProse.Proofs.Consuming
import ProofProse.Proofs.Depth

/-! # Runs come to an end

`Ends setting frame start s n result` says, without any bound on its length, how a scan runs: in
rounds, some of which hand over to the scan of a span, and with `n` rounds in all that read a token,
those of the scans inside counted. `NextEnds` and `RunEnds` say the same of a search for an outcome
and of a whole run.

A round that reads a token adds to the count of tokens taken, which never goes down, and past the
limit of the file no round is begun; so what is left of the limit (`State.left`) bounds the rounds
that can come (`Ends.bound`), and every scan ends (`exists_ends`). The loops of the model, which are
given a number of rounds, do as the runs without it (`Ends.within_eq`, `RunEnds.history_eq`). -/

namespace ProofProse

/-- The state that a run ended in. -/
def lastState {α : Type} : EStateM.Result Interrupt State α → State
  | .ok _ t => t
  | .error _ t => t

@[simp] theorem lastState_ok {α : Type} (a : α) (t : State) :
    lastState (EStateM.Result.ok a t : EStateM.Result Interrupt State α) = t := rfl

@[simp] theorem lastState_error {α : Type} (i : Interrupt) (t : State) :
    lastState (EStateM.Result.error i t : EStateM.Result Interrupt State α) = t := rfl

namespace State

/-- How many tokens the next round reads before it interprets: one, or none when the tokens have run
out. -/
def reads (s : State) : Nat := if s.stream.ahead = [] then 0 else 1

/-- How many tokens can be taken until the limit of the file has been passed. -/
def left (setting : Setting) (s : State) : Nat := setting.options.fileLimit + 1 - s.consumed

theorem reads_le (s : State) : s.reads ≤ 1 := by
  unfold reads
  split <;> omega

theorem left_lt_rounds (setting : Setting) (s : State) : s.left setting < Scan.rounds setting := by
  unfold left Scan.rounds
  omega

theorem SameSource.left_eq {setting : Setting} {s t : State} (h : s.SameSource t) :
    t.left setting = s.left setting := by
  unfold left State.consumed
  rw [h.1]

end State

namespace Scan

variable {setting : Setting} {frame inner' : Frame} {start n : Nat} {s t u v : State}
  {nested nested' : Frame → Scan Flow} {result : EStateM.Result Interrupt State Flow}

theorem after_eq_lastState {α : Type} (m : Scan α) (s : State) : after m s = lastState (m s) := by
  unfold after
  cases m s <;> rfl

/-! ### What one round reads -/

theorem round_nil (hs : s.stream.ahead = []) :
    round setting nested frame s = endOfStream frame s := by
  unfold round
  rw [bind_ok (next_nil hs)]

/-- A round reads the token that it begins with, and takes no token back from the count. -/
theorem consumed_round (hn : ∀ frame, Along (Course setting) (nested frame)) (frame : Frame)
    (s : State) : s.consumed + s.reads ≤ (after (round setting nested frame) s).consumed := by
  unfold State.reads
  cases hs : s.stream.ahead with
  | nil => exact (course_round hn frame s).consumed_le
  | cons x rest =>
    have hrest := course_interpret hn frame x { s with stream := ⟨rest, s.consumed + 1⟩ }
    have hconsumed := hrest.consumed_le
    unfold round
    rw [after_bind_ok (next_cons hs)]
    exact hconsumed

theorem consumed_of_const (h : ∀ nested, round setting nested frame s = result) :
    s.consumed + s.reads ≤ (lastState result).consumed := by
  have hround := consumed_round (along_closeAtOnce setting) frame s
  rwa [after_eq_lastState, h] at hround

theorem reads_of_goOn (h : round setting nested frame s = .ok .goOn t) : s.reads = 1 := by
  unfold State.reads
  split
  · next hs =>
    rw [round_nil hs] at h
    cases frame <;> cases h
  · rfl

/-! ### Rounds that open a span -/

section Opened

variable (hopens : Opens setting frame s inner' u)

include hopens

theorem Opens.reads : s.reads = 1 := by
  obtain ⟨t, hround, -⟩ := hopens.round_closeAtOnce
  exact reads_of_goOn hround

theorem Opens.consumed : s.consumed + 1 ≤ u.consumed := by
  obtain ⟨t, hround, hsource⟩ := hopens.round_closeAtOnce
  have hconsumed := consumed_round (along_closeAtOnce setting) frame s
  have hstream : t.consumed = u.consumed := congrArg Stream.consumed hsource.1
  rw [after_ok hround, hopens.reads, hstream] at hconsumed
  exact hconsumed

theorem Opens.round_congr (h : nested inner' u = nested' inner' u) :
    round setting nested frame s = round setting nested' frame s := by
  cases hopens with
  | @math _ w hround hdepth =>
    rw [hround nested, hround nested']
    unfold goingOn
    show EStateM.bind _ _ w = EStateM.bind _ _ w
    unfold EStateM.bind
    rw [skipMath_eq, skipMath_eq, h]
  | @discarded name w hround hdepth =>
    rw [hround nested, hround nested']
    unfold goingOn
    show EStateM.bind _ _ w = EStateM.bind _ _ w
    unfold EStateM.bind
    rw [skipDiscarded_eq, skipDiscarded_eq, h]

end Opened

/-! ### Scans -/

/-- The scan of a span comes to a given result. -/
def answering (result : EStateM.Result Interrupt State Flow) : Frame → Scan Flow := fun _ _ => result

theorem answering_eq (result : EStateM.Result Interrupt State Flow) (frame : Frame) (s : State) :
    answering result frame s = result := rfl

/-- A scan in a frame that began at `start` comes from the head of a round to a result, in `n`
rounds that read a token, with those of the scans inside it. -/
inductive Ends (setting : Setting) :
    Frame → Nat → State → Nat → EStateM.Result Interrupt State Flow → Prop
  /-- A limit has been passed. -/
  | limit {frame : Frame} {start : Nat} {s : State} {failure : Failure}
      (h : passedLimit? setting frame start s = some failure) :
      Ends setting frame start s 0 (.error (.fatal failure) s)
  /-- A round ends the scan. -/
  | stop {frame : Frame} {start : Nat} {s : State}
      {result : EStateM.Result Interrupt State Flow}
      (hlimit : passedLimit? setting frame start s = none)
      (h : ∀ nested, round setting nested frame s = result) (hstop : ∀ t, result ≠ .ok .goOn t) :
      Ends setting frame start s s.reads result
  /-- The scan goes on behind a round. -/
  | goOn {frame : Frame} {start n : Nat} {s t : State}
      {result : EStateM.Result Interrupt State Flow}
      (hlimit : passedLimit? setting frame start s = none)
      (h : ∀ nested, round setting nested frame s = .ok .goOn t)
      (hrest : Ends setting frame start t n result) :
      Ends setting frame start s (s.reads + n) result
  /-- The scan goes on behind a span. -/
  | span {frame inner' : Frame} {start n m : Nat} {s t u v : State} {flow : Flow}
      {result : EStateM.Result Interrupt State Flow}
      (hlimit : passedLimit? setting frame start s = none)
      (hopens : Opens setting frame s inner' u)
      (hinner : Ends setting inner' u.consumed u n (.ok flow v))
      (h : round setting (answering (.ok flow v)) frame s = .ok .goOn t)
      (hrest : Ends setting frame start t m result) :
      Ends setting frame start s (s.reads + n + m) result
  /-- The scan of a span is interrupted, and with it the scan around it. -/
  | interrupted {frame inner' : Frame} {start n : Nat} {s t u v : State} {i : Interrupt}
      (hlimit : passedLimit? setting frame start s = none)
      (hopens : Opens setting frame s inner' u)
      (hinner : Ends setting inner' u.consumed u n (.error i v))
      (h : round setting (answering (.error i v)) frame s = .error i t) :
      Ends setting frame start s (s.reads + n) (.error i t)

theorem left_of_goOn (hlimit : passedLimit? setting frame start s = none)
    (h : ∀ nested, round setting nested frame s = .ok .goOn t) :
    s.reads + t.left setting ≤ s.left setting ∧ t.left setting < s.left setting := by
  have hfile := (passedLimit?_eq_none_iff.mp hlimit).1
  have hconsumed : s.consumed + s.reads ≤ t.consumed := consumed_of_const h
  have hreads := reads_of_goOn (h closeAtOnce)
  unfold State.left
  omega

theorem Opens.left (hopens : Opens setting frame s inner' u)
    (hlimit : passedLimit? setting frame start s = none) :
    s.reads + u.left setting ≤ s.left setting ∧ u.left setting < s.left setting := by
  have hfile := (passedLimit?_eq_none_iff.mp hlimit).1
  have hconsumed := hopens.consumed
  have hreads := hopens.reads
  unfold State.left
  omega

/-- The state behind a span is left as far as the scan of the span left it. -/
theorem Opens.left_behind (hopens : Opens setting frame s inner' u) {flow : Flow}
    (h : round setting (answering (.ok flow v)) frame s = .ok .goOn t) :
    t.left setting = v.left setting := by
  obtain ⟨t', ht', hsource⟩ := hopens.round_ok (answering_eq _ _ _)
  rw [h] at ht'
  cases ht'
  exact hsource.left_eq

theorem Opens.left_interrupted (hopens : Opens setting frame s inner' u) {i : Interrupt}
    (h : round setting (answering (.error i v)) frame s = .error i t) :
    t.left setting = v.left setting := by
  obtain ⟨t', ht', hsource, -⟩ := hopens.round_error (answering_eq _ _ _)
  rw [h] at ht'
  cases ht'
  exact hsource.left_eq

/-- **The rounds of a scan** are bounded by what is left of the limit of the file. By induction on
the run: every round that reads a token takes one from what is left. -/
theorem Ends.bound (h : Ends setting frame start s n result) :
    n + (lastState result).left setting ≤ s.left setting := by
  induction h with
  | limit h => exact Nat.le_of_eq (Nat.zero_add _)
  | @stop frame start s result hlimit h hstop =>
    have hfile := (passedLimit?_eq_none_iff.mp hlimit).1
    have hconsumed := consumed_of_const h
    have hreads := s.reads_le
    unfold State.left
    omega
  | goOn hlimit h hrest ih =>
    have hleft := (left_of_goOn hlimit h).1
    omega
  | span hlimit hopens hinner h hrest ih ih' =>
    have hleft := (hopens.left hlimit).1
    have hbehind := hopens.left_behind h
    rw [lastState_ok] at ih
    omega
  | interrupted hlimit hopens hinner h ih =>
    have hleft := (hopens.left hlimit).1
    have hbehind := hopens.left_interrupted h
    rw [lastState_error] at *
    omega

/-- **Every scan ends**, by induction on what is left of the limit of the file. -/
theorem exists_ends (setting : Setting) (frame : Frame) (start : Nat) (s : State) :
    ∃ n result, Ends setting frame start s n result := by
  induction hleft : s.left setting using Nat.strongRecOn generalizing frame start s with
  | ind left ih =>
    cases hlimit : passedLimit? setting frame start s with
    | some failure => exact ⟨_, _, .limit hlimit⟩
    | none =>
      rcases opens_or_const setting frame s with ⟨inner', u, hopens⟩ | ⟨result, hconst⟩
      · have hspan := (hopens.left hlimit).2
        obtain ⟨n, answer, hinner⟩ := ih _ (hleft ▸ hspan) inner' u.consumed u rfl
        have hbound := hinner.bound
        cases answer with
        | ok flow v =>
          obtain ⟨t, ht, hsource⟩ := hopens.round_ok (answering_eq (.ok flow v) _ _)
          have hbehind : t.left setting = v.left setting := hsource.left_eq
          have hv : n + v.left setting ≤ u.left setting := hbound
          obtain ⟨m, result, hrest⟩ := ih (t.left setting) (by omega) frame start t rfl
          exact ⟨_, _, .span hlimit hopens hinner ht hrest⟩
        | error i v =>
          obtain ⟨t, ht, -⟩ := hopens.round_error (answering_eq (.error i v) _ _)
          exact ⟨_, _, .interrupted hlimit hopens hinner ht⟩
      · by_cases hgo : ∃ t, result = .ok .goOn t
        · obtain ⟨t, rfl⟩ := hgo
          have hless := (left_of_goOn hlimit hconst).2
          obtain ⟨n, result, hrest⟩ := ih _ (hleft ▸ hless) frame start t rfl
          exact ⟨_, _, .goOn hlimit hconst hrest⟩
        · exact ⟨_, _, .stop hlimit hconst fun t ht => hgo ⟨t, ht⟩⟩

/-- **The loop does as the scan**: with more rounds than tokens are left it comes to the same
result. -/
theorem Ends.within_eq (h : Ends setting frame start s n result) :
    ∀ fuel, s.left setting < fuel → within setting fuel frame start s = result := by
  induction h with
  | limit h =>
    intro fuel hfuel
    obtain ⟨fuel, rfl⟩ : ∃ k, fuel = k + 1 := ⟨fuel - 1, by omega⟩
    exact within_limit h
  | stop hlimit h hstop =>
    intro fuel hfuel
    obtain ⟨fuel, rfl⟩ : ∃ k, fuel = k + 1 := ⟨fuel - 1, by omega⟩
    rw [within_stop hlimit (by rw [h]; exact hstop), h]
  | goOn hlimit h hrest ih =>
    intro fuel hfuel
    obtain ⟨fuel, rfl⟩ : ∃ k, fuel = k + 1 := ⟨fuel - 1, by omega⟩
    have hless := (left_of_goOn hlimit h).2
    rw [within_goOn hlimit (h _)]
    exact ih fuel (by omega)
  | @span frame inner' start n m s t u v flow result hlimit hopens hinner h hrest ih ih' =>
    intro fuel hfuel
    obtain ⟨fuel, rfl⟩ : ∃ k, fuel = k + 1 := ⟨fuel - 1, by omega⟩
    have hless := (hopens.left hlimit).2
    have hspan : Scan.inner setting fuel inner' u = .ok flow v := ih fuel (by omega)
    have hround : round setting (Scan.inner setting fuel) frame s = .ok .goOn t := by
      exact (hopens.round_congr hspan).trans h
    have hbound : n + v.left setting ≤ u.left setting := hinner.bound
    have hbehind := hopens.left_behind h
    rw [within_goOn hlimit hround]
    exact ih' fuel (by omega)
  | @interrupted frame inner' start n s t u v i hlimit hopens hinner h ih =>
    intro fuel hfuel
    obtain ⟨fuel, rfl⟩ : ∃ k, fuel = k + 1 := ⟨fuel - 1, by omega⟩
    have hless := (hopens.left hlimit).2
    have hspan : Scan.inner setting fuel inner' u = .error i v := ih fuel (by omega)
    have hround : round setting (Scan.inner setting fuel) frame s = .error i t := by
      exact (hopens.round_congr hspan).trans h
    rw [within_stop hlimit (by rw [hround]; nofun), hround]

theorem Ends.scan_eq (h : Ends setting frame s.consumed s n result) :
    scan setting frame s = result :=
  h.within_eq _ (s.left_lt_rounds setting)

theorem Ends.pos (h : Ends setting frame start s n result)
    (hend : (∃ proof t, result = .ok (.proofEnd proof) t) ∨
      ∃ reason t, result = .error (.drop reason) t) : 0 < n := by
  cases h with
  | limit h =>
    rcases hend with ⟨proof, t, hend⟩ | ⟨reason, t, hend⟩
    · cases hend
    · cases hend
  | stop hlimit h hstop =>
    have hround := h closeAtOnce
    unfold State.reads
    split
    · next hs =>
      rw [round_nil hs] at hround
      rcases hend with ⟨proof, t, rfl⟩ | ⟨reason, t, rfl⟩
      · cases frame <;> cases hround
      · cases frame <;> cases hround
    · exact Nat.one_pos
  | goOn hlimit h hrest =>
    have hreads := reads_of_goOn (h closeAtOnce)
    omega
  | span hlimit hopens hinner h hrest =>
    have hreads := hopens.reads
    omega
  | interrupted hlimit hopens hinner h =>
    have hreads := hopens.reads
    omega

end Scan

/-! ### Searches for outcomes -/

open Scan

/-- A search for the next outcome comes to an answer, in `n` rounds that read a token. -/
inductive NextEnds (setting : Setting) :
    State → Nat → Except Failure (Option Outcome) × State → Prop
  | completed {s t : State} {n : Nat} {proof : Proof}
      (h : Ends setting .file s.consumed s n (.ok (.proofEnd (some proof)) t)) :
      NextEnds setting s n (.ok (some (.completed proof)), t)
  | withoutText {s t : State} {n m : Nat} {answer : Except Failure (Option Outcome) × State}
      (h : Ends setting .file s.consumed s n (.ok (.proofEnd none) t))
      (hrest : NextEnds setting t m answer) : NextEnds setting s (n + m) answer
  | closed {s t : State} {n : Nat} (h : Ends setting .file s.consumed s n (.ok .close t)) :
      NextEnds setting s n (.ok none, t.drain)
  | ended {s t : State} {n : Nat} (h : Ends setting .file s.consumed s n (.ok .endDocument t)) :
      NextEnds setting s n (.ok none, t.drain)
  | dropped {s t : State} {n : Nat} {reason : DropReason}
      (h : Ends setting .file s.consumed s n (.error (.drop reason) t)) :
      NextEnds setting s n (.ok (some (.dropped reason)), t.abandonProof)
  | failed {s t : State} {n : Nat} {failure : Failure}
      (h : Ends setting .file s.consumed s n (.error (.fatal failure) t)) :
      NextEnds setting s n (.error failure, t)

/-- A run comes to its history, in `n` rounds that read a token. -/
inductive RunEnds (setting : Setting) : State → Nat → History → Prop
  | outcome {s t : State} {n m : Nat} {outcome : Outcome} {history : History}
      (h : NextEnds setting s n (.ok (some outcome), t)) (hrest : RunEnds setting t m history) :
      RunEnds setting s (n + m) { history with
        steps := ⟨outcome, t.consumed, t.warnings.size, t.includes.toList⟩ :: history.steps }
  | ended {s t : State} {n : Nat} (h : NextEnds setting s n (.ok none, t)) :
      RunEnds setting s n ⟨[], none, t⟩
  | failed {s t : State} {n : Nat} {failure : Failure}
      (h : NextEnds setting s n (.error failure, t)) : RunEnds setting s n ⟨[], some failure, t⟩

section Runs

variable {setting : Setting} {s t : State} {n : Nat} {outcome : Outcome}
  {answer : Except Failure (Option Outcome) × State} {history : History}

theorem left_drain (setting : Setting) (t : State) : t.drain.left setting ≤ t.left setting := by
  have hpassed : t.stream.Passed (fun _ => True) t.drain.stream :=
    Stream.passed_skipWhile (fun _ _ => trivial) t.stream
  have hconsumed : t.consumed ≤ t.drain.consumed := hpassed.consumed_le
  unfold State.left
  omega

theorem left_abandonProof (setting : Setting) (t : State) :
    t.abandonProof.left setting ≤ t.left setting := by
  have hconsumed : t.consumed ≤ t.abandonProof.consumed := Nat.le_add_right _ _
  unfold State.left
  omega

theorem left_of_proofEnd {proof : Option Proof}
    (h : Ends setting .file s.consumed s n (.ok (.proofEnd proof) t)) :
    n + t.left setting ≤ s.left setting ∧ t.left setting < s.left setting := by
  have hbound := h.bound
  have hpos := h.pos (.inl ⟨proof, t, rfl⟩)
  rw [lastState_ok] at hbound
  omega

theorem NextEnds.bound (h : NextEnds setting s n answer) :
    n + answer.2.left setting ≤ s.left setting := by
  induction h with
  | completed h => exact h.bound
  | withoutText h hrest ih =>
    have hleft := (left_of_proofEnd h).1
    omega
  | @closed s t n h =>
    have hbound := h.bound
    have hdrain := left_drain setting t
    rw [lastState_ok] at hbound
    dsimp only
    omega
  | @ended s t n h =>
    have hbound := h.bound
    have hdrain := left_drain setting t
    rw [lastState_ok] at hbound
    dsimp only
    omega
  | @dropped s t n reason h =>
    have hbound := h.bound
    have habandon := left_abandonProof setting t
    rw [lastState_error] at hbound
    dsimp only
    omega
  | failed h => exact h.bound

theorem NextEnds.left_lt (h : NextEnds setting s n (.ok (some outcome), t)) :
    t.left setting < s.left setting := by
  generalize hanswer : (Except.ok (some outcome), t) = answer at h
  induction h generalizing outcome t with
  | completed h =>
    cases hanswer
    exact (left_of_proofEnd h).2
  | withoutText h hrest ih =>
    have hrest := ih hanswer
    have hleft := (left_of_proofEnd h).2
    omega
  | closed h => cases hanswer
  | ended h => cases hanswer
  | @dropped s u n reason h =>
    cases hanswer
    have hbound := h.bound
    have hpos := h.pos (.inr ⟨reason, u, rfl⟩)
    have habandon := left_abandonProof setting u
    rw [lastState_error] at hbound
    omega
  | failed h => cases hanswer

theorem exists_nextEnds (setting : Setting) (s : State) :
    ∃ n answer, NextEnds setting s n answer := by
  induction hleft : s.left setting using Nat.strongRecOn generalizing s with
  | ind left ih =>
    obtain ⟨n, result, h⟩ := exists_ends setting .file s.consumed s
    cases result with
    | ok flow t =>
      cases flow with
      | goOn =>
        have hloop := h.scan_eq
        exact absurd hloop (within_ne_goOn _ _ _ _)
      | close => exact ⟨_, _, .closed h⟩
      | endDocument => exact ⟨_, _, .ended h⟩
      | proofEnd proof =>
        cases proof with
        | none =>
          have hless := (left_of_proofEnd h).2
          obtain ⟨m, answer, hrest⟩ := ih _ (hleft ▸ hless) t rfl
          exact ⟨_, _, .withoutText h hrest⟩
        | some proof => exact ⟨_, _, .completed h⟩
    | error i t =>
      cases i with
      | drop reason => exact ⟨_, _, .dropped h⟩
      | fatal failure => exact ⟨_, _, .failed h⟩

theorem NextEnds.nextWithin_eq (h : NextEnds setting s n answer) :
    ∀ fuel, s.left setting < fuel → s.nextWithin setting fuel = answer := by
  induction h with
  | withoutText h hrest ih =>
    intro fuel hfuel
    obtain ⟨fuel, rfl⟩ : ∃ k, fuel = k + 1 := ⟨fuel - 1, by omega⟩
    have hless := (left_of_proofEnd h).2
    unfold State.nextWithin
    rw [h.scan_eq]
    exact ih fuel (by omega)
  | completed h =>
    intro fuel hfuel
    obtain ⟨fuel, rfl⟩ : ∃ k, fuel = k + 1 := ⟨fuel - 1, by omega⟩
    unfold State.nextWithin
    rw [h.scan_eq]
  | closed h =>
    intro fuel hfuel
    obtain ⟨fuel, rfl⟩ : ∃ k, fuel = k + 1 := ⟨fuel - 1, by omega⟩
    unfold State.nextWithin
    rw [h.scan_eq]
  | ended h =>
    intro fuel hfuel
    obtain ⟨fuel, rfl⟩ : ∃ k, fuel = k + 1 := ⟨fuel - 1, by omega⟩
    unfold State.nextWithin
    rw [h.scan_eq]
  | dropped h =>
    intro fuel hfuel
    obtain ⟨fuel, rfl⟩ : ∃ k, fuel = k + 1 := ⟨fuel - 1, by omega⟩
    unfold State.nextWithin
    rw [h.scan_eq]
  | failed h =>
    intro fuel hfuel
    obtain ⟨fuel, rfl⟩ : ∃ k, fuel = k + 1 := ⟨fuel - 1, by omega⟩
    unfold State.nextWithin
    rw [h.scan_eq]

theorem NextEnds.nextOutcome_eq (h : NextEnds setting s n answer) :
    s.nextOutcome setting = answer :=
  h.nextWithin_eq _ (s.left_lt_rounds setting)

/-! ### Runs -/

/-- **The rounds of a run**, over all its scans, are bounded by what is left of the limit. -/
theorem RunEnds.bound (h : RunEnds setting s n history) : n ≤ s.left setting := by
  induction h with
  | outcome h hrest ih =>
    have hbound := h.bound
    dsimp only at hbound
    omega
  | ended h =>
    have hbound := h.bound
    omega
  | failed h =>
    have hbound := h.bound
    omega

/-- **Every run ends.** -/
theorem exists_runEnds (setting : Setting) (s : State) : ∃ n history, RunEnds setting s n history := by
  induction hleft : s.left setting using Nat.strongRecOn generalizing s with
  | ind left ih =>
    obtain ⟨n, ⟨result, t⟩, h⟩ := exists_nextEnds setting s
    cases result with
    | error failure => exact ⟨_, _, .failed h⟩
    | ok outcome? =>
      cases outcome? with
      | none => exact ⟨_, _, .ended h⟩
      | some outcome =>
        have hless := h.left_lt
        obtain ⟨m, history, hrest⟩ := ih _ (hleft ▸ hless) t rfl
        exact ⟨_, _, .outcome h hrest⟩

/-- The loop over outcomes does as the run; it holds the steps before it in reverse. -/
theorem RunEnds.historyWithin_eq (h : RunEnds setting s n history) :
    ∀ fuel steps, s.left setting < fuel → s.historyWithin setting steps fuel =
      { history with steps := steps.reverse ++ history.steps } := by
  induction h with
  | outcome h hrest ih =>
    intro fuel steps hfuel
    obtain ⟨fuel, rfl⟩ : ∃ k, fuel = k + 1 := ⟨fuel - 1, by omega⟩
    have hless := h.left_lt
    unfold State.historyWithin
    rw [h.nextOutcome_eq]
    dsimp only
    rw [ih fuel _ (by omega)]
    simp
  | ended h =>
    intro fuel steps hfuel
    obtain ⟨fuel, rfl⟩ : ∃ k, fuel = k + 1 := ⟨fuel - 1, by omega⟩
    unfold State.historyWithin
    rw [h.nextOutcome_eq]
    simp
  | failed h =>
    intro fuel steps hfuel
    obtain ⟨fuel, rfl⟩ : ∃ k, fuel = k + 1 := ⟨fuel - 1, by omega⟩
    unfold State.historyWithin
    rw [h.nextOutcome_eq]
    simp

theorem RunEnds.history_eq (h : RunEnds setting s n history) : s.history setting = history := by
  have hloop := h.historyWithin_eq _ [] (s.left_lt_rounds setting)
  rwa [List.reverse_nil, List.nil_append] at hloop

end Runs

/-- **Every run comes to an end.** The run of a source comes to its history, whatever the source
defines and includes; however it is run, it is this history, and the rounds that read a token, in
all scans of the run together, are at most one more than the limit of the file. The same holds of
each scan by itself, in any frame and from any state. All other loops only consume what is ahead of
them when they begin. -/
theorem runs_come_to_an_end (setting : Setting) (source path : String) :
    (∃ n, RunEnds setting (.ofSource setting source path) n
      ((State.ofSource setting source path).history setting)) ∧
    (∀ n history, RunEnds setting (.ofSource setting source path) n history →
      history = (State.ofSource setting source path).history setting ∧
        n ≤ setting.options.fileLimit + 1) ∧
    (∀ frame s, ∃ n, Ends setting frame s.consumed s n (scan setting frame s) ∧
      n ≤ setting.options.fileLimit + 1) ∧
    LoopsOnlyConsume := by
  have hleft : ∀ s : State, s.left setting ≤ setting.options.fileLimit + 1 :=
    fun s => Nat.sub_le _ _
  refine ⟨?_, fun n history h => ⟨h.history_eq.symm, Nat.le_trans h.bound (hleft _)⟩,
    fun frame s => ?_, loopsOnlyConsume⟩
  · obtain ⟨n, history, h⟩ := exists_runEnds setting (.ofSource setting source path)
    rw [h.history_eq]
    exact ⟨n, h⟩
  · obtain ⟨n, result, h⟩ := exists_ends setting frame s.consumed s
    have hbound := h.bound
    have hfile := hleft s
    rw [h.scan_eq]
    exact ⟨n, h, by omega⟩

end ProofProse
