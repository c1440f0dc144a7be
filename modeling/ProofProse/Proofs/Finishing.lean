import ProofProse.Proofs.Ending
import ProofProse.Proofs.Respect.Round

/-! # Scans that end by themselves, and scans that do not

Every scan ends, but some end only because a limit stops them. `State.EndsBy library n s` says that
the scan of the file from `s` takes at most `n` tokens more, whatever the options are, and meets the
limit of the file only where fewer are left; `State.RunsOut library s` says that the limit is what
ends the scan, however large it is.

A scan ends by itself when each round leads to a state from which it does (`finishes_of_const`): a
round by itself never meets the limit of the file (`round_ne_tokenBudgetExceeded`), so this is left
to the head of a round. A scan runs out when some property of states is enough for a round to go on,
and is kept by the round (`runsOut_of_invariant`). -/

namespace ProofProse

open Scan

/-- A scan took no more tokens than up to `most`, and met the limit of the file only below. -/
def Scan.TakesUpTo (options : Options) (most : Nat) (result : EStateM.Result Interrupt State Flow) :
    Prop :=
  (lastState result).consumed ≤ most ∧
    (most ≤ options.fileLimit → ∀ limit t, result ≠ .error (.fatal (.tokenBudgetExceeded limit)) t)

namespace State

/-- The scan of the file ends by itself with at most `n` tokens more, whatever the options are. -/
def EndsBy (library : Library) (n : Nat) (s : State) : Prop :=
  ∀ options, TakesUpTo options (s.consumed + n) (scan ⟨options, library⟩ .file s)

/-- The scan of the file is ended by the limit of the file, whatever the options are; in an open
proof, if the limit of the proof is not the lower one. -/
def RunsOut (library : Library) (s : State) : Prop :=
  ∀ options : Options, (s.inProof = true → options.fileLimit ≤ options.environmentLimit) →
    ∃ t, scan ⟨options, library⟩ .file s =
      .error (.fatal (.tokenBudgetExceeded options.fileLimit)) t

/-- The same as `EndsBy`, of the runs without a bound on their length. -/
def Finishes (library : Library) (n : Nat) (s : State) : Prop :=
  ∀ options start k result, Ends ⟨options, library⟩ .file start s k result →
    TakesUpTo options (s.consumed + n) result

variable {library : Library} {n : Nat} {s : State}

theorem Finishes.endsBy (h : s.Finishes library n) : s.EndsBy library n := by
  intro options
  obtain ⟨k, result, hends⟩ := exists_ends ⟨options, library⟩ .file s.consumed s
  rw [hends.scan_eq]
  exact h options s.consumed k result hends

theorem Finishes.mono {m : Nat} (h : s.Finishes library n) (hnm : n ≤ m) :
    s.Finishes library m := by
  intro options start k result hends
  obtain ⟨hconsumed, hbudget⟩ := h options start k result hends
  exact ⟨by omega, fun hlimit => hbudget (by omega)⟩

end State

namespace Scan

variable {options : Options} {library : Library} {setting : Setting} {frame : Frame}
  {n start most most' : Nat} {s t : State} {result : EStateM.Result Interrupt State Flow}

theorem TakesUpTo.mono (h : TakesUpTo options most result) (hmost : most ≤ most') :
    TakesUpTo options most' result := by
  obtain ⟨hconsumed, hbudget⟩ := h
  exact ⟨by omega, fun hlimit => hbudget (by omega)⟩

/-! ### The limit of the file -/

/-- The limit of the file is met at the head of a round where it has been passed. -/
theorem lt_consumed_of_passedLimit? {limit : Nat}
    (h : passedLimit? setting frame start s = some (.tokenBudgetExceeded limit)) :
    setting.options.fileLimit < s.consumed := by
  unfold passedLimit? at h
  dsimp only at h
  split at h
  · next hfile => exact hfile
  split at h
  · cases frame <;> cases h
  split at h
  · cases h
  · cases h

/-- In the frame of the file nothing else is met, unless a proof is open that may not be as long. -/
theorem passedLimit?_file {failure : Failure}
    (hproof : s.inProof = true → setting.options.fileLimit ≤ setting.options.environmentLimit)
    (h : passedLimit? setting .file start s = some failure) :
    failure = .tokenBudgetExceeded setting.options.fileLimit := by
  unfold passedLimit? at h
  dsimp only at h
  split at h
  · exact (Option.some.inj h).symm
  next hfile =>
  have hframe : (Frame.limit? setting.options .file).filter (s.consumed - start > ·) = none := rfl
  rw [hframe] at h
  dsimp only at h
  split at h
  · next hover =>
    rw [Bool.and_eq_true, decide_eq_true_iff] at hover
    obtain ⟨hin, hlong⟩ := hover
    have hlimits := hproof hin
    omega
  · cases h

theorem takesUpTo_limit {failure : Failure}
    (h : passedLimit? ⟨options, library⟩ frame start s = some failure) (hmost : s.consumed ≤ most) :
    TakesUpTo options most (.error (.fatal failure) s) := by
  refine ⟨hmost, fun hlimit limit t ht => ?_⟩
  obtain rfl : failure = .tokenBudgetExceeded limit := by
    cases ht
    rfl
  have hpassed := lt_consumed_of_passedLimit? h
  dsimp only at hpassed
  omega

/-- **A round** by itself does not meet the limit of the file, since the scan of a span does not. -/
theorem round_ne_tokenBudgetExceeded (limit : Nat) :
    round setting closeAtOnce frame s ≠ .error (.fatal (.tokenBudgetExceeded limit)) t := by
  intro h
  have hround : Matches False (State.Alike s.warnings.toList s.warnings.toList)
      (round setting closeAtOnce frame s) (round setting closeAtOnce frame s) :=
    respects_round (fun _ => respects_pure _) (along_closeAtOnce setting) frame s s (.refl s)
  rw [h] at hround
  exact hround.2.2

theorem takesUpTo_stop (h : ∀ nested, round ⟨options, library⟩ nested frame s = result)
    (hmost : (lastState result).consumed ≤ most) : TakesUpTo options most result := by
  refine ⟨hmost, fun _ limit t ht => ?_⟩
  have hround := (h closeAtOnce).trans ht
  exact round_ne_tokenBudgetExceeded limit hround

/-! ### Scans that end by themselves -/

/-- **A step** of a scan that ends by itself: a round that opens no span, and leads to a state from
which the scan ends by itself. -/
theorem finishes_of_const
    (hconst : ∀ options, ∃ result, ∀ nested, round ⟨options, library⟩ nested .file s = result)
    (h : ∀ options, ∃ m, (after (round ⟨options, library⟩ closeAtOnce .file) s).Finishes library m ∧
      (after (round ⟨options, library⟩ closeAtOnce .file) s).consumed + m ≤ s.consumed + n) :
    s.Finishes library n := by
  intro options start k result hends
  obtain ⟨answer, hanswer⟩ := hconst options
  obtain ⟨m, hfinishes, hmost⟩ := h options
  rw [after_eq_lastState, hanswer] at hfinishes hmost
  cases hends with
  | limit h => exact takesUpTo_limit h (Nat.le_add_right _ _)
  | stop hlimit h hstop =>
    obtain rfl : answer = result := (hanswer closeAtOnce).symm.trans (h closeAtOnce)
    exact takesUpTo_stop h (by omega)
  | goOn hlimit h hrest =>
    obtain rfl := (hanswer closeAtOnce).symm.trans (h closeAtOnce)
    rw [lastState_ok] at hfinishes hmost
    exact (hfinishes options start _ result hrest).mono hmost
  | span hlimit hopens hinner h hrest => exact absurd hanswer hopens.not_const
  | interrupted hlimit hopens hinner h => exact absurd hanswer hopens.not_const

theorem finishes_goOn {n : Nat} (h : ∀ setting nested, round setting nested .file s = .ok .goOn t)
    (hcount : t.consumed = s.consumed + 1) (ht : t.Finishes library n) :
    s.Finishes library (n + 1) := by
  refine finishes_of_const (fun options => ⟨_, h ⟨options, library⟩⟩) fun options => ?_
  rw [after_ok (h ⟨options, library⟩ closeAtOnce)]
  exact ⟨n, ht, by omega⟩

theorem ends_nil {k : Nat} (hs : s.stream.ahead = [])
    (h : Ends setting frame start s k result) :
    (∃ failure, passedLimit? setting frame start s = some failure ∧
      result = .error (.fatal failure) s) ∨ result = endOfStream frame s := by
  have hreads : s.reads = 0 := if_pos hs
  cases h with
  | limit h => exact .inl ⟨_, h, rfl⟩
  | stop hlimit h hstop => exact .inr ((h closeAtOnce).symm.trans (round_nil hs))
  | goOn hlimit h hrest =>
    have hread := reads_of_goOn (h closeAtOnce)
    omega
  | span hlimit hopens hinner h hrest =>
    have hread := hopens.reads
    omega
  | interrupted hlimit hopens hinner h =>
    have hread := hopens.reads
    omega

theorem takesUpTo_nil {k : Nat} (hs : s.stream.ahead = [])
    (h : Ends ⟨options, library⟩ frame start s k result) :
    (lastState result).stream = s.stream ∧ TakesUpTo options s.consumed result := by
  rcases ends_nil hs h with ⟨failure, hpassed, rfl⟩ | rfl
  · exact ⟨rfl, takesUpTo_limit hpassed (Nat.le_refl _)⟩
  · cases frame with
    | file => exact ⟨rfl, Nat.le_refl _, fun _ limit t ht => by cases ht⟩
    | _ => exact ⟨rfl, Nat.le_refl _, fun _ limit t ht => by cases ht⟩

theorem finishes_nil (hs : s.stream.ahead = []) : s.Finishes library 0 :=
  fun _ _ _ _ hends => (takesUpTo_nil hs hends).2

/-- **The last token.** A round that takes one token, and goes on only where nothing is ahead then,
is the last one; a span that it opens ends at once. -/
theorem finishes_one
    (hconsumed : ∀ options,
      (after (round ⟨options, library⟩ closeAtOnce .file) s).consumed = s.consumed + 1)
    (hahead : ∀ options t,
      round ⟨options, library⟩ closeAtOnce .file s = .ok .goOn t → t.stream.ahead = []) :
    s.Finishes library 1 := by
  intro options start k result hends
  have hround := hconsumed options
  have hspan : ∀ {inner' u}, Opens ⟨options, library⟩ .file s inner' u →
      u.stream.ahead = [] ∧ u.consumed = s.consumed + 1 := by
    intro inner' u hopens
    obtain ⟨t, ht, hu⟩ := hopens.round_closeAtOnce
    have hempty := hahead options t ht
    have hcount : t.consumed = u.consumed := congrArg Stream.consumed hu.1
    rw [hu.1] at hempty
    rw [after_ok ht] at hround
    exact ⟨hempty, by omega⟩
  cases hends with
  | limit h => exact takesUpTo_limit h (Nat.le_add_right _ _)
  | stop hlimit h hstop =>
    rw [after_eq_lastState, h] at hround
    exact takesUpTo_stop h (Nat.le_of_eq hround)
  | goOn hlimit h hrest =>
    rw [after_ok (h closeAtOnce)] at hround
    rw [← hround]
    exact (takesUpTo_nil (hahead options _ (h closeAtOnce)) hrest).2
  | @span _ inner' _ _ _ _ t u v flow _ hlimit hopens hinner h hrest =>
    obtain ⟨hempty, hcount⟩ := hspan hopens
    obtain ⟨w, hw, hv⟩ := hopens.round_ok (answering_eq (.ok flow v) _ _)
    obtain rfl : w = t := by
      rw [h] at hw
      cases hw
      rfl
    have hbehind : w.stream = u.stream := hv.1.trans (takesUpTo_nil hempty hinner).1
    have hsame : w.consumed = u.consumed := congrArg Stream.consumed hbehind
    rw [← hcount, ← hsame]
    exact (takesUpTo_nil (by rw [hbehind]; exact hempty) hrest).2
  | @interrupted _ inner' _ _ _ t u v i hlimit hopens hinner h =>
    obtain ⟨hempty, hcount⟩ := hspan hopens
    obtain ⟨w, hw, hv, -⟩ := hopens.round_error (answering_eq (.error i v) _ _)
    obtain rfl : w = t := by
      rw [h] at hw
      cases hw
      rfl
    obtain ⟨hstream, htakes⟩ := takesUpTo_nil hempty hinner
    have hsame : w.consumed = u.consumed := congrArg Stream.consumed (hv.1.trans hstream)
    rw [← hcount]
    refine ⟨Nat.le_of_eq hsame, fun hlimit limit t ht => ?_⟩
    cases ht
    exact htakes.2 hlimit limit v rfl

/-! ### Scans that do not -/

/-- **A scan that runs out**: some property of states lets every round go on, opens no span, and is
kept. By induction on the run, which can only end at a limit. -/
theorem runsOut_of_invariant {J : State → Prop} (hs : J s)
    (hproof : ∀ t, J t → t.inProof = s.inProof)
    (hround : ∀ t, J t → ∀ setting,
      ∃ u, J u ∧ ∀ nested, round setting nested .file t = .ok .goOn u) :
    s.RunsOut library := by
  intro options hlimits
  have hends : ∀ {frame start k t result}, Ends ⟨options, library⟩ frame start t k result →
      frame = .file → J t →
      ∃ u, result = .error (.fatal (.tokenBudgetExceeded options.fileLimit)) u := by
    intro frame start k t result h
    induction h with
    | @limit _ _ t failure h =>
      rintro rfl ht
      have hfailure := passedLimit?_file (fun hin => hlimits (by rw [← hproof t ht]; exact hin)) h
      exact ⟨t, by rw [hfailure]⟩
    | @stop _ _ t result hlimit h hstop =>
      rintro rfl ht
      obtain ⟨u, -, hu⟩ := hround t ht ⟨options, library⟩
      exact absurd ((h closeAtOnce).symm.trans (hu closeAtOnce)) (hstop u)
    | @goOn _ _ _ t v result hlimit h hrest ih =>
      rintro rfl ht
      obtain ⟨u, hJ, hu⟩ := hround t ht ⟨options, library⟩
      obtain rfl : v = u := by
        have hboth := (h closeAtOnce).symm.trans (hu closeAtOnce)
        cases hboth
        rfl
      exact ih rfl hJ
    | @span _ _ _ _ _ t _ _ _ _ _ hlimit hopens hinner h hrest ih ih' =>
      rintro rfl ht
      obtain ⟨u, -, hu⟩ := hround t ht ⟨options, library⟩
      exact absurd hu hopens.not_const
    | @interrupted _ _ _ _ t _ _ _ _ hlimit hopens hinner h ih =>
      rintro rfl ht
      obtain ⟨u, -, hu⟩ := hround t ht ⟨options, library⟩
      exact absurd hu hopens.not_const
  obtain ⟨k, result, h⟩ := exists_ends ⟨options, library⟩ .file s.consumed s
  rw [h.scan_eq]
  exact hends h rfl hs

end Scan

end ProofProse
