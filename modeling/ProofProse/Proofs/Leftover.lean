import ProofProse.Proofs.Depth
import ProofProse.Proofs.Respect.Round

/-! # Nothing is left over from one proof to the next

Between two proofs no proof and no span is open (`State.Idle`). Two idle states with the same tokens
ahead, definitions and files may differ in the draft, in the place and the period of earlier
mathematics and proofs, and in the warnings; all further searches for an outcome come to the same
from both (`answers_eq`). A run is idle, with an empty draft, behind each outcome: a scan that
answers with a proof has closed the outermost one and taken its draft away (`endsProofs_within`),
and a proof that is dropped is given up. -/

namespace ProofProse

/-- What a search for an outcome came to. -/
structure Answer where
  /-- The outcome, the end of the file, or the failure. -/
  result : Except Failure (Option Outcome)
  /-- How many tokens had been taken. -/
  consumed : Nat
  /-- The warnings that were added. -/
  added : List Warning

namespace State

/-- No proof and no span is open. -/
structure Idle (s : State) : Prop where
  proofDepth : s.proofDepth = 0
  mathDepth : s.mathDepth = 0
  discardDepth : s.discardDepth = 0

/-- What the next `n` searches for an outcome come to. -/
def answers (setting : Setting) : Nat → State → List Answer
  | 0, _ => []
  | n + 1, s =>
    let found := s.nextOutcome setting
    ⟨found.1, found.2.consumed, found.2.warnings.toList.drop s.warnings.size⟩ ::
      answers setting n found.2

variable {setting : Setting} {before before' : List Warning} {s t : State}

theorem Idle.alike (hs : s.Idle) (ht : t.Idle) (hstream : t.stream = s.stream)
    (hdictionary : t.dictionary = s.dictionary) (hincludes : t.includes = s.includes) :
    Alike s.warnings.toList t.warnings.toList s t where
  stream := hstream
  dictionary := hdictionary
  includes := hincludes
  mathDepth := ht.mathDepth.trans hs.mathDepth.symm
  discardDepth := ht.discardDepth.trans hs.discardDepth.symm
  proofDepth := ht.proofDepth.trans hs.proofDepth.symm
  finalPeriod h := by
    have hzero := hs.mathDepth
    have hpos : 0 < s.mathDepth := of_decide_eq_true h
    omega
  draft h := by
    have hzero := hs.proofDepth
    have hpos : 0 < s.proofDepth := of_decide_eq_true h
    omega
  proofStart h := by
    have hzero := hs.proofDepth
    have hpos : 0 < s.proofDepth := of_decide_eq_true h
    omega
  warnings := ⟨[], by simp, by simp⟩

theorem Alike.anew (h : Alike before before' s t) :
    Alike s.warnings.toList t.warnings.toList s t :=
  { h with warnings := ⟨[], by simp, by simp⟩ }

/-! ### Searches for outcomes -/

theorem Alike.drain (h : Alike before before' s t) : Alike before before' s.drain t.drain := by
  unfold State.drain
  rw [h.stream]
  exact { h with stream := rfl }

/-- The search for an outcome comes to the same from alike states, and leads to alike ones. -/
theorem Alike.nextWithin (setting : Setting) : ∀ (fuel : Nat) {s t : State},
    Alike before before' s t →
      (t.nextWithin setting fuel).1 = (s.nextWithin setting fuel).1 ∧
        Alike before before' (s.nextWithin setting fuel).2 (t.nextWithin setting fuel).2
  | 0, _, _, h => ⟨rfl, h⟩
  | fuel + 1, s, t, h => by
    have hstart := h.consumed
    have hscan : Scan.Matches True (Alike before before')
        (Scan.within setting (Scan.rounds setting) .file s.consumed s)
        (Scan.within setting (Scan.rounds setting) .file s.consumed t) :=
      Scan.respects_within _ _ _ s t h
    unfold State.nextWithin Scan.scan
    rw [hstart]
    rcases hscan.cases with ⟨flow, u, v, hs, ht, huv⟩ | ⟨i, u, v, hs, ht, huv, -⟩
    · rw [hs, ht]
      cases flow with
      | goOn => exact huv.nextWithin setting fuel
      | close => exact ⟨rfl, huv.drain⟩
      | endDocument => exact ⟨rfl, huv.drain⟩
      | proofEnd proof =>
        cases proof with
        | none => exact huv.nextWithin setting fuel
        | some proof => exact ⟨rfl, huv⟩
    · rw [hs, ht]
      cases i with
      | drop reason => exact ⟨rfl, huv.abandonProof⟩
      | fatal failure => exact ⟨rfl, huv⟩

/-- **All further answers** are the same from alike states, by induction on their number. -/
theorem Alike.answers_eq : ∀ (n : Nat) {before before' : List Warning} {s t : State},
    Alike before before' s t → t.answers setting n = s.answers setting n
  | 0, _, _, _, _, _ => rfl
  | n + 1, _, _, s, t, h => by
    obtain ⟨hresult, hnext⟩ := h.anew.nextWithin setting (Scan.rounds setting)
    obtain ⟨added, hs, ht⟩ := hnext.warnings
    have hadded : (t.nextOutcome setting).2.warnings.toList.drop t.warnings.size =
        (s.nextOutcome setting).2.warnings.toList.drop s.warnings.size := by
      show List.drop _ (t.nextWithin setting _).2.warnings.toList =
        List.drop _ (s.nextWithin setting _).2.warnings.toList
      rw [hs, ht]
      simp
    have hconsumed : (t.nextOutcome setting).2.consumed = (s.nextOutcome setting).2.consumed :=
      hnext.consumed
    have hrest := hnext.answers_eq n
    show Answer.mk (t.nextOutcome setting).1 _ _ :: _ = Answer.mk (s.nextOutcome setting).1 _ _ :: _
    rw [hadded, hconsumed]
    exact congr (congrArg _ (congrArg (Answer.mk · _ _) hresult)) hrest

end State

/-! ### Scans that end with a proof -/

namespace Scan

variable {setting : Setting} {α : Type} {m : Scan Flow} {nested : Frame → Scan Flow}
  {frame : Frame} {first s t : State}

/-- When a computation answers with a proof, no proof is open behind it, and no text is left. -/
def EndsProofs (m : Scan Flow) : Prop :=
  ∀ s proof t, m s = .ok (.proofEnd proof) t → t.proofDepth = 0 ∧ t.draft = {}

theorem endsProofs_pure {flow : Flow} (h : ∀ proof, flow ≠ .proofEnd proof) :
    EndsProofs (pure flow) := by
  intro s proof t hm
  cases hm
  exact absurd rfl (h proof)

theorem EndsProofs.bind {m : Scan α} {f : α → Scan Flow} (hf : ∀ a, EndsProofs (f a)) :
    EndsProofs (m >>= f) := by
  intro s proof u h
  cases hm : m s with
  | ok a t =>
    rw [bind_ok hm] at h
    exact hf a t proof u h
  | error i t =>
    rw [bind_error hm] at h
    cases h

theorem endsProofs_goingOn (body : Scan Unit) : EndsProofs (goingOn body) :=
  .bind fun _ => endsProofs_pure nofun

theorem endsProofs_closeProof : EndsProofs closeProof := by
  intro s proof t h
  unfold closeProof at h
  split at h
  · cases h
  · cases h
    exact ⟨rfl, rfl⟩
  · cases h

theorem endsProofs_endDocument : EndsProofs (endDocument frame) := by
  unfold endDocument
  split
  · exact endsProofs_pure nofun
  · exact nofun

theorem endsProofs_proofBoundary (name : String) (h : EndsProofs m) :
    EndsProofs (proofBoundary name m) := by
  refine .bind fun s => ?_
  split
  · exact .bind fun _ => endsProofs_pure nofun
  · exact h

theorem endsProofs_openEnvironment : EndsProofs (openEnvironment setting nested) := by
  refine .bind fun name => ?_
  split
  · exact endsProofs_pure nofun
  refine .bind fun s => ?_
  split
  · split
    · exact .bind fun _ => endsProofs_pure nofun
    · exact endsProofs_goingOn _
  · split
    · exact endsProofs_goingOn _
    · exact endsProofs_goingOn _

theorem endsProofs_closeEnvironment : EndsProofs (closeEnvironment frame) := by
  refine .bind fun name => ?_
  split
  · exact endsProofs_pure nofun
  refine .bind fun s => ?_
  split
  · split
    · exact .bind fun _ => endsProofs_pure nofun
    · exact endsProofs_closeProof
  split
  · exact endsProofs_endDocument
  split
  · exact endsProofs_goingOn _
  · exact endsProofs_pure nofun

theorem endsProofs_command (name : String) : EndsProofs (command setting nested frame name) := by
  unfold command
  split
  · exact endsProofs_pure nofun
  split
  · next kind _ =>
    cases kind with
    | openEnvironment => exact endsProofs_openEnvironment
    | closeEnvironment => exact endsProofs_closeEnvironment
    | openProof => exact endsProofs_proofBoundary name (endsProofs_goingOn _)
    | closeProof => exact endsProofs_proofBoundary name endsProofs_closeProof
    | endDocument => exact endsProofs_endDocument
    | nothing => exact endsProofs_pure nofun
    | _ => exact endsProofs_goingOn _
  · exact endsProofs_goingOn _

theorem endsProofs_mathShift : EndsProofs (mathShift setting nested frame) := by
  have hopen : EndsProofs (openDollars setting nested) := by
    refine .bind fun t? => ?_
    split
    · exact .bind fun _ => endsProofs_goingOn _
    · exact endsProofs_goingOn _
  cases frame with
  | dollar => exact endsProofs_pure nofun
  | doubleDollar =>
    refine .bind fun t? => ?_
    split
    · exact .bind fun _ => endsProofs_pure nofun
    · exact endsProofs_pure nofun
  | _ => exact hopen

theorem endsProofs_round : EndsProofs (round setting nested frame) := by
  refine .bind fun t? => ?_
  cases t? with
  | none =>
    cases frame with
    | file => exact endsProofs_pure nofun
    | _ => exact nofun
  | some token =>
    cases token with
    | mathShift => exact endsProofs_mathShift
    | control name => exact endsProofs_command name
    | openGroup => exact endsProofs_pure nofun
    | closeGroup => exact endsProofs_pure nofun
    | parameter n => exact endsProofs_pure nofun
    | deferred n => exact endsProofs_pure nofun
    | inert name => exact endsProofs_pure nofun
    | _ => exact endsProofs_goingOn _

theorem endsProofs_within : ∀ (fuel start : Nat), EndsProofs (within setting fuel frame start)
  | 0, _ => nofun
  | fuel + 1, start => by
    intro s proof t h
    rcases within_cases setting fuel frame start s with ⟨failure, hs⟩ | ⟨-, hs⟩ | ⟨u, -, hs⟩
    · rw [hs] at h
      cases h
    · rw [hs] at h
      exact endsProofs_round s proof t h
    · rw [hs] at h
      exact endsProofs_within fuel start u proof t h

/-! ### Runs -/

/-- Behind a proof, completed or dropped, no proof is open and no text is left. -/
theorem noProof_of_begins (hfirst : first.proofDepth = 0 ∧ first.draft = {})
    (h : Begins setting first s) : s.proofDepth = 0 ∧ s.draft = {} := by
  cases h with
  | first => exact hfirst
  | proofEnd _ h => exact endsProofs_within _ _ _ _ _ h
  | dropped _ _ => exact ⟨rfl, rfl⟩

theorem inProof_of_drop {fuel start : Nat} {reason : DropReason}
    (h : within setting fuel frame start s = .error (.drop reason) t) : t.inProof = true := by
  rcases (respects_within fuel frame start s s (State.Alike.refl s)).cases with
    ⟨flow, u, v, hs, -, -⟩ | ⟨i, u, v, hs, -, -, hallowed⟩
  · rw [h] at hs
    cases hs
  · rw [h] at hs
    cases hs
    exact hallowed

end Scan

/-- **Nothing is left over from one proof to the next.** From two idle states with the same tokens
ahead, the same count of tokens taken, the same definitions and the same files, whatever else they
hold, all further searches for an outcome come to the same answers, with the same counts and the
same warnings added. A run of a source is idle with an empty draft wherever it begins to scan the
file, and so it is behind each outcome. A proof is dropped, in any scan, only where one is open. -/
theorem nothing_left_over (setting : Setting) :
    (∀ s t : State, s.Idle → t.Idle → t.stream = s.stream → t.dictionary = s.dictionary →
      t.includes = s.includes → ∀ n, t.answers setting n = s.answers setting n) ∧
    (∀ source path s, Scan.Begins setting (.ofSource setting source path) s →
      (s.Idle ∧ s.draft = {}) ∧
      ∀ outcome t, s.nextOutcome setting = (.ok (some outcome), t) →
        Scan.Begins setting (.ofSource setting source path) t ∧ t.Idle ∧ t.draft = {}) ∧
    ∀ fuel frame start s reason t,
      Scan.within setting fuel frame start s = .error (.drop reason) t → 0 < t.proofDepth := by
  refine ⟨fun s t hs ht hstream hdictionary hincludes n =>
    (hs.alike ht hstream hdictionary hincludes).answers_eq n, fun source path s hs => ?_,
    fun fuel frame start s reason t h => of_decide_eq_true (Scan.inProof_of_drop h)⟩
  have hidle : ∀ t, Scan.Begins setting (.ofSource setting source path) t →
      t.Idle ∧ t.draft = {} := by
    intro t ht
    obtain ⟨hproof, hdraft⟩ := Scan.noProof_of_begins ⟨rfl, rfl⟩ ht
    obtain ⟨hmath, hdiscard⟩ := Prod.mk.inj (Scan.depths_of_begins rfl ht)
    exact ⟨⟨hproof, hmath, hdiscard⟩, hdraft⟩
  refine ⟨hidle s hs, fun outcome t h => ?_⟩
  have ht := hs.nextWithin h
  exact ⟨ht, hidle t ht⟩

/-- A file before its first proof. -/
def State.beforeProof : State :=
  .start "main.tex" [.control "proof", .char 'A', .superscript, .control "endproof"]

/-- The same file with something left over of everything. -/
def State.withLeftovers : State :=
  { State.beforeProof with
    finalPeriod := true, draft := ⟨[.char 'x']⟩, proofStart := 7
    warnings := #[.expansionFailed "x"] }

/-- The file is read in the same way with the leftovers and without, a run of it begins idle, and
the sign behind its letter drops the proof. -/
theorem leftovers_of_file_unread :
    (State.beforeProof.Idle ∧ State.withLeftovers.Idle ∧
      State.withLeftovers.stream = State.beforeProof.stream ∧
      State.withLeftovers.answers ⟨.standard, .empty⟩ 3 =
        State.beforeProof.answers ⟨.standard, .empty⟩ 3) ∧
    (Scan.Begins ⟨.standard, .empty⟩ (.ofSource ⟨.standard, .empty⟩ "A" "main.tex")
        (.ofSource ⟨.standard, .empty⟩ "A" "main.tex") ∧
      (State.ofSource ⟨.standard, .empty⟩ "A" "main.tex").Idle) ∧
    ∃ t, Scan.within ⟨.standard, .empty⟩ 1 .file 0
        { State.start "main.tex" [.superscript] with proofDepth := 1 } =
          .error (.drop (.mathOutsideMath "^")) t ∧ 0 < t.proofDepth := by
  have hall := nothing_left_over ⟨.standard, .empty⟩
  have hbefore : State.beforeProof.Idle := ⟨rfl, rfl, rfl⟩
  have hleftovers : State.withLeftovers.Idle := ⟨rfl, rfl, rfl⟩
  have hdrop : ∃ t, Scan.within ⟨.standard, .empty⟩ 1 .file 0
      { State.start "main.tex" [.superscript] with proofDepth := 1 } =
        .error (.drop (.mathOutsideMath "^")) t := ⟨_, rfl⟩
  obtain ⟨t, ht⟩ := hdrop
  exact ⟨⟨hbefore, hleftovers, rfl, hall.1 _ _ hbefore hleftovers rfl rfl rfl 3⟩,
    ⟨.first, (hall.2.1 "A" "main.tex" _ .first).1.1⟩, t, ht, hall.2.2 _ _ _ _ _ _ ht⟩

end ProofProse
