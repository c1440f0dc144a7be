import ProofProse.Extraction
import ProofProse.Proofs.Meaning
import ProofProse.Proofs.PlainProse

/-! # Limits only turn results into failures

Two scans with the same options but for their limits, which are wider for the second one
(`Options.Within`), are compared round by round. The scan with the narrow limits gives up the file,
or the other one does the very same (`Relaxed`); nothing recovers from a file that was given up, so
the same holds of all that is built from scans. A result under narrow limits is the result under
wide ones (`wider_limits_keep_results`). -/

namespace ProofProse

/-- The same options, with limits that are at least as wide. -/
structure Options.Within (narrow wide : Options) : Prop where
  mathLimit : narrow.mathLimit ≤ wide.mathLimit
  environmentLimit : narrow.environmentLimit ≤ wide.environmentLimit
  conditionalLimit : narrow.conditionalLimit ≤ wide.conditionalLimit
  fileLimit : narrow.fileLimit ≤ wide.fileLimit
  skipDepth : narrow.skipDepth ≤ wide.skipDepth
  includeDepth : wide.includeDepth = narrow.includeDepth
  followIncludes : wide.followIncludes = narrow.followIncludes
  catalogue : wide.catalogue = narrow.catalogue
  corrections : wide.corrections = narrow.corrections

theorem Options.strict_within_standard : Options.strict.Within .standard :=
  ⟨by decide, by decide, by decide, by decide, by decide, rfl, rfl, rfl, rfl⟩

/-! ### Regions -/

section Regions

variable {limit limit' : Nat}

/-- A branch that is not too long for a limit is read the same for a wider one. -/
theorem branchFrom_of_le (hlimit : limit ≤ limit') (opens : String → Bool) (atElse : Bool) :
    ∀ (tokens : List Token) (named : Bool) (depth count fileEnds : Nat),
      (branchFrom limit opens atElse named depth count fileEnds tokens).result = .tooLong ∨
        branchFrom limit' opens atElse named depth count fileEnds tokens =
          branchFrom limit opens atElse named depth count fileEnds tokens := by
  intro tokens
  induction tokens with
  | nil =>
    intro named depth count fileEnds
    by_cases hcount : count > limit
    · exact .inl (by simp [branchFrom, hcount])
    · have hcount' : ¬count > limit' := by omega
      exact .inr (by simp [branchFrom, hcount, hcount'])
  | cons t rest ih =>
    intro named depth count fileEnds
    unfold branchFrom
    by_cases hnamed : named = true
    · rw [if_pos hnamed, if_pos hnamed]
      exact ih ..
    rw [if_neg hnamed, if_neg hnamed]
    by_cases hcount : count > limit
    · exact .inl (by rw [if_pos hcount])
    have hcount' : ¬count > limit' := by omega
    rw [if_neg hcount, if_neg hcount']
    cases t with
    | control name =>
      dsimp only
      split
      · cases depth with
        | zero => exact .inr rfl
        | succ depth => exact ih ..
      · split
        · exact .inr rfl
        · split
          · exact ih ..
          · split
            · exact ih ..
            · exact ih ..
    | _ => exact ih ..

/-- Verbatim text that is not too long for a limit is read the same for a wider one. -/
theorem verbatimFrom_of_le (hlimit : limit ≤ limit') (name : String) :
    ∀ (tokens : List Token) (count fileEnds : Nat),
      (verbatimFrom limit name count fileEnds tokens).result = .tooLong ∨
        verbatimFrom limit' name count fileEnds tokens =
          verbatimFrom limit name count fileEnds tokens := by
  intro tokens
  induction tokens with
  | nil =>
    intro count fileEnds
    by_cases hcount : count > limit
    · exact .inl (by simp [verbatimFrom, hcount])
    · have hcount' : ¬count > limit' := by omega
      exact .inr (by simp [verbatimFrom, hcount, hcount'])
  | cons t rest ih =>
    intro count fileEnds
    unfold verbatimFrom
    by_cases hcount : count > limit
    · exact .inl (by rw [if_pos hcount])
    have hcount' : ¬count > limit' := by omega
    rw [if_neg hcount, if_neg hcount']
    cases t with
    | control command =>
      dsimp only
      split
      · split
        · exact .inr rfl
        · exact ih ..
      · exact ih ..
    | _ => exact ih ..

end Regions

namespace Scan

variable {α β : Type}

/-! ### Computations that differ in what they give up -/

/-- A computation gives up the file. -/
def GivesUp (m : Scan α) (s : State) : Prop := ∃ failure t, m s = .error (.fatal failure) t

/-- The first computation gives up the file, or the second one does the same. -/
def Relaxed (m m' : Scan α) : Prop := ∀ s, GivesUp m s ∨ m' s = m s

theorem givesUp_fail (failure : Failure) (s : State) : GivesUp (fail failure : Scan α) s :=
  ⟨failure, s, rfl⟩

theorem GivesUp.bind {m : Scan α} {s : State} (h : GivesUp m s) (f : α → Scan β) :
    GivesUp (m >>= f) s := by
  obtain ⟨failure, t, hm⟩ := h
  exact ⟨failure, t, bind_error hm⟩

theorem GivesUp.bind_ok {m : Scan α} {f : α → Scan β} {s t : State} {a : α} (hm : m s = .ok a t)
    (h : GivesUp (f a) t) : GivesUp (m >>= f) s := by
  obtain ⟨failure, u, hf⟩ := h
  exact ⟨failure, u, (Scan.bind_ok hm).trans hf⟩

theorem Relaxed.refl (m : Scan α) : Relaxed m m := fun _ => .inr rfl

theorem Relaxed.of_eq {m m' : Scan α} (h : m' = m) : Relaxed m m' := fun _ => .inr (by rw [h])

theorem relaxed_fail (failure : Failure) (m : Scan α) : Relaxed (fail failure) m :=
  fun s => .inl (givesUp_fail failure s)

theorem Relaxed.bind {m m' : Scan α} {f f' : α → Scan β} (hm : Relaxed m m')
    (hf : ∀ a, Relaxed (f a) (f' a)) : Relaxed (m >>= f) (m' >>= f') := by
  intro s
  rcases hm s with h | h
  · exact .inl (h.bind f)
  · cases hs : m s with
    | ok a t =>
      rw [hs] at h
      rcases hf a t with hft | hft
      · exact .inl (GivesUp.bind_ok hs hft)
      · exact .inr (by rw [Scan.bind_ok hs, Scan.bind_ok h, hft])
    | error i t =>
      rw [hs] at h
      exact .inr (by rw [bind_error hs, bind_error h])

theorem Relaxed.goingOn {body body' : Scan Unit} (h : Relaxed body body') :
    Relaxed (goingOn body) (goingOn body') :=
  h.bind fun _ => .refl _

theorem Relaxed.discard {m m' : Scan α} (h : Relaxed m m') :
    Relaxed (discard m : Scan Unit) (discard m') := by
  intro s
  rcases h s with ⟨failure, t, hm⟩ | hm
  · exact .inl ⟨failure, t, discard_error hm⟩
  · cases hs : m s with
    | ok a t => exact .inr (by rw [discard_ok hs, discard_ok (hm.trans hs)])
    | error i t => exact .inr (by rw [discard_error hs, discard_error (hm.trans hs)])

theorem Relaxed.andAlways {body body' : Scan α} (h : Relaxed body body') (leave : State → State) :
    Relaxed (andAlways body leave) (andAlways body' leave) := by
  intro s
  rcases h s with ⟨failure, t, hb⟩ | hb
  · exact .inl ⟨failure, leave t, by unfold Scan.andAlways; rw [hb]⟩
  · exact .inr (by unfold Scan.andAlways; rw [hb])

/-- A region that is too long is given up, and what follows on any other is the same. -/
theorem relaxed_region {read read' : State → List Token → Reading RegionEnd}
    {f f' : RegionEnd → Scan Unit}
    (hread : ∀ s tokens, (read s tokens).result = .tooLong ∨ read' s tokens = read s tokens)
    (hlong : ∀ s, GivesUp (f .tooLong) s) (hf : ∀ result, result ≠ .tooLong → f' result = f result) :
    Relaxed (take read >>= f) (take read' >>= f') := by
  intro s
  by_cases hresult : (read s s.stream.ahead).result = .tooLong
  · refine .inl (GivesUp.bind_ok (take_ok read s) ?_)
    rw [hresult]
    exact hlong _
  · have heq := (hread s s.stream.ahead).resolve_left hresult
    exact .inr (by rw [Scan.bind_ok (take_ok read s), Scan.bind_ok (take_ok read' s), heq,
      hf _ hresult])

/-! ### Commands under two limits -/

section Rounds

variable {narrow wide : Options} {library : Library} {nested nested' : Frame → Scan Flow}

theorem search_eq (h : narrow.Within wide) (target including : String) :
    ∀ candidates, search ⟨wide, library⟩ target including candidates =
      search ⟨narrow, library⟩ target including candidates
  | [] => rfl
  | candidate :: candidates => by
    unfold search
    dsimp only
    rw [h.corrections, search_eq h target including candidates]

theorem load_eq (h : narrow.Within wide) (kind : InclusionKind) (target : String) :
    load ⟨wide, library⟩ kind target = load ⟨narrow, library⟩ kind target := by
  unfold load passesOver
  dsimp only
  rw [h.followIncludes, h.catalogue, h.includeDepth]
  simp only [search_eq h]

theorem followPackages_eq (h : narrow.Within wide) :
    ∀ names, followPackages ⟨wide, library⟩ names = followPackages ⟨narrow, library⟩ names
  | [] => rfl
  | name :: names => by
    unfold followPackages
    rw [load_eq h, followPackages_eq h names]

theorem inclusion_eq (h : narrow.Within wide) (kind : InclusionKind) :
    inclusion ⟨wide, library⟩ kind = inclusion ⟨narrow, library⟩ kind := by
  cases kind with
  | documentClass => rfl
  | package =>
    unfold inclusion
    simp only [followPackages_eq h]
  | input =>
    unfold inclusion
    simp only [load_eq h]

theorem relaxed_skipBranch (h : narrow.Within wide) (atElse : Bool) :
    Relaxed (skipBranch ⟨narrow, library⟩ atElse) (skipBranch ⟨wide, library⟩ atElse) := by
  refine relaxed_region (fun s tokens => ?_) (fun s => givesUp_fail _ s) fun result hresult => ?_
  · exact branchFrom_of_le h.conditionalLimit _ atElse tokens false 0 0 0
  · cases result with
    | tooLong => exact absurd rfl hresult
    | _ => rfl

theorem relaxed_beginConditional (h : narrow.Within wide) (truth : Bool) :
    Relaxed (beginConditional ⟨narrow, library⟩ truth)
      (beginConditional ⟨wide, library⟩ truth) := by
  cases truth with
  | true => exact .refl _
  | false => exact relaxed_skipBranch h true

theorem relaxed_bareTest (h : narrow.Within wide) (name : String) :
    Relaxed (bareTest ⟨narrow, library⟩ name) (bareTest ⟨wide, library⟩ name) := by
  unfold bareTest
  split
  · exact relaxed_beginConditional h true
  · split
    · refine (Relaxed.refl _).bind fun _ => (Relaxed.refl peek).bind fun t? => ?_
      dsimp only
      split
      · exact (Relaxed.refl _).bind fun _ => relaxed_beginConditional h _
      · exact relaxed_beginConditional h _
    · exact relaxed_beginConditional h false

theorem relaxed_plainCommand (h : narrow.Within wide) (name : String) :
    Relaxed (plainCommand ⟨narrow, library⟩ name) (plainCommand ⟨wide, library⟩ name) := by
  rw [plainCommand_eq, plainCommand_eq]
  refine (Relaxed.refl get).bind fun s => ?_
  cases s.dictionary.meaning name with
  | flagTest flag => exact (Relaxed.refl get).bind fun _ => relaxed_beginConditional h _
  | bareTest => exact relaxed_bareTest h name
  | effect effect =>
    refine .of_eq ?_
    cases effect with
    | inclusion kind => exact inclusion_eq h kind
    | _ => rfl
  | _ => exact .refl _

/-! ### Spans under two limits -/

theorem relaxed_checkDepth (h : narrow.Within wide) :
    Relaxed (checkDepth ⟨narrow, library⟩) (checkDepth ⟨wide, library⟩) := by
  refine (Relaxed.refl get).bind fun s => ?_
  dsimp only
  have hdepth := h.skipDepth
  by_cases hs : s.mathDepth + s.discardDepth ≥ narrow.skipDepth
  · rw [if_pos hs]
    exact relaxed_fail _ _
  · rw [if_neg hs, if_neg (by omega)]
    exact .refl _

theorem relaxed_skipMath (h : narrow.Within wide) {frame : Frame}
    (hnested : Relaxed (nested frame) (nested' frame)) :
    Relaxed (skipMath ⟨narrow, library⟩ nested frame) (skipMath ⟨wide, library⟩ nested' frame) :=
  (relaxed_checkDepth h).bind fun _ => (Relaxed.refl _).bind fun _ =>
    (hnested.andAlways _).discard.bind fun _ => .refl _

theorem relaxed_skipDiscarded (h : narrow.Within wide) {name : String}
    (hnested : Relaxed (nested (.environment name)) (nested' (.environment name))) :
    Relaxed (skipDiscarded ⟨narrow, library⟩ nested name)
      (skipDiscarded ⟨wide, library⟩ nested' name) :=
  (relaxed_checkDepth h).bind fun _ => (Relaxed.refl _).bind fun _ => (hnested.andAlways _).discard

theorem relaxed_skipVerbatim (h : narrow.Within wide) (name : String) :
    Relaxed (skipVerbatim ⟨narrow, library⟩ name) (skipVerbatim ⟨wide, library⟩ name) := by
  refine relaxed_region (fun s tokens => ?_) (fun s => givesUp_fail _ s) fun result hresult => ?_
  · exact verbatimFrom_of_le h.environmentLimit name tokens 0 0
  · cases result with
    | tooLong => exact absurd rfl hresult
    | _ => rfl

/-! ### Rounds under two limits -/

variable (h : narrow.Within wide) (hnested : ∀ frame, Relaxed (nested frame) (nested' frame))

include h hnested

theorem relaxed_openEnvironment :
    Relaxed (openEnvironment ⟨narrow, library⟩ nested)
      (openEnvironment ⟨wide, library⟩ nested') := by
  unfold openEnvironment
  refine (Relaxed.refl argumentText).bind fun name => ?_
  split
  · exact .refl _
  refine (Relaxed.refl get).bind fun s => ?_
  split
  · exact .refl _
  split
  · exact .refl _
  refine Relaxed.goingOn ?_
  cases EnvironmentClass.ofName name with
  | math => exact relaxed_skipMath h (hnested _)
  | discarded => exact relaxed_skipDiscarded h (hnested _)
  | verbatim => exact relaxed_skipVerbatim h name
  | _ => exact .refl _

theorem relaxed_structural (name : String) (frame : Frame) (kind : Structural) :
    Relaxed (structural ⟨narrow, library⟩ nested name frame kind)
      (structural ⟨wide, library⟩ nested' name frame kind) := by
  cases kind with
  | openEnvironment => exact relaxed_openEnvironment h hnested
  | openInline => exact (relaxed_skipMath h (hnested _)).goingOn
  | openDisplay => exact (relaxed_skipMath h (hnested _)).goingOn
  | endBranch => exact (relaxed_skipBranch h false).goingOn
  | _ => exact .refl _

theorem relaxed_openDollars :
    Relaxed (openDollars ⟨narrow, library⟩ nested) (openDollars ⟨wide, library⟩ nested') := by
  refine (Relaxed.refl peek).bind fun t? => ?_
  split
  · exact (Relaxed.refl _).bind fun _ => (relaxed_skipMath h (hnested _)).goingOn
  · exact (relaxed_skipMath h (hnested _)).goingOn

theorem relaxed_interpret (frame : Frame) (t : Token) :
    Relaxed (interpret ⟨narrow, library⟩ nested frame t)
      (interpret ⟨wide, library⟩ nested' frame t) := by
  cases t with
  | mathShift =>
    cases frame with
    | dollar => exact .refl _
    | doubleDollar => exact .refl _
    | _ => exact relaxed_openDollars h hnested
  | control name =>
    unfold interpret command
    dsimp only
    split
    · exact .refl _
    · split
      · exact relaxed_structural h hnested name frame _
      · exact (relaxed_plainCommand h name).goingOn
  | _ => exact .refl _

theorem relaxed_round (frame : Frame) :
    Relaxed (round ⟨narrow, library⟩ nested frame) (round ⟨wide, library⟩ nested' frame) := by
  unfold round
  refine (Relaxed.refl next).bind fun t? => ?_
  cases t? with
  | none => exact .refl _
  | some t => exact relaxed_interpret h hnested frame t

end Rounds

/-! ### Scans under two limits -/

variable {narrow wide : Options} {library : Library}

/-- Limits that are not passed in a state are not passed when they are wider. -/
theorem passedLimit?_of_within (h : narrow.Within wide) {frame : Frame} {start : Nat} {s : State}
    (hs : passedLimit? ⟨narrow, library⟩ frame start s = none) :
    passedLimit? ⟨wide, library⟩ frame start s = none := by
  obtain ⟨hfile, hframe, hproof⟩ := passedLimit?_eq_none_iff.mp hs
  have hfileLimit := h.fileLimit
  have hmath := h.mathLimit
  have henvironment := h.environmentLimit
  refine passedLimit?_eq_none_iff.mpr ⟨by dsimp only at *; omega, fun limit hlimit => ?_,
    fun hin => ?_⟩
  · cases frame with
    | file => cases hlimit
    | environment name =>
      cases hlimit
      have := hframe narrow.environmentLimit rfl
      dsimp only
      omega
    | _ =>
      cases hlimit
      have := hframe narrow.mathLimit rfl
      dsimp only
      omega
  · have := hproof hin
    dsimp only at *
    omega

/-- The induction is on the rounds of the narrow scan; the spans inside it have a round less. -/
theorem relaxed_within (h : narrow.Within wide) :
    ∀ {fuel fuel' : Nat}, fuel ≤ fuel' → ∀ (frame : Frame) (start : Nat),
      Relaxed (within ⟨narrow, library⟩ fuel frame start)
        (within ⟨wide, library⟩ fuel' frame start)
  | 0, _, _, _, _ => relaxed_fail _ _
  | fuel + 1, 0, hfuel, _, _ => by omega
  | fuel + 1, fuel' + 1, hfuel, frame, start => by
    intro s
    have hinner : ∀ frame, Relaxed (inner ⟨narrow, library⟩ fuel frame)
        (inner ⟨wide, library⟩ fuel' frame) :=
      fun frame t => relaxed_within h (by omega) frame t.consumed t
    cases hlimit : passedLimit? ⟨narrow, library⟩ frame start s with
    | some failure => exact .inl ⟨failure, s, within_limit hlimit⟩
    | none =>
      have hlimit' : passedLimit? ⟨wide, library⟩ frame start s = none :=
        passedLimit?_of_within h hlimit
      rcases relaxed_round h hinner frame s with ⟨failure, t, hround⟩ | hround
      · refine .inl ⟨failure, t, ?_⟩
        rw [within_stop hlimit (by rw [hround]; nofun), hround]
      by_cases hgoOn : ∃ t, round ⟨narrow, library⟩ (inner ⟨narrow, library⟩ fuel) frame s =
          .ok .goOn t
      · obtain ⟨t, ht⟩ := hgoOn
        unfold GivesUp
        rw [within_goOn hlimit ht, within_goOn hlimit' (hround.trans ht)]
        exact relaxed_within h (by omega) frame start t
      · have hstop : ∀ t, round ⟨narrow, library⟩ (inner ⟨narrow, library⟩ fuel) frame s ≠
            .ok .goOn t := fun t ht => hgoOn ⟨t, ht⟩
        refine .inr ?_
        rw [within_stop hlimit hstop, within_stop hlimit' (by rw [hround]; exact hstop), hround]

theorem relaxed_scan (library : Library) (h : narrow.Within wide) (frame : Frame) :
    Relaxed (scan ⟨narrow, library⟩ frame) (scan ⟨wide, library⟩ frame) :=
  fun s => relaxed_within h (Nat.add_le_add_right h.fileLimit 2) frame s.consumed s

end Scan

/-! ### Results under two limits -/

theorem ok_of_toOption {ε α : Type} {result : Except ε α} {a : α}
    (h : result.toOption = some a) : result = .ok a := by
  cases result with
  | error e => cases h
  | ok b =>
    cases h
    rfl

section Results

variable {narrow wide : Options} {library : Library}

theorem State.nextWithin_of_within (h : narrow.Within wide) :
    ∀ {fuel fuel' : Nat}, fuel ≤ fuel' → ∀ s : State,
      (∃ failure, (s.nextWithin ⟨narrow, library⟩ fuel).1 = .error failure) ∨
        s.nextWithin ⟨wide, library⟩ fuel' = s.nextWithin ⟨narrow, library⟩ fuel
  | 0, _, _, _ => .inl ⟨_, rfl⟩
  | fuel + 1, 0, hfuel, _ => by omega
  | fuel + 1, fuel' + 1, hfuel, s => by
    unfold nextWithin
    rcases Scan.relaxed_scan library h .file s with ⟨failure, t, hscan⟩ | hscan
    · rw [hscan]
      exact .inl ⟨failure, rfl⟩
    · rw [hscan]
      cases Scan.scan ⟨narrow, library⟩ .file s with
      | ok flow t =>
        cases flow with
        | goOn => exact t.nextWithin_of_within h (by omega)
        | proofEnd proof =>
          cases proof with
          | none => exact t.nextWithin_of_within h (by omega)
          | some proof => exact .inr rfl
        | _ => exact .inr rfl
      | error i t =>
        cases i with
        | drop reason => exact .inr rfl
        | fatal failure => exact .inr rfl

theorem State.historyWithin_of_within (h : narrow.Within wide) :
    ∀ {fuel fuel' : Nat}, fuel ≤ fuel' → ∀ (steps : List Step) (s : State),
      (∃ failure, (s.historyWithin ⟨narrow, library⟩ steps fuel).failure = some failure) ∨
        s.historyWithin ⟨wide, library⟩ steps fuel' = s.historyWithin ⟨narrow, library⟩ steps fuel
  | 0, _, _, _, _ => .inl ⟨_, rfl⟩
  | fuel + 1, 0, hfuel, _, _ => by omega
  | fuel + 1, fuel' + 1, hfuel, steps, s => by
    have hnext : (∃ failure, (s.nextOutcome ⟨narrow, library⟩).1 = .error failure) ∨
        s.nextOutcome ⟨wide, library⟩ = s.nextOutcome ⟨narrow, library⟩ :=
      s.nextWithin_of_within h (Nat.add_le_add_right h.fileLimit 2)
    unfold historyWithin
    cases ho : s.nextOutcome ⟨narrow, library⟩ with
    | mk outcome? t =>
      rw [ho] at hnext
      cases outcome? with
      | error failure => exact .inl ⟨failure, rfl⟩
      | ok outcome? =>
        rcases hnext with ⟨failure, hfailure⟩ | hsame
        · cases hfailure
        rw [hsame]
        cases outcome? with
        | none => exact .inr rfl
        | some outcome => exact t.historyWithin_of_within h (by omega) _

theorem State.bodyWithin_of_within (h : narrow.Within wide) :
    ∀ {fuel fuel' : Nat}, fuel ≤ fuel' → ∀ s : State,
      (∃ failure, s.bodyWithin ⟨narrow, library⟩ fuel = .error failure) ∨
        s.bodyWithin ⟨wide, library⟩ fuel' = s.bodyWithin ⟨narrow, library⟩ fuel
  | 0, _, _, _ => .inl ⟨_, rfl⟩
  | fuel + 1, 0, hfuel, _ => by omega
  | fuel + 1, fuel' + 1, hfuel, s => by
    unfold bodyWithin
    rcases Scan.relaxed_scan library h .file s with ⟨failure, t, hscan⟩ | hscan
    · rw [hscan]
      exact .inl ⟨failure, rfl⟩
    · rw [hscan]
      cases Scan.scan ⟨narrow, library⟩ .file s with
      | ok flow t =>
        cases flow with
        | proofEnd proof => exact t.openBody.bodyWithin_of_within h (by omega)
        | _ => exact .inr rfl
      | error i t =>
        cases i with
        | drop reason => exact .inr rfl
        | fatal failure => exact .inr rfl

theorem State.ofSource_eq (h : narrow.Within wide) (source path : String) :
    State.ofSource ⟨wide, library⟩ source path = State.ofSource ⟨narrow, library⟩ source path := by
  unfold State.ofSource
  dsimp only
  rw [h.corrections]

/-- **Limits only turn results into failures.** What is extracted from a source under some options,
and the text that it has as a body, is the same when the limits are wider. -/
theorem wider_limits_keep_results (h : narrow.Within wide) (library : Library)
    (source path : String) :
    (∀ extraction, extract ⟨narrow, library⟩ source path = .ok extraction →
      extract ⟨wide, library⟩ source path = .ok extraction) ∧
    ∀ text, renderBody ⟨narrow, library⟩ source path = .ok text →
      renderBody ⟨wide, library⟩ source path = .ok text := by
  have hrounds : Scan.rounds ⟨narrow, library⟩ ≤ Scan.rounds ⟨wide, library⟩ :=
    Nat.add_le_add_right h.fileLimit 2
  constructor
  · intro extraction hextract
    unfold extract State.history at *
    rw [State.ofSource_eq h]
    rcases State.historyWithin_of_within h hrounds []
      (State.ofSource ⟨narrow, library⟩ source path) with ⟨failure, hfailure⟩ | hhistory
    · unfold History.extraction at hextract
      rw [hfailure] at hextract
      cases hextract
    · rw [hhistory]
      exact hextract
  · intro text hrender
    unfold renderBody at *
    rw [State.ofSource_eq h]
    rcases State.bodyWithin_of_within h hrounds
      (State.ofSource ⟨narrow, library⟩ source path).openBody with ⟨failure, hfailure⟩ | hbody
    · rw [hfailure] at hrender
      cases hrender
    · rw [hbody]
      exact hrender

/-- The body of a proof. -/
def strictBody : List Token :=
  [.char 'B', .char 'y', .space, .char '2', .char '.', .space, .char 'S', .char 'o', .char '.']

/-- A proof that is completed within narrow limits is completed within the usual ones. -/
theorem standard_results_of_strict :
    extract ⟨.standard, .empty⟩ "\\begin\x7bproof\x7dBy 2. So.\\end\x7bproof\x7d" "main.tex" =
      .ok ⟨[⟨"By 2 . So ."⟩], [], [], 25⟩ ∧
    renderBody ⟨.standard, .empty⟩ "If $x$ then $y$." "main.tex" = .ok "If MATH then MATH ." := by
  have hkeep := wider_limits_keep_results Options.strict_within_standard .empty
  have hextract : extract ⟨.strict, .empty⟩
      "\\begin\x7bproof\x7dBy 2. So.\\end\x7bproof\x7d" "main.tex" =
      .ok ⟨[⟨"By 2 . So ."⟩], [], [], 25⟩ := by
    have htokens : Source.tokens "\\begin\x7bproof\x7dBy 2. So.\\end\x7bproof\x7d" "main.tex" [] =
        proofTokens strictBody := by decide +kernel
    have hproof? : proseProof? strictBody = some ⟨"By 2 . So ."⟩ := by decide
    have hoption : Scan.NoOption strictBody := by
      intro offset h
      cases h
    have hplain : ∀ t ∈ strictBody, t.isPlain := by decide
    unfold extract State.ofSource
    rw [show Options.corrections .strict = [] from rfl, htokens,
      extraction_proofTokens "main.tex" hplain hoption (by decide) (by decide), hproof?]
    rfl
  have hbody : (renderBody ⟨.strict, .empty⟩ "If $x$ then $y$." "main.tex").toOption =
      some "If MATH then MATH ." := by decide +kernel
  exact ⟨(hkeep _ "main.tex").1 _ hextract, (hkeep _ "main.tex").2 _ (ok_of_toOption hbody)⟩

end Results

end ProofProse
