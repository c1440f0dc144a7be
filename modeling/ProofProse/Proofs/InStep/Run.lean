import ProofProse.Proofs.Abandon
import ProofProse.Proofs.Course.Round
import ProofProse.Proofs.InStep.Round
import ProofProse.Proofs.Visits

/-! # Whole runs in step

All rounds of a run are in step as long as those that begin with a command that takes tokens blindly
leave it in step (`Scan.BlindInStep`). The step lemma is `landsSoundly_round`; by induction on the
rounds left a scan in any frame keeps the invariant (`landsSoundly_within`), and by induction on the
run it holds of all states that are visited (`sound_of_visits`). -/

namespace ProofProse

namespace State

variable {s t : State}

theorem SameSource.keeps (h : s.SameSource t) : Keeps s t :=
  keeps_of_eq (by rw [h.1]) h.2.1 h.2.2

/-- The rest of a proof that is dropped is taken, and the files that end in it are left. -/
theorem keeps_abandonProof (s : State) : Keeps s s.abandonProof := by
  by_cases hproof : 0 < s.proofDepth
  · obtain ⟨taken, rest, hahead, habandon, -⟩ := abandonProof_spec hproof
    have htakes : Takes s { s with
        stream := ⟨rest, s.consumed + taken.length⟩
        includes := s.includes.leave (marks taken) } := ⟨taken, hahead, rfl⟩
    rw [habandon]
    exact fun hs => ⟨(htakes.keeps hs).inStep, hs.clean⟩
  · have hread : readProofRest s.proofDepth s.stream.ahead = ⟨(), s.stream.ahead, 0, 0⟩ := by
      unfold readProofRest
      rw [Nat.eq_zero_of_not_pos hproof, proofRestFrom_zero]
    refine keeps_of_eq ?_ ?_ rfl
    · unfold abandonProof
      rw [hread]
      rfl
    · unfold abandonProof
      rw [hread]
      rfl

theorem sound_ofSource (setting : Setting) (source path : String) :
    (State.ofSource setting source path).Sound :=
  ⟨marks_tokens source path setting.options.corrections, Dictionary.clean_empty⟩

end State

namespace Scan

open State

variable {setting : Setting} {first s t u : State} {fuel start : Nat} {frame inner' : Frame}

/-- Wherever the scan of the file can go on behind a computation the state is sound. Behind a proof
that is dropped it goes on from the end of the proof. -/
def LandsSoundly {α : Type} (m : Scan α) (s : State) : Prop :=
  (∀ a t, m s = .ok a t → t.Sound) ∧
  ∀ reason t, m s = .error (.drop reason) t → t.abandonProof.Sound

/-- Every round of a run that begins with a command that takes tokens blindly leaves the run in step:
the scan goes on in step, or the proof is dropped and the scan of the file goes on in step. -/
def BlindInStep (setting : Setting) (first : State) : Prop :=
  ∀ fuel frame start s, Visits setting first (fuel + 1) frame start s →
    passedLimit? setting frame start s = none → s.readsBlindly = true →
    (∀ t, round setting (Scan.inner setting fuel) frame s = .ok .goOn t → t.InStep) ∧
    ∀ reason t, round setting (Scan.inner setting fuel) frame s = .error (.drop reason) t →
      t.abandonProof.InStep

/-! ### One round -/

theorem keeps_closeAtOnce (frame : Frame) : Along Keeps (closeAtOnce frame) :=
  along_pure steady_keeps _

theorem sound_of_opens (hs : s.Sound) (hopens : Opens setting frame s inner' u) : u.Sound := by
  cases hblind : s.readsBlindly with
  | true =>
    obtain ⟨v, -, hclose | ⟨body, hbody, -⟩⟩ := round_of_readsBlindly setting frame hs hblind
    · exact absurd hclose hopens.not_const
    · exact absurd hbody hopens.not_const
  | false =>
    obtain ⟨t, hround, hsame⟩ := hopens.round_closeAtOnce
    have ht : (after (round setting closeAtOnce frame) s).Sound :=
      keeps_round keeps_closeAtOnce hblind hs
    rw [after_ok hround] at ht
    exact keeps_of_eq (by rw [hsame.1]) hsame.2.1.symm hsame.2.2.symm ht

section Landings

variable {α : Type} {m : Scan α}

theorem landsSoundly_of_ok {a : α} (h : m s = .ok a t) (ht : t.Sound) : LandsSoundly m s := by
  refine ⟨fun a' t' h' => ?_, fun reason t' h' => ?_⟩
  · rw [h] at h'
    cases h'
    exact ht
  · rw [h] at h'
    cases h'

theorem landsSoundly_of_error {i : Interrupt} (h : m s = .error i t)
    (ht : ∀ reason, i = .drop reason → t.abandonProof.Sound) : LandsSoundly m s := by
  refine ⟨fun a' t' h' => ?_, fun reason t' h' => ?_⟩
  · rw [h] at h'
    cases h'
  · rw [h] at h'
    cases h'
    exact ht reason rfl

theorem landsSoundly_of_sound (h : (after m s).Sound) : LandsSoundly m s := by
  cases hrun : m s with
  | ok a t =>
    rw [after_ok hrun] at h
    exact landsSoundly_of_ok hrun h
  | error i t =>
    rw [after_error hrun] at h
    exact landsSoundly_of_error hrun fun _ _ => keeps_abandonProof t h

end Landings

theorem landsSoundly_of_readsBlindly {nested : Frame → Scan Flow} (hs : s.Sound)
    (hreads : s.readsBlindly = true)
    (hgoOn : ∀ t, round setting nested frame s = .ok .goOn t → t.InStep)
    (hdrop : ∀ reason t, round setting nested frame s = .error (.drop reason) t →
      t.abandonProof.InStep) :
    LandsSoundly (round setting nested frame) s := by
  obtain ⟨u, hu, hclose | ⟨body, hbody, hclean⟩⟩ := round_of_readsBlindly setting frame hs hreads
  · exact landsSoundly_of_ok (hclose _) hu
  · have hfinishes : FinishesInStep body u := fun a t h => hgoOn t ((hbody _).trans (bind_ok h))
    have hafter := hclean hfinishes
    cases hrun : body u with
    | ok a t =>
      rw [after_ok hrun] at hafter
      exact landsSoundly_of_ok ((hbody _).trans (bind_ok hrun)) ⟨hfinishes a t hrun, hafter⟩
    | error i t =>
      have hround := (hbody nested).trans (bind_error hrun)
      rw [after_error hrun] at hafter
      refine landsSoundly_of_error hround ?_
      rintro reason rfl
      exact ⟨hdrop reason t hround, hafter⟩

theorem landsSoundly_of_opens {nested : Frame → Scan Flow} (hopens : Opens setting frame s inner' u)
    (hspan : LandsSoundly (nested inner') u) : LandsSoundly (round setting nested frame) s := by
  cases hrun : nested inner' u with
  | ok flow v =>
    obtain ⟨t, hround, hsame⟩ := hopens.round_ok hrun
    exact landsSoundly_of_ok hround (hsame.keeps (hspan.1 flow v hrun))
  | error i v =>
    obtain ⟨t, hround, -, habandon⟩ := hopens.round_error hrun
    refine landsSoundly_of_error hround ?_
    rintro reason rfl
    rw [habandon]
    exact hspan.2 reason v hrun

/-- **One round** of a run that blind commands leave in step lands soundly, if the scans of spans
do. -/
theorem landsSoundly_round (hblind : BlindInStep setting first)
    (hv : Visits setting first (fuel + 1) frame start s)
    (hlimit : passedLimit? setting frame start s = none) (hs : s.Sound)
    (hopened : ∀ inner' u, Opens setting frame s inner' u → u.Sound →
      LandsSoundly (Scan.inner setting fuel inner') u) :
    LandsSoundly (round setting (Scan.inner setting fuel) frame) s := by
  cases hreads : s.readsBlindly with
  | true =>
    obtain ⟨hgoOn, hdrop⟩ := hblind _ _ _ _ hv hlimit hreads
    exact landsSoundly_of_readsBlindly hs hreads hgoOn hdrop
  | false =>
    rcases opens_or_const setting frame s with ⟨inner', u, hopens⟩ | ⟨result, hconst⟩
    · exact landsSoundly_of_opens hopens (hopened inner' u hopens (sound_of_opens hs hopens))
    · have hclose : (after (round setting closeAtOnce frame) s).Sound :=
        keeps_round keeps_closeAtOnce hreads hs
      refine landsSoundly_of_sound ?_
      unfold after at *
      rw [hconst] at *
      exact hclose

/-! ### Whole runs -/

/-- By induction on the rounds left, a scan in any frame lands soundly. -/
theorem landsSoundly_within (hblind : BlindInStep setting first) : ∀ (fuel : Nat) (frame : Frame)
    (start : Nat) (s : State), Visits setting first fuel frame start s → s.Sound →
    LandsSoundly (within setting fuel frame start) s := by
  intro fuel
  induction fuel with
  | zero => exact fun frame start s _ _ => ⟨nofun, nofun⟩
  | succ fuel ih =>
    intro frame start s hv hs
    unfold LandsSoundly
    cases hlimit : passedLimit? setting frame start s with
    | some failure =>
      rw [within_limit hlimit]
      exact ⟨nofun, nofun⟩
    | none =>
      have hround := landsSoundly_round hblind hv hlimit hs fun inner' u hopens hu =>
        ih inner' u.consumed u (.opens hv hlimit hopens) hu
      by_cases hgoOn : ∃ t, round setting (Scan.inner setting fuel) frame s = .ok .goOn t
      · obtain ⟨t, ht⟩ := hgoOn
        rw [within_goOn hlimit ht]
        exact ih frame start t (.goOn hv hlimit ht) (hround.1 _ t ht)
      · rw [within_stop hlimit fun t ht => hgoOn ⟨t, ht⟩]
        exact hround

theorem sound_of_begins (hblind : BlindInStep setting first) (hfirst : first.Sound)
    (h : Begins setting first s) : s.Sound := by
  induction h with
  | first => exact hfirst
  | proofEnd hs h ih => exact (landsSoundly_within hblind _ _ _ _ (.begins hs) ih).1 _ _ h
  | dropped hs h ih => exact (landsSoundly_within hblind _ _ _ _ (.begins hs) ih).2 _ _ h

/-- **The invariant**: all states that are visited are sound. -/
theorem sound_of_visits (hblind : BlindInStep setting first) (hfirst : first.Sound)
    (h : Visits setting first fuel frame start s) : s.Sound := by
  induction h with
  | begins hs => exact sound_of_begins hblind hfirst hs
  | goOn hs hlimit h ih =>
    have hround := landsSoundly_round hblind hs hlimit ih fun inner' u hopens =>
      landsSoundly_within hblind _ _ _ u (.opens hs hlimit hopens)
    exact hround.1 _ _ h
  | opens hs hlimit h ih => exact sound_of_opens ih h

/-! ### Files that are looked for -/

/-- The effect of a command that is not structural and to which the source gives no meaning. -/
def effect? (dictionary : Dictionary) (name : String) : Option Effect :=
  if (Structural.ofName? name).isNone && (dictionary.find? name).isNone &&
      (dictionary.flagSetting? name).isNone && (dictionary.testedFlag? name).isNone &&
      !isBareTest name then Effect.ofName? name
  else none

theorem plainCommand_of_effect? {name : String} {effect : Effect}
    (h : effect? s.dictionary name = some effect) :
    plainCommand setting name s = applyEffect setting name effect s := by
  unfold effect? at h
  split at h
  · next hmeaning =>
    simp only [Bool.and_eq_true, Option.isNone_iff_eq_none, Bool.not_eq_true'] at hmeaning
    obtain ⟨⟨⟨⟨-, hfind⟩, hsetting⟩, htested⟩, hbare⟩ := hmeaning
    rw [plainCommand_meaning,
      (Dictionary.Means.effect hfind hsetting htested hbare h).meaning_eq]
    rfl
  · cases h

/-- Reads the names of packages, with the options before and behind them. -/
def packageNames : Scan String := do
  discard optionalArgument
  let names ← argumentText
  discard optionalArgument
  return names

theorem inclusion_package : inclusion setting .package = (do
    let names ← packageNames
    followPackages setting ((Text.split ',' names).map Text.trim)) := by
  simp [inclusion, packageNames]

/-- The round from `s` begins with a command that names a file, and looks for the file in `u`. -/
inductive LooksFor (s : State) : InclusionKind → String → State → Prop
  | input {name target : String} {rest : List Token} {u : State}
      (hs : s.stream.ahead = .control name :: rest)
      (hname : effect? s.dictionary name = some (.inclusion .input))
      (h : inputTarget { s with stream := ⟨rest, s.consumed + 1⟩ } = .ok target u) :
      LooksFor s .input target u
  | package {name target names : String} {rest : List Token} {u : State}
      (hs : s.stream.ahead = .control name :: rest)
      (hname : effect? s.dictionary name = some (.inclusion .package))
      (h : packageNames { s with stream := ⟨rest, s.consumed + 1⟩ } = .ok names u)
      (htarget : target ∈ (Text.split ',' names).map Text.trim) : LooksFor s .package target u

theorem takes_packageNames : Along Takes packageNames := by
  refine takes_optionalArgument.discard.bind steady_takes fun _ => ?_
  refine takes_argumentText.bind steady_takes fun names => ?_
  exact takes_optionalArgument.discard.bind steady_takes fun _ => along_pure steady_takes _

theorem LooksFor.inStep {kind : InclusionKind} {target : String} (h : LooksFor s kind target u)
    (hs : s.InStep) : u.InStep := by
  cases h with
  | input hahead _ hread =>
    exact ((takes_one hahead (by simp)).trans (takes_inputTarget.ok hread)).inStep hs
  | package hahead _ hread _ =>
    exact ((takes_one hahead (by simp)).trans (takes_packageNames.ok hread)).inStep hs

/-! ### The main file -/

theorem main_of_course (h : Course setting s t) : t.includes.main = s.includes.main := by
  induction h with
  | trans _ _ ih ih' => exact ih'.trans ih
  | emit s fragment => rw [(sameSource_emit s fragment).2.1]
  | openProof s _ =>
    unfold enterProof beginProof
    dsimp only
    split <;> rfl
  | math _ _ ih => exact ih
  | discarded _ _ ih => exact ih
  | _ => rfl

theorem main_of_begins (h : Begins setting first s) : s.includes.main = first.includes.main := by
  induction h with
  | first => rfl
  | @proofEnd s t _ _ h ih => exact (main_of_course ((course_within _ _ _).ok h)).trans ih
  | @dropped s t _ _ h ih => exact (main_of_course ((course_within _ _ _).error h)).trans ih

theorem main_of_visits (h : Visits setting first fuel frame start s) :
    s.includes.main = first.includes.main := by
  induction h with
  | begins hs => exact main_of_begins hs
  | goOn _ _ h ih => exact (main_of_course ((course_round (course_inner setting _) _).ok h)).trans ih
  | opens _ _ hopens ih =>
    have hclose : ∀ frame, Along (Course setting) (closeAtOnce frame) :=
      fun _ => along_pure steady_course _
    obtain ⟨t, hround, -, hincludes, -⟩ := hopens.round_closeAtOnce
    rw [← hincludes]
    exact (main_of_course ((course_round hclose _).ok hround)).trans ih

/-- **Included files in step with the tokens.** Every state that a run visits has as many ends of
files ahead as files are included inside one another, if and only if every round that begins with a
command that takes tokens blindly leaves the run in step. Then the main file alone is being read when
the tokens run out, and a file is looked for from the file in which the command that names it ends,
at the depth of that file. -/
theorem includes_inStep_iff (setting : Setting) (source path : String) :
    BlindInStep setting (.ofSource setting source path) ↔
      ∀ fuel frame start s, Visits setting (.ofSource setting source path) fuel frame start s →
        s.InStep ∧ (s.stream.ahead = [] → s.includes.toList = [path]) ∧
          ∀ kind target u, LooksFor s kind target u → u.InStep := by
  constructor
  · intro hblind fuel frame start s hv
    have hs := (sound_of_visits hblind (sound_ofSource setting source path) hv).inStep
    refine ⟨hs, fun hahead => ?_, fun kind target u h => h.inStep hs⟩
    have hmain : s.includes.main = path := main_of_visits hv
    have hinner : s.includes.inner = [] := by
      unfold InStep at hs
      rw [hahead] at hs
      exact List.eq_nil_of_length_eq_zero hs.symm
    unfold Includes.toList
    rw [hmain, hinner]
    rfl
  · intro h fuel frame start s hv hlimit _
    refine ⟨fun t ht => (h _ _ _ t (.goOn hv hlimit ht)).1, fun reason t ht => ?_⟩
    have hstop : ∀ t, round setting (Scan.inner setting fuel) frame s ≠ .ok .goOn t := by
      intro u hu
      rw [ht] at hu
      cases hu
    have hbegins := hv.begins_of_drop ((within_stop hlimit hstop).trans ht)
    exact (h _ _ _ _ (.begins hbegins)).1

end Scan

end ProofProse
