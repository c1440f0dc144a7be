import ProofProse.Proofs.Finishing
import ProofProse.Proofs.Flat
import ProofProse.Proofs.Span

/-! # Scans of words without a definition

A name that is frozen stays so for the rest of a run (`Course.isFrozen`). So where only characters
and frozen commands are ahead, none of them structural and none naming a file, every round leaves
fewer of them and adds nothing, and the scan ends by itself with a square of their number
(`finishes_fixed`).

A word by itself ends the scan with the one token that it is, when it is structural or has no
definition (`finishes_word`): with nothing behind it no command leaves anything ahead, unless it
ends the scan. -/

namespace ProofProse

/-! ### Frozen names -/

theorem Dictionary.Change.isFrozen {d e : Dictionary} {name : String} (h : d.Change e)
    (hd : d.isFrozen name = true) : e.isFrozen name = true := by
  cases h with
  | define h =>
    obtain ⟨hother, rfl⟩ := Dictionary.enter_of_define h
    exact Dictionary.isFrozen_enter_of_ne hother hd
  | rename h =>
    rcases Dictionary.enter_of_renameBuiltin h with rfl | ⟨hnew, rfl⟩
    · exact hd
    · exact Dictionary.isFrozen_freeze (Dictionary.isFrozen_enter_of_ne hnew hd)
  | setFlag flag value =>
    unfold Dictionary.setFlag
    split <;> exact hd
  | _ => exact hd

theorem Dictionary.Changes.isFrozen {d e : Dictionary} {name : String} (h : d.Changes e)
    (hd : d.isFrozen name = true) : e.isFrozen name = true := by
  induction h with
  | refl => exact hd
  | tail _ hchange ih => exact hchange.isFrozen ih

/-- **A frozen name** stays frozen. -/
theorem Course.isFrozen {setting : Setting} {s t : State} {name : String} (h : Course setting s t)
    (hs : s.dictionary.isFrozen name = true) : t.dictionary.isFrozen name = true :=
  h.changes.isFrozen hs

/-- A character, or a frozen command that is neither structural nor names a file. -/
def Token.IsFixed (dictionary : Dictionary) : Token → Prop
  | .char _ => True
  | .control name => Structural.ofName? name = none ∧ dictionary.isFrozen name = true ∧
      ∀ kind, Effect.ofName? name ≠ some (.inclusion kind)
  | _ => False

theorem Token.IsFixed.isFlat {dictionary : Dictionary} {x : Token} (h : x.IsFixed dictionary) :
    x.IsFlat := by
  cases x with
  | char c => trivial
  | control name => exact h.1
  | _ => exact h.elim

/-- All tokens ahead are characters and frozen commands. -/
def State.Fixed (s : State) : Prop := ∀ x ∈ s.stream.ahead, x.IsFixed s.dictionary

theorem Course.isFixed {setting : Setting} {s t : State} {x : Token} (h : Course setting s t)
    (hx : x.IsFixed s.dictionary) : x.IsFixed t.dictionary := by
  cases x with
  | char c => trivial
  | control name =>
    obtain ⟨hname, hfrozen, hinclusion⟩ := hx
    exact ⟨hname, h.isFrozen hfrozen, hinclusion⟩
  | _ => exact hx.elim

namespace Scan

open State

variable {setting : Setting} {library : Library} {nested : Frame → Scan Flow} {frame : Frame}
  {s : State} {name : String} {x : Token} {rest : List Token}

/-! ### Rounds -/

theorem round_cons (hs : s.stream.ahead = x :: rest) :
    round setting nested frame s =
      interpret setting nested frame x { s with stream := ⟨rest, s.consumed + 1⟩ } := by
  unfold round
  rw [bind_ok (next_cons hs)]

theorem sameSource_addChar (s : State) (c : Char) : s.SameSource (s.addChar c) := by
  unfold addChar
  split
  · split <;> exact sameSource_emit _ _
  split
  · exact (sameSource_emit _ _).trans (sameSource_emit _ _)
  · exact sameSource_emit _ _

theorem character_ok (c : Char) (s : State) :
    ∃ t, character c s = .ok () t ∧ s.SameSource t ∧ t.inProof = s.inProof := by
  have hproof : (s.addChar c).inProof = s.inProof := by
    unfold addChar inProof
    split
    · split <;> rw [emit_proofDepth]
    split
    · rw [emit_proofDepth, emit_proofDepth]
    · rw [emit_proofDepth]
  refine ⟨_, rfl, ?_⟩
  dsimp only
  split
  · exact ⟨⟨rfl, rfl, rfl⟩, rfl⟩
  split
  · exact ⟨sameSource_addChar s c, hproof⟩
  · exact ⟨⟨rfl, rfl, rfl⟩, rfl⟩

theorem command_file (setting : Setting) (nested : Frame → Scan Flow) (name : String) :
    command setting nested .file name =
      match Structural.ofName? name with
      | some kind => structural setting nested name .file kind
      | none => goingOn (plainCommand setting name) := rfl

/-! ### Characters and frozen commands -/

/-- A fixed token is interpreted by a computation that opens no span, takes no more than is ahead
and leaves no more there. -/
theorem spent_of_isFixed (hx : x.IsFixed s.dictionary) :
    ∃ body : Scan Unit, (∀ nested, interpret setting nested .file x = goingOn body) ∧
      s.Spent (after body s) := by
  cases x with
  | char c =>
    refine ⟨character c, fun _ => rfl, ?_⟩
    obtain ⟨t, ht, hsource, -⟩ := character_ok c s
    rw [after_ok ht]
    exact (spends_of_stream_eq hsource.1).spent
  | control name =>
    obtain ⟨hname, hfrozen, hinclusion⟩ := hx
    exact ⟨plainCommand setting name, fun _ => command_plain hname,
      spent_plainCommand (Dictionary.find?_of_isFrozen hfrozen) hinclusion⟩
  | _ => exact hx.elim

/-- **Characters and frozen commands** end by themselves. By induction on their number: a round
takes its token and no more than those behind it, and what is ahead then was ahead before. -/
theorem finishes_fixed : ∀ (n : Nat) (s : State), s.Fixed → s.stream.ahead.length ≤ n →
    s.Finishes library (n * n) := by
  intro n
  induction n with
  | zero =>
    intro s _ hlength
    exact finishes_nil (List.length_eq_zero_iff.mp (Nat.le_zero.mp hlength))
  | succ n ih =>
    intro s hs hlength
    cases hahead : s.stream.ahead with
    | nil => exact (finishes_nil hahead).mono (Nat.zero_le _)
    | cons x rest =>
      rw [hahead, List.length_cons] at hlength
      have hmem : ∀ y ∈ x :: rest, y.IsFixed s.dictionary := by
        rw [← hahead]
        exact hs
      have hx : x.IsFixed s.dictionary := hmem x List.mem_cons_self
      have hrest : ∀ y ∈ rest, y.IsFixed s.dictionary :=
        fun y hy => hmem y (List.mem_cons_of_mem x hy)
      let s' : State := { s with stream := ⟨rest, s.consumed + 1⟩ }
      have hbody : ∀ setting : Setting, ∃ body : Scan Unit,
          (∀ nested, round setting nested .file s = goingOn body s') ∧
            s'.Spent (after body s') := by
        intro setting
        have hx' : x.IsFixed s'.dictionary := hx
        obtain ⟨body, hinterpret, hspent⟩ := spent_of_isFixed hx'
        refine ⟨body, fun nested => ?_, hspent⟩
        rw [round_cons hahead]
        exact congrFun (hinterpret nested) s'
      refine finishes_of_const (fun options => ?_) fun options => ?_
      · obtain ⟨body, hround, -⟩ := hbody ⟨options, library⟩
        exact ⟨_, hround⟩
      · obtain ⟨body, hround, hspent⟩ := hbody ⟨options, library⟩
        have hcourse := course_round (along_closeAtOnce ⟨options, library⟩) .file s
        have hafter : after (round ⟨options, library⟩ closeAtOnce .file) s = after body s' := by
          rw [← after_goingOn body s']
          unfold after
          rw [hround]
        rw [hafter] at hcourse ⊢
        obtain ⟨hleft, hless, htaken⟩ := hspent fun y hy => (hrest y hy).isFlat
        have hless : (after body s').stream.ahead.length ≤ rest.length := hless
        have htaken : (after body s').consumed ≤ s.consumed + 1 + rest.length := htaken
        have hfixed : (after body s').Fixed := fun y hy => hcourse.isFixed (hrest y (hleft y hy))
        refine ⟨n * n, ih _ hfixed (by omega), ?_⟩
        have hsquare : (n + 1) * (n + 1) = n * n + n + n + 1 := by
          rw [Nat.succ_mul, Nat.mul_succ]
          omega
        omega

/-! ### Words with nothing behind them -/

/-- A computation takes nothing, and where it goes on nothing is ahead. -/
def Fades (m : Scan Flow) (s : State) : Prop :=
  (after m s).consumed = s.consumed ∧ ∀ t, m s = .ok .goOn t → t.stream.ahead = []

theorem fades_of_stays {m : Scan Flow} (hs : s.stream.ahead = []) (h : s.Stays (after m s)) :
    Fades m s := by
  have hstream := h hs
  refine ⟨congrArg Stream.consumed hstream, fun t ht => ?_⟩
  rw [after_ok ht] at hstream
  rw [hstream]
  exact hs

theorem stays_argumentText_bind {α : Type} {f : String → Scan α} :
    Along Stays (argumentText >>= f) := by
  intro s hs
  have htext : argumentText s = .error (s.endInterrupt "argument") s := bind_error (argument_nil hs)
  rw [after_bind_error htext]

theorem stays_skipMath (inner' : Frame) : Along Stays (skipMath setting closeAtOnce inner') := by
  intro s _
  have hskip := skipMath_eq setting closeAtOnce s inner'
  split at hskip
  · have hclose : skipMath setting closeAtOnce inner' s =
        .ok () s.enterMath.leaveMath.markMath := hskip
    rw [after_ok hclose]
    exact (sameSource_markMath s.enterMath.leaveMath).1
  · rw [after_error hskip]

/-- A command that opens or closes a proof goes back, but it ends the scan of a span then. -/
theorem fades_proofBoundary (name : String) {boundary : Scan Flow} (hs : s.stream.ahead = [])
    (h : Along Stays boundary) : Fades (proofBoundary name boundary) s := by
  have hget : proofBoundary name boundary s =
      (if s.inSpan then (do pushBackOne (.control name); return .close)
        else boundary : Scan Flow) s := rfl
  cases hspan : s.inSpan with
  | true =>
    have hback : proofBoundary name boundary s =
        .ok .close { s with stream := s.stream.pushBackOne (.control name) } := by
      rw [hget, hspan]
      rfl
    unfold Fades
    rw [after_ok hback, hback]
    exact ⟨rfl, fun t ht => by cases ht⟩
  | false =>
    have hstay : proofBoundary name boundary s = boundary s := by
      rw [hget, hspan]
      rfl
    have hboundary := fades_of_stays hs (h s)
    unfold Fades after at hboundary ⊢
    rw [hstay]
    exact hboundary

theorem fades_structural (name : String) (kind : Structural) (hs : s.stream.ahead = []) :
    Fades (structural setting closeAtOnce name .file kind) s := by
  have hstays : ∀ {m : Scan Flow}, Along Stays m → Fades m s := fun h => fades_of_stays hs (h s)
  cases kind with
  | openEnvironment => exact hstays stays_argumentText_bind
  | closeEnvironment => exact hstays stays_argumentText_bind
  | openInline => exact hstays (stays_skipMath .inline).goingOn
  | openDisplay => exact hstays (stays_skipMath .display).goingOn
  | endBranch => exact hstays (spends_skipBranch false).stays.goingOn
  | openProof =>
    have hopen : Along Spends openProof := by
      refine spends_optionalArgument.discard.bind steady_spends fun _ => ?_
      refine spends_modify fun s => ?_
      dsimp only
      split <;> rfl
    exact fades_proofBoundary name hs hopen.stays.goingOn
  | closeProof =>
    refine fades_proofBoundary name hs fun s _ => ?_
    rw [after_closeProof]
    rfl
  | endDocument => exact hstays (spends_pure Flow.endDocument).stays
  | endFile =>
    have hread : Along Spends (take fun _ => readFileRest) :=
      spends_take fun s _ => passes_fileRestFrom s.stream.ahead 0
    exact hstays hread.stays.goingOn
  | verbatim =>
    have hread : Along Spends (take fun _ => readInlineVerbatim) :=
      spends_take fun s _ => passes_readInlineVerbatim s.stream.ahead
    exact hstays hread.stays.goingOn
  | makeName =>
    have hread : Along Stays (take fun _ => readMadeName) := by
      intro s hs
      rw [after_ok (take_ok _ s), hs]
      exact congrArg (Stream.mk · s.consumed) hs.symm
    exact hstays hread.goingOn
  | takeToken => exact hstays spends_next.discard.stays.goingOn
  | openCode =>
    have hread : Along Spends (take fun _ => readCode codeEnd) :=
      spends_take fun s _ => passes_codeFrom codeEnd s.stream.ahead 0 0
    exact hstays hread.stays.goingOn
  | nothing => exact hstays (spends_pure Flow.goOn).stays

/-- **A word by itself** takes one token, when it is structural or has no definition. -/
theorem finishes_word
    (hname : Structural.ofName? name = none → s.dictionary.find? name = none)
    (hs : s.stream.ahead = [.control name]) : s.Finishes library 1 := by
  let s' : State := { s with stream := ⟨[], s.consumed + 1⟩ }
  have hround : ∀ setting : Setting, round setting closeAtOnce .file s =
      command setting closeAtOnce .file name s' := fun _ => round_cons hs
  have hfades : ∀ setting : Setting, Fades (command setting closeAtOnce .file name) s' := by
    intro setting
    cases hkind : Structural.ofName? name with
    | some kind =>
      rw [command_file, hkind]
      exact fades_structural name kind rfl
    | none =>
      rw [command_plain hkind]
      have hfind : s'.dictionary.find? name = none := hname hkind
      refine fades_of_stays rfl ?_
      rw [after_goingOn]
      exact stays_plainCommand hfind
  refine finishes_one (fun options => ?_) fun options t ht => ?_
  · unfold after
    rw [hround]
    exact (hfades ⟨options, library⟩).1
  · rw [hround] at ht
    exact (hfades ⟨options, library⟩).2 t ht

end Scan

end ProofProse
