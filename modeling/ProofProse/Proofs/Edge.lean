import ProofProse.Proofs.Line
import ProofProse.Proofs.Name
import ProofProse.Proofs.Resume
import ProofProse.Proofs.Span

/-! # Edges of proofs end open spans

Inside mathematics or a skipped environment a command that opens or closes a proof (an `Edge`) shows
that the span was never closed. The span ends there: the command is put back, written out plainly,
and the scan around the span meets it again, with the same name however the name was spelled
(`Meets.again`). In this way it ends all spans that stand open, one after the other from the inside
out, each by one more reading of the same tokens (`unwinds_of_meets`), and is carried out where no
span is open (`edges_end_open_spans`). -/

namespace ProofProse

/-! ### Names that are read again -/

namespace Text

theorem trimBy_of_ends {p : Char → Bool} {cs : List Char}
    (hhead : ∀ c, cs.head? = some c → p c = false)
    (hlast : ∀ c, cs.getLast? = some c → p c = false) : trimBy p cs = cs := by
  have hdrop : ∀ {ds : List Char}, (∀ c, ds.head? = some c → p c = false) →
      ds.dropWhile p = ds := by
    intro ds hds
    cases ds with
    | nil => rfl
    | cons d ds => rw [List.dropWhile_cons, if_neg (by simp [hds d rfl])]
  unfold trimBy
  rw [hdrop hhead, hdrop (by simpa using hlast), List.reverse_reverse]

theorem trimBy_trimBy (p : Char → Bool) (cs : List Char) : trimBy p (trimBy p cs) = trimBy p cs :=
  trimBy_of_ends (fun _ => trimBy_head) fun _ => trimBy_getLast

end Text

theorem Text.trim_trim (s : String) : Text.trim (Text.trim s) = Text.trim s := by
  unfold Text.trim
  rw [String.toList_ofList, Text.trimBy_trimBy]

/-- A text that is written out in characters is read without the blanks at its ends. -/
theorem plainText_written (s : String) : plainText (charTokens s) = Text.trim s := by
  unfold plainText charTokens
  rw [filter_chars, printed_chars, String.ofList_toList]

/-- The text of an argument, written out in characters, is that text again. -/
theorem plainText_charTokens (tokens : List Token) :
    plainText (charTokens (plainText tokens)) = plainText tokens := by
  rw [plainText_written]
  exact Text.trim_trim _

namespace Scan

variable {s t u v : State} {content : List Token} {name : String}

theorem argumentText_ok (h : argumentText s = .ok name u) :
    ∃ content, argument s = .ok content u ∧ name = plainText content := by
  unfold argumentText at h
  cases harg : argument s with
  | ok content t =>
    rw [bind_ok harg] at h
    cases h
    exact ⟨content, rfl, rfl⟩
  | error i t =>
    rw [bind_error harg] at h
    cases h

theorem argumentText_written {behind : List Token} (hname : plainText (charTokens name) = name)
    (hs : s.stream.ahead = .openGroup :: charTokens name ++ .closeGroup :: behind) :
    argumentText s = .ok name
      { s with stream := ⟨behind, s.consumed + (name.toList.length + 2)⟩ } := by
  have hplain : s.stream.ahead = plainGroup name.toList ++ behind := by
    simp [hs, plainGroup, charTokens]
  have harg : argument s = .ok (charTokens name) _ := argument_plain hplain
  unfold argumentText
  rw [bind_ok harg, hname]
  rfl

/-- Reading to the brace that closes a group depends on the stream, the files being read, and
whether a proof is open. -/
theorem balanced_congr {context : String} (hstream : v.stream = s.stream)
    (hincludes : v.includes = s.includes) (hproof : v.inProof = s.inProof)
    (h : balanced context s = .ok content u) :
    balanced context v = .ok content { v with stream := u.stream, includes := u.includes } := by
  unfold balanced at h ⊢
  rw [bind_ok (take_ok _ _)] at h ⊢
  rw [hstream, hincludes, hproof]
  cases hread : (readBalanced s.inProof s.stream.ahead).result with
  | closed tokens =>
    rw [hread] at h
    cases h
    rfl
  | runaway =>
    rw [hread] at h
    cases h
  | ended =>
    rw [hread] at h
    cases h

theorem argument_cons {x : Token} {rest : List Token}
    (hahead : s.stream.skipSpaces.ahead = x :: rest) :
    argument s =
      if x = .openGroup then
        balanced "argument" { s with stream := ⟨rest, s.stream.skipSpaces.consumed + 1⟩ }
      else if isBoundary x then
        .ok [] { s with stream := ⟨x :: rest, s.stream.skipSpaces.consumed + 1⟩ }
      else .ok [x] { s with stream := ⟨rest, s.stream.skipSpaces.consumed + 1⟩ } := by
  have hskip : onStream Stream.skipSpaces s = .ok () { s with stream := s.stream.skipSpaces } := rfl
  unfold argument
  rw [bind_ok hskip, bind_ok (next_cons hahead)]
  cases x with
  | openGroup => rw [if_pos rfl]; rfl
  | control name =>
    rw [if_neg nofun]
    dsimp only
    split <;> rfl
  | _ => rfl

theorem argument_congr (hstream : v.stream = s.stream) (hincludes : v.includes = s.includes)
    (hproof : v.inProof = s.inProof) (h : argument s = .ok content u) :
    argument v = .ok content { v with stream := u.stream, includes := u.includes } := by
  cases hahead : s.stream.skipSpaces.ahead with
  | nil =>
    have hskip : onStream Stream.skipSpaces s = .ok () { s with stream := s.stream.skipSpaces } := rfl
    unfold argument at h
    rw [bind_ok hskip, bind_ok (next_nil hahead)] at h
    cases h
  | cons x rest =>
    have hahead' : v.stream.skipSpaces.ahead = x :: rest := hstream ▸ hahead
    rw [argument_cons hahead] at h
    rw [argument_cons hahead', hstream]
    split at h
    · next hopen =>
      rw [if_pos hopen]
      refine balanced_congr (s := { s with stream := ⟨rest, s.stream.skipSpaces.consumed + 1⟩ })
        (v := { v with stream := ⟨rest, s.stream.skipSpaces.consumed + 1⟩ }) rfl hincludes hproof h
    · next hopen =>
      rw [if_neg hopen]
      split at h
      · next hboundary =>
        cases h
        rw [if_pos hboundary, ← hincludes]
      · next hboundary =>
        cases h
        rw [if_neg hboundary, ← hincludes]

theorem argumentText_congr (hstream : v.stream = s.stream) (hincludes : v.includes = s.includes)
    (hproof : v.inProof = s.inProof) (h : argumentText s = .ok name u) :
    argumentText v = .ok name { v with stream := u.stream, includes := u.includes } := by
  obtain ⟨content, harg, rfl⟩ := argumentText_ok h
  have hcongr := argument_congr hstream hincludes hproof harg
  unfold argumentText
  rw [bind_ok hcongr]
  rfl

end Scan

/-! ### Edges -/

open Scan

/-- What opens or closes a proof: a command of its own, or that of an environment. -/
inductive Edge where
  /-- The command that opens or closes a proof. -/
  | plain (opens : Bool)
  /-- The command that opens or closes an environment, with its name. -/
  | environment (opens : Bool) (name : String)
  deriving DecidableEq

namespace Edge

/-- Whether a proof is opened. -/
def opens : Edge → Bool
  | plain opens => opens
  | environment opens _ => opens

/-- The command of an edge. -/
def command : Edge → String
  | plain opens => if opens then "proof" else "endproof"
  | environment opens _ => if opens then "begin" else "end"

/-- An edge, written out plainly. -/
def tokens : Edge → List Token
  | plain opens => [.control (plain opens).command]
  | environment opens name => environmentTokens (environment opens name).command name

/-- What is done at an edge outside all spans. -/
def cross (e : Edge) : Scan Flow := if e.opens then goingOn openProof else closeProof

end Edge

/-- An edge is what comes next in `s`, however its name is spelled; `u` is the state behind it. -/
inductive Meets (s : State) : Edge → State → Prop
  | plain {opens : Bool} {behind : List Token}
      (h : s.stream.ahead = .control (Edge.plain opens).command :: behind) :
      Meets s (.plain opens) { s with stream := ⟨behind, s.consumed + 1⟩ }
  | environment {opens : Bool} {name : String} {behind : List Token} {u : State}
      (h : s.stream.ahead = .control (Edge.environment opens name).command :: behind)
      (hname : argumentText { s with stream := ⟨behind, s.consumed + 1⟩ } = .ok name u)
      (hproof : isProofName name = true) : Meets s (.environment opens name) u

section Meeting

variable {setting : Setting} {nested : Frame → Scan Flow} {frame : Frame} {s t u v : State} {e : Edge}

/-- Reading an edge takes tokens, and leaves the files that end among them. -/
theorem Meets.takes (h : Meets s e u) : s.Takes u := by
  cases h with
  | plain h => exact State.takes_one h (by simp)
  | environment h hname hproof =>
    exact (State.takes_one h (by simp)).trans (takes_argumentText.ok hname)

theorem Meets.congr (h : Meets s e u) (hstream : v.stream = s.stream)
    (hincludes : v.includes = s.includes) (hproof : v.inProof = s.inProof) :
    Meets v e { v with stream := u.stream, includes := u.includes } := by
  have hconsumed : v.consumed = s.consumed := congrArg Stream.consumed hstream
  cases h with
  | @plain opens behind h =>
    have hmeets : Meets v (.plain opens) _ := .plain (hstream ▸ h)
    rw [hconsumed] at hmeets
    rwa [hincludes.symm]
  | @environment opens name behind u h hname hp =>
    refine .environment (hstream ▸ h) ?_ hp
    rw [hconsumed]
    exact argumentText_congr (s := { s with stream := ⟨behind, s.consumed + 1⟩ })
      (v := { v with stream := ⟨behind, s.consumed + 1⟩ }) rfl hincludes hproof hname

/-- **An edge that was put back** is met again. -/
theorem Meets.again (h : Meets s e u) {behind : List Token}
    (hv : v.stream.ahead = e.tokens ++ behind) :
    Meets v e { v with stream := ⟨behind, v.consumed + e.tokens.length⟩ } := by
  cases h with
  | plain h => exact .plain hv
  | @environment opens name rest u h hname hproof =>
    obtain ⟨content, -, hcontent⟩ := argumentText_ok hname
    have hsame : plainText (charTokens name) = name := by
      rw [hcontent, plainText_charTokens]
    have hahead : v.stream.ahead = .control (Edge.environment opens name).command ::
        (.openGroup :: charTokens name ++ .closeGroup :: behind) := by
      simp [hv, Edge.tokens, environmentTokens]
    have hlength : (Edge.environment opens name).tokens.length = name.toList.length + 3 := by
      simp [Edge.tokens, environmentTokens, charTokens]
    have hcount : v.consumed + (Edge.environment opens name).tokens.length =
        v.consumed + 1 + (name.toList.length + 2) := by omega
    rw [hcount]
    exact .environment hahead (argumentText_written hsame rfl) hproof

theorem Frame.closedBy_command (e : Edge) (frame : Frame) : frame.closedBy e.command = false := by
  cases e with
  | plain opens => cases opens <;> cases frame <;> rfl
  | environment opens name => cases opens <;> cases frame <;> rfl

/-- What an edge is to the scan. -/
def Edge.structural : Edge → Structural
  | plain opens => if opens then .openProof else .closeProof
  | environment opens _ => if opens then .openEnvironment else .closeEnvironment

theorem Edge.ofName?_command (e : Edge) : Structural.ofName? e.command = some e.structural := by
  have hbegin : Structural.ofName? "begin" = some .openEnvironment :=
    Structural.ofName?_of_mem (by decide)
  have hend : Structural.ofName? "end" = some .closeEnvironment :=
    Structural.ofName?_of_mem (by decide)
  cases e with
  | plain opens => cases opens <;> exact Structural.ofName?_of_mem (by decide)
  | environment opens name =>
    cases opens with
    | true => exact hbegin
    | false => exact hend

theorem round_edge {behind : List Token} (h : s.stream.ahead = .control e.command :: behind) :
    round setting nested frame s =
      structural setting nested e.command frame e.structural
        { s with stream := ⟨behind, s.consumed + 1⟩ } := by
  unfold Scan.round
  rw [bind_ok (next_cons h)]
  show Scan.command setting nested frame e.command _ = _
  unfold Scan.command
  rw [Frame.closedBy_command, if_neg Bool.false_ne_true, e.ofName?_command]

theorem isProofName_ne_empty {name : String} (h : isProofName name = true) : name.isEmpty = false := by
  rw [Bool.eq_false_iff]
  intro hempty
  rw [String.isEmpty_iff.mp hempty] at h
  exact absurd h (by decide)

/-- What the round does when it has read an edge: inside a span the edge is put back and the span is
closed, outside it is carried out. -/
theorem Meets.round_eq (h : Meets s e u) (hframe : frame = .file ∨ frame.isOfSpan = true) :
    round setting nested frame s =
      if s.inSpan then .ok .close { u with stream := u.stream.pushBack e.tokens } else e.cross u := by
  cases h with
  | @plain opens behind h =>
    rw [round_edge h]
    cases opens with
    | true =>
      show proofBoundary _ (goingOn openProof) _ = _
      unfold proofBoundary
      rw [bind_ok (m := get) rfl]
      show (if s.inSpan = true then _ else _ : Scan Flow) _ = _
      split <;> rfl
    | false =>
      show proofBoundary _ closeProof _ = _
      unfold proofBoundary
      rw [bind_ok (m := get) rfl]
      show (if s.inSpan = true then _ else _ : Scan Flow) _ = _
      split <;> rfl
  | @environment opens name behind u h hname hproof =>
    have hspan : u.inSpan = s.inSpan := by
      obtain ⟨taken, -, hu⟩ := takes_argumentText.ok hname
      rw [hu]
      rfl
    rw [round_edge h]
    cases opens with
    | true =>
      show openEnvironment setting nested _ = _
      unfold openEnvironment
      rw [bind_ok hname, if_neg (ne_true_of_eq_false (isProofName_ne_empty hproof)),
        bind_ok (m := get) rfl, if_pos hproof, hspan]
      split <;> rfl
    | false =>
      have hname' : frame ≠ .environment name := by
        rintro rfl
        rcases hframe with hframe | hframe
        · cases hframe
        · rw [Frame.isOfSpan, hproof] at hframe
          cases hframe
      show closeEnvironment frame _ = _
      unfold closeEnvironment
      rw [bind_ok hname, if_neg hname', bind_ok (m := get) rfl, if_pos hproof, hspan]
      split <;> rfl

end Meeting

/-! ### Open spans -/

/-- The scans of some spans, innermost first, end one after the other; each is closed, and the scan
around it goes on from the state behind it. -/
inductive Unwinds (setting : Setting) : List Span → State → State → Prop
  | nil {s : State} : Unwinds setting [] s s
  | cons {span : Span} {spans : List Span} {s t u : State}
      (h : scanFrom setting span.frame span.start s = .ok .close t)
      (hrest : Unwinds setting spans (span.leave t) u) : Unwinds setting (span :: spans) s u

/-- On the way out of some spans a limit on tokens is passed. -/
inductive HitsLimit (setting : Setting) : List Span → State → Prop
  | here {span : Span} {spans : List Span} {s : State} {failure : Failure}
      (h : passedLimit? setting span.frame span.start s = some failure) :
      HitsLimit setting (span :: spans) s
  | later {span : Span} {spans : List Span} {s t : State}
      (h : scanFrom setting span.frame span.start s = .ok .close t)
      (hrest : HitsLimit setting spans (span.leave t)) : HitsLimit setting (span :: spans) s

/-- Adds the mark of mathematics if the outermost of some spans is mathematics. -/
def State.markOutermost (spans : List Span) (s : State) : State :=
  if spans.getLast?.any (·.isMath) then s.markMath else s

/-- The state `s` outside all spans, with another stream and other files being read. -/
def State.outside (s : State) (stream : Stream) (includes : Includes) : State :=
  { s with stream := stream, includes := includes, mathDepth := 0, discardDepth := 0 }

section Unwinding

variable {setting : Setting} {spans : List Span} {s t u : State} {e : Edge}

theorem Unwinds.resume_eq (h : Unwinds setting spans s t) (start : Nat) :
    resume setting start spans s = scanFrom setting .file start t := by
  induction h with
  | nil => rfl
  | @cons span spans s t u h hrest ih =>
    rw [← ih]
    show around setting start (span :: spans) (scanFrom setting span.frame span.start s) = _
    rw [h]
    rfl

theorem State.markMath_eq (s : State) : s.markMath = { s with draft := s.markMath.draft } := by
  have hemit : ∀ (s : State) (fragment : Fragment),
      s.emit fragment = { s with draft := (s.emit fragment).draft } := by
    intro s fragment
    unfold State.emit
    split <;> rfl
  unfold State.markMath
  dsimp only
  split
  · calc (s.emit (.placeholder .math)).emit (.text " .")
        = { s.emit (.placeholder .math) with
            draft := ((s.emit (.placeholder .math)).emit (.text " .")).draft } := hemit _ _
      _ = { s with draft := ((s.emit (.placeholder .math)).emit (.text " .")).draft } := by
        rw [hemit s]
  · exact hemit s _

theorem State.markMath_of_inSpan (h : s.inSpan = true) : s.markMath = s := by
  have hemit : ∀ fragment, s.emit fragment = s :=
    State.emit_of_not_capturing (State.capturing_eq_false h)
  unfold State.markMath
  simp [hemit]

theorem Fits.leave {span : Span} (h : Fits (span :: spans) s) : Fits spans (span.leave s) := by
  obtain ⟨hframes, hmath, hdiscarded⟩ := h
  have hrest : ∀ span ∈ spans, span.frame.isOfSpan = true := fun span hspan =>
    hframes span (List.mem_cons_of_mem _ hspan)
  cases span with
  | math frame start =>
    rw [List.countP_cons_of_pos rfl] at hmath
    rw [List.countP_cons_of_neg (by simp [Span.isMath])] at hdiscarded
    show Fits spans s.leaveMath.markMath
    rw [State.markMath_eq]
    refine ⟨hrest, ?_, hdiscarded⟩
    show s.mathDepth - 1 = _
    omega
  | discarded name start =>
    rw [List.countP_cons_of_neg (by simp [Span.isMath])] at hmath
    rw [List.countP_cons_of_pos rfl] at hdiscarded
    refine ⟨hrest, hmath, ?_⟩
    show s.discardDepth - 1 = _
    omega

/-- Behind an inner span no mark is added: the depths alone have changed. -/
theorem leave_eq_of_inSpan {span : Span} (h : (span.leave s).inSpan = true) :
    span.leave s = { s with
      mathDepth := (span.leave s).mathDepth, discardDepth := (span.leave s).discardDepth } := by
  cases span with
  | discarded name start => rfl
  | math frame start =>
    have hinSpan : s.leaveMath.inSpan = true := by
      have hmark : (s.leaveMath.markMath).inSpan = true := h
      rw [State.markMath_eq] at hmark
      exact hmark
    show s.leaveMath.markMath = { s with
      mathDepth := s.leaveMath.markMath.mathDepth, discardDepth := s.leaveMath.markMath.discardDepth }
    rw [State.markMath_of_inSpan hinSpan]
    rfl

theorem Fits.leave_last {span : Span} (h : Fits [span] s) :
    span.leave s = (s.outside s.stream s.includes).markOutermost [span] := by
  obtain ⟨-, hmath, hdiscarded⟩ := h
  cases span with
  | math frame start =>
    have hleave : s.leaveMath = s.outside s.stream s.includes := by
      unfold State.leaveMath State.outside
      rw [show s.mathDepth = 1 from hmath, show s.discardDepth = 0 from hdiscarded]
    show s.leaveMath.markMath = _
    rw [hleave]
    rfl
  | discarded name start =>
    have hleave : s.leaveDiscarded = s.outside s.stream s.includes := by
      unfold State.leaveDiscarded State.outside
      rw [show s.mathDepth = 0 from hmath, show s.discardDepth = 1 from hdiscarded]
    exact hleave

theorem scanFrom_of_meets {span : Span} (hmeets : Meets s e u) (hfits : Fits (span :: spans) s)
    (hlimit : passedLimit? setting span.frame span.start s = none) :
    scanFrom setting span.frame span.start s =
      .ok .close { s with stream := u.stream.pushBack e.tokens, includes := u.includes } := by
  have hput : { u with stream := u.stream.pushBack e.tokens } =
      { s with stream := u.stream.pushBack e.tokens, includes := u.includes } := by
    obtain ⟨taken, -, hu⟩ := hmeets.takes
    rw [hu]
  have hround : round setting (scan setting) span.frame s =
      .ok .close { s with stream := u.stream.pushBack e.tokens, includes := u.includes } := by
    rw [hmeets.round_eq (.inr (hfits.frames span List.mem_cons_self)),
      if_pos (hfits.inSpan (List.cons_ne_nil _ _)), hput]
  rw [scanFrom_stop hlimit (by rw [hround]; nofun), hround]

/-- **An edge ends all open spans**, unless a limit is passed on the way. By induction on the spans:
each is closed when it has read the edge, and puts it back for the scan around it. -/
theorem unwinds_of_meets (hspans : spans ≠ []) (hmeets : Meets s e u) (hfits : Fits spans s) :
    HitsLimit setting spans s ∨
      Unwinds setting spans s ((s.outside ⟨e.tokens ++ u.stream.ahead,
        u.consumed + (spans.length - 1) * e.tokens.length⟩ u.includes).markOutermost spans) := by
  induction spans generalizing s u with
  | nil => exact absurd rfl hspans
  | cons span spans ih =>
    cases hlimit : passedLimit? setting span.frame span.start s with
    | some failure => exact .inl (.here hlimit)
    | none =>
    have hclose := scanFrom_of_meets hmeets hfits hlimit
    obtain ⟨back, hback⟩ : ∃ back, back = { s with
      stream := u.stream.pushBack e.tokens, includes := u.includes } := ⟨_, rfl⟩
    rw [← hback] at hclose
    have hopen : Fits (span :: spans) back := by
      rw [hback]
      exact ⟨hfits.frames, hfits.math, hfits.discarded⟩
    by_cases hempty : spans = []
    · subst hempty
      have hstream : u.stream.pushBack e.tokens = ⟨e.tokens ++ u.stream.ahead,
          u.consumed + ([span].length - 1) * e.tokens.length⟩ := by simp [Stream.pushBack]; rfl
      refine .inr (.cons hclose ?_)
      rw [hopen.leave_last, hback, ← hstream]
      exact .nil
    · have hleft := leave_eq_of_inSpan (hopen.leave.inSpan hempty)
      have hstream : (span.leave back).stream = ⟨e.tokens ++ u.stream.ahead, u.consumed⟩ := by
        rw [hleft, hback]
        rfl
      have hconsumed : (span.leave back).consumed = u.consumed := by
        show (span.leave back).stream.consumed = _
        rw [hstream]
      have hagain := hmeets.again (v := span.leave back) (congrArg Stream.ahead hstream)
      rcases ih hempty hagain hopen.leave with hhits | hunwinds
      · exact .inl (.later hclose hhits)
      · have hlength : u.consumed + e.tokens.length + (spans.length - 1) * e.tokens.length =
            u.consumed + ((span :: spans).length - 1) * e.tokens.length := by
          obtain ⟨n, hn⟩ : ∃ n, spans.length = n + 1 :=
            Nat.exists_eq_succ_of_ne_zero (by simpa using hempty)
          rw [List.length_cons, hn, Nat.add_sub_cancel, Nat.add_sub_cancel, Nat.add_mul]
          omega
        have hend : (span.leave back).outside ⟨e.tokens ++ u.stream.ahead,
            (span.leave back).consumed + e.tokens.length + (spans.length - 1) * e.tokens.length⟩
              (span.leave back).includes =
            s.outside ⟨e.tokens ++ u.stream.ahead,
              u.consumed + ((span :: spans).length - 1) * e.tokens.length⟩ u.includes := by
          rw [hconsumed, hlength, hleft, hback]
          rfl
        have hlast : State.markOutermost (span :: spans) = State.markOutermost spans := by
          unfold State.markOutermost
          rw [List.getLast?_cons_of_ne_nil hempty]
        refine .inr (.cons hclose ?_)
        rw [hlast, ← hend]
        exact hunwinds

/-! ### Behind the spans -/

theorem markOutermost_eq (spans : List Span) (s : State) :
    s.markOutermost spans = { s with draft := (s.markOutermost spans).draft } := by
  unfold State.markOutermost
  split
  · exact s.markMath_eq
  · rfl

/-- Outside all spans text is kept inside a proof: where the outermost span is mathematics, its mark
is. -/
theorem draft_markOutermost (spans : List Span) (hs : s.inSpan = false) :
    (s.markOutermost spans).draft.toList = s.draft.toList ++
      if s.inProof && spans.getLast?.any (·.isMath) then mathMark s.finalPeriod else [] := by
  have hcapturing : s.capturing = s.inProof := by
    unfold State.capturing
    rw [hs, Bool.not_false, Bool.and_true]
  unfold State.markOutermost
  cases spans.getLast?.any (·.isMath) with
  | false => simp
  | true => rw [if_pos rfl, State.markMath_toList, hcapturing, Bool.and_true]

/-- **Edges of proofs end open spans.** Let some spans of mathematics and skipped environments stand
open, in frames of any kind, and let the next tokens be what opens or closes a proof, with the name
of the environment spelled in any way. Unless a limit on tokens is passed, the scans of all these
spans end, the innermost first, each with its span closed. Then only the edge has been read, once
more for each further span, and it is ahead again, written out plainly, with the same name. What is
behind it, the definitions, the warnings and all else of the state are as before, and so are the
files being read, but for those that end within the edge. The draft has gained the mark of one
mathematics, if the outermost span is one and stands in a proof, and nothing else. The scan of the
file goes on there (the whole scan, if it has come to this state in a run) and carries out the edge,
as it does when the edge is met there as it was spelled. -/
theorem edges_end_open_spans (setting : Setting) (hspans : spans ≠ []) (hmeets : Meets s e u)
    (hfits : Fits spans s) :
    HitsLimit setting spans s ∨
    ∃ t, Unwinds setting spans s t ∧
      (∀ start, resume setting start spans s = scanFrom setting .file start t) ∧
      (∀ s₀, Stands setting s₀ spans s →
        scan setting .file s₀ = scanFrom setting .file s₀.consumed t) ∧
      t.stream = ⟨e.tokens ++ u.stream.ahead,
        u.consumed + (spans.length - 1) * e.tokens.length⟩ ∧
      (∃ taken, s.stream.ahead = taken ++ u.stream.ahead ∧
        t.includes = s.includes.leave (marks taken)) ∧
      t.draft.toList = s.draft.toList ++
        (if s.inProof && spans.getLast?.any (·.isMath) then mathMark s.finalPeriod else []) ∧
      t = { s with
        stream := t.stream, includes := t.includes, draft := t.draft
        mathDepth := 0, discardDepth := 0 } ∧
      Meets t e { t with stream := ⟨u.stream.ahead, t.consumed + e.tokens.length⟩ } ∧
      ∀ nested,
        round setting nested .file t =
          e.cross { t with stream := ⟨u.stream.ahead, t.consumed + e.tokens.length⟩ } ∧
        round setting nested .file { t with stream := s.stream, includes := s.includes } =
          e.cross { t with stream := u.stream } := by
  rcases unwinds_of_meets hspans hmeets hfits with hhits | hunwinds
  · exact .inl hhits
  obtain ⟨out, hout⟩ : ∃ out, out = s.outside ⟨e.tokens ++ u.stream.ahead,
    u.consumed + (spans.length - 1) * e.tokens.length⟩ u.includes := ⟨_, rfl⟩
  obtain ⟨t, ht⟩ : ∃ t, t = out.markOutermost spans := ⟨_, rfl⟩
  rw [← hout, ← ht] at hunwinds
  have hmarked : t = { out with draft := t.draft } := by
    rw [ht]
    exact markOutermost_eq spans out
  have hspan : t.inSpan = false := by
    rw [hmarked, hout]
    rfl
  have hincludes : t.includes = u.includes := by
    rw [hmarked, hout]
    rfl
  have hstream : t.stream = ⟨e.tokens ++ u.stream.ahead,
      u.consumed + (spans.length - 1) * e.tokens.length⟩ := by
    rw [hmarked, hout]
    rfl
  have hproof : t.inProof = s.inProof := by
    rw [hmarked, hout]
    rfl
  have hagain := hmeets.again (v := t) (congrArg Stream.ahead hstream)
  have hmet : Meets { t with stream := s.stream, includes := s.includes } e
      { t with stream := u.stream, includes := u.includes } :=
    hmeets.congr (v := { t with stream := s.stream, includes := s.includes }) rfl rfl hproof
  refine .inr ⟨t, hunwinds, hunwinds.resume_eq, fun s₀ hstands => ?_, hstream, ?_, ?_, ?_, hagain,
    fun nested => ⟨?_, ?_⟩⟩
  · rw [← hstands.resume_eq]
    exact hunwinds.resume_eq _
  · obtain ⟨taken, hahead, hu⟩ := hmeets.takes
    exact ⟨taken, hahead, by rw [hincludes, hu]⟩
  · have hdraft := draft_markOutermost spans (s := out) (by rw [hout]; rfl)
    rw [ht, hdraft, hout]
    rfl
  · rw [hmarked, hout]
    rfl
  · rw [hagain.round_eq (.inl rfl), hspan, if_neg Bool.false_ne_true]
  · have hround : round setting nested .file { t with stream := s.stream, includes := s.includes } =
        if t.inSpan then _ else e.cross { t with stream := u.stream, includes := u.includes } :=
      hmet.round_eq (.inl rfl)
    rw [hround, hspan, if_neg Bool.false_ne_true, ← hincludes]

/-- A proof that ends inside mathematics, the name of the environment with a gap in its braces. -/
theorem mathematics_ends_with_its_proof :
    let s : State := { State.start "main.tex" (.control "end" :: .openGroup :: .space ::
      charTokens "proof" ++ [.closeGroup, .char 'x']) with
        mathDepth := 1, proofDepth := 1, finalPeriod := true }
    ∃ t, Unwinds .alone [.math .dollar 0] s t ∧
      t.draft.toList = [.placeholder .math, .text " ."] ∧
      t.stream.ahead = environmentTokens "end" "proof" ++ [.char 'x'] := by
  intro s
  have hname : argumentText { s with stream := ⟨s.stream.ahead.tail, 1⟩ } =
      .ok "proof" { s with stream := ⟨[.char 'x'], 9⟩ } := by
    have harg : argument { s with stream := ⟨s.stream.ahead.tail, 1⟩ } =
        .ok (.space :: charTokens "proof") { s with stream := ⟨[.char 'x'], 9⟩ } :=
      argument_group (by simp [charTokens, Token.StandsInGroup]) rfl
    have htext : plainText (.space :: charTokens "proof") = "proof" := by decide
    unfold argumentText
    rw [bind_ok harg, htext]
    rfl
  have hmeets : Meets s (.environment false "proof") { s with stream := ⟨[.char 'x'], 9⟩ } :=
    .environment rfl hname (by decide)
  have hfits : Fits [.math .dollar 0] s := ⟨by simp [Span.frame, Frame.isOfSpan], rfl, rfl⟩
  rcases edges_end_open_spans .alone (by simp) hmeets hfits with hhits | ⟨t, hend⟩
  · cases hhits with
    | here h => cases h
    | later _ h => cases h
  · obtain ⟨hunwinds, -, -, hstream, -, hdraft, -⟩ := hend
    exact ⟨t, hunwinds, hdraft, by rw [hstream]; rfl⟩

end Unwinding

end ProofProse
