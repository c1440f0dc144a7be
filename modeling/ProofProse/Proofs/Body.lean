import ProofProse.Proofs.Edge
import ProofProse.Proofs.Formula
import ProofProse.Proofs.Package

/-! # Bodies

A body is read by itself, as the body of one proof, or between the commands that open and close a
proof. The two scans begin and end in different ways, and where a rule looks one token ahead the last
token of the body sees the end of the tokens in one and a command in the other.

For bodies of prose and mathematics written plainly (`Piece`) what is written does not depend on that:
a scan goes through the body in rounds and writes `written`, whatever stands behind it that is neither
letter nor digit (`rounds_body`). So the text of the body is the text of the proof, but for the
period that closes it (`proof_text_is_body_text`). -/

namespace ProofProse

/-! ### What a body is made of -/

/-- A name without a meaning of its own. -/
def IsUnknown (name : String) : Prop :=
  Structural.ofName? name = none ∧ isBareTest name = false ∧ Effect.ofName? name = none

namespace Token

/-- A character, a gap, a brace, or a command without a meaning. -/
def IsProse : Token → Prop
  | char _ => True
  | space => True
  | active _ => True
  | openGroup => True
  | closeGroup => True
  | control name => IsUnknown name
  | _ => False

/-- A character or a gap. -/
def IsGlyph : Token → Prop
  | char _ => True
  | space => True
  | _ => False

end Token

/-- A piece of a body. -/
inductive Piece where
  /-- A token of prose. -/
  | token (t : Token)
  /-- Mathematics between two signs. -/
  | math (content : List Token)

/-- The tokens of a piece. -/
def Piece.tokens : Piece → List Token
  | token t => [t]
  | math content => .mathShift :: (content ++ [.mathShift])

/-- A piece is written plainly, and its mathematics is not too long. -/
def Piece.IsPlain (options : Options) : Piece → Prop
  | token t => t.IsProse
  | math content => content ≠ [] ∧ (∀ t ∈ content, t.IsGlyph) ∧
      content.length ≤ options.mathLimit ∧ 0 < options.skipDepth

/-- The tokens of a body. -/
def bodyTokens (pieces : List Piece) : List Token := pieces.flatMap Piece.tokens

/-- A proof with a body. -/
def proofTokens (body : List Token) : List Token :=
  Scan.environmentTokens "begin" "proof" ++ body ++ Scan.environmentTokens "end" "proof"

/-- What stands behind a body: its first token is neither letter nor digit. -/
def IsQuiet (behind : List Token) : Prop :=
  behind.head?.any Token.isAlphanumeric = false ∧ behind.head?.any Token.isSmallLetter = false

/-! ### What a body writes -/

namespace Draft

/-- Adds a character of prose, with the token behind it. -/
def addChar (draft : Draft) (c : Char) (next? : Option Token) : Draft :=
  if c == '.' then
    if next?.any Token.isAlphanumeric then draft.push (.char '.') else draft.push (.text " .")
  else if Text.isUppercase c && draft.endsInMathGap && next?.any Token.isSmallLetter then
    (draft.push (.text ". ")).push (.char c)
  else draft.push (.char c)

/-- Adds what a token of prose writes, with the token behind it. -/
def write (draft : Draft) (t : Token) (next? : Option Token) : Draft :=
  match t with
  | .char c => draft.addChar c next?
  | .space => draft.push .space
  | .active _ => draft.push .space
  | _ => draft

end Draft

/-- Whether what was last visible is a period, behind some characters and gaps. -/
def periodBehind (period : Bool) : List Token → Bool
  | [] => period
  | .char c :: tokens => periodBehind (c == '.') tokens
  | _ :: tokens => periodBehind period tokens

/-- Adds what a piece writes, with the token behind it. -/
def Draft.writePiece (draft : Draft) (next? : Option Token) : Piece → Draft
  | .token t => draft.write t next?
  | .math content => draft.markMath (periodBehind false content)

/-- The draft behind a body. -/
def written : List Piece → Draft → Draft
  | [], draft => draft
  | piece :: pieces, draft => written pieces (draft.writePiece (bodyTokens pieces).head? piece)

/-- The token behind a token counts only where it is a letter or digit. -/
theorem Draft.write_congr {next? next?' : Option Token}
    (halphanumeric : next?.any Token.isAlphanumeric = next?'.any Token.isAlphanumeric)
    (hsmall : next?.any Token.isSmallLetter = next?'.any Token.isSmallLetter) (draft : Draft)
    (t : Token) : draft.write t next? = draft.write t next?' := by
  cases t with
  | char c =>
    unfold write addChar
    dsimp only
    rw [halphanumeric, hsmall]
  | _ => rfl

theorem writePiece_append {behind : List Token} (h : IsQuiet behind) (draft : Draft)
    (piece : Piece) (tokens : List Token) :
    draft.writePiece (tokens ++ behind).head? piece = draft.writePiece tokens.head? piece := by
  cases piece with
  | math content => rfl
  | token t =>
    cases tokens with
    | nil => exact Draft.write_congr h.1 h.2 draft t
    | cons u tokens => rfl

/-! ### Rounds in a body -/

namespace State

/-- A state in the body of a proof. -/
def inBody (path : String) (draft : Draft) (period : Bool) (tokens : List Token)
    (consumed proofStart : Nat) : State where
  stream := ⟨tokens, consumed⟩
  includes := ⟨path, []⟩
  proofDepth := 1
  finalPeriod := period
  draft := draft
  proofStart := proofStart

variable {path : String} {draft : Draft} {period : Bool} {tokens : List Token}
  {consumed proofStart : Nat}

theorem addChar_inBody (c : Char) :
    (inBody path draft period tokens consumed proofStart).addChar c =
      inBody path (draft.addChar c tokens.head?) period tokens consumed proofStart := by
  unfold State.addChar Draft.addChar
  have hpeek : (inBody path draft period tokens consumed proofStart).stream.peek? = tokens.head? :=
    rfl
  have hdraft : (inBody path draft period tokens consumed proofStart).draft = draft := rfl
  rw [hpeek, hdraft]
  split
  · split <;> rfl
  split <;> rfl

end State

namespace Scan

open State

variable {setting : Setting} {nested : Frame → Scan Flow} {frame : Frame} {start : Nat} {s t : State}
  {path : String} {draft : Draft} {period : Bool} {consumed proofStart : Nat}
  {rest behind content : List Token} {x : Token} {pieces : List Piece}

theorem meaning_of_isUnknown {name : String} (h : IsUnknown name) :
    ({} : Dictionary).meaning name = .nothing := by
  have hflags : ∀ flag, ({} : Dictionary).flags.contains flag = false :=
    fun _ => Std.HashMap.contains_empty
  obtain ⟨-, hbare, heffect⟩ := h
  exact (Dictionary.Means.nothing (Dictionary.find?_empty name)
    (Dictionary.flagSetting?_of_noFlags hflags) (Dictionary.testedFlag?_of_noFlags hflags) hbare
    heffect).meaning_eq

/-- **A token of prose** is written in one round. -/
theorem round_prose (hx : x.IsProse) :
    round setting nested .file (inBody path draft period (x :: rest) consumed proofStart) =
      .ok .goOn
        (inBody path (draft.write x rest.head?) period rest (consumed + 1) proofStart) := by
  rw [round_cons rfl]
  show interpret setting nested .file x
    (inBody path draft period rest (consumed + 1) proofStart) = _
  cases x with
  | char c =>
    show EStateM.Result.ok Flow.goOn
      ((inBody path draft period rest (consumed + 1) proofStart).addChar c) = _
    rw [addChar_inBody]
    rfl
  | control name =>
    show command setting nested .file name _ = _
    rw [command_meaning hx.1]
    have hmeaning : (inBody path draft period rest (consumed + 1) proofStart).dictionary.meaning
        name = .nothing := meaning_of_isUnknown hx
    rw [hmeaning]
    rfl
  | space => rfl
  | active c => rfl
  | openGroup => rfl
  | closeGroup => rfl
  | _ => exact hx.elim

/-- Characters and gaps, each a part of a formula. -/
def glyphParts (content : List Token) : List Formula.Part := content.map .token

theorem tokens_glyphParts (content : List Token) : Formula.tokens (glyphParts content) = content := by
  unfold Formula.tokens glyphParts
  rw [List.flatMap_map]
  exact List.flatMap_singleton' content

theorem isPlain_glyphParts (d : Dictionary) (hglyphs : ∀ x ∈ content, x.IsGlyph) :
    ∀ part ∈ glyphParts content, part.IsPlain d := by
  intro part hpart
  obtain ⟨x, hx, rfl⟩ := List.mem_map.mp hpart
  have hglyph := hglyphs x hx
  cases x with
  | char c => trivial
  | space => trivial
  | _ => exact hglyph.elim

theorem endsInPeriod_glyphParts (hglyphs : ∀ x ∈ content, x.IsGlyph) :
    Formula.endsInPeriod (glyphParts content) = periodBehind false content := by
  have hfold : ∀ period, (glyphParts content).foldl Formula.Part.period period =
      periodBehind period content := by
    induction content with
    | nil => exact fun _ => rfl
    | cons x content ih =>
      intro period
      obtain ⟨hx, hcontent⟩ := List.forall_mem_cons.mp hglyphs
      cases x with
      | char c => exact ih hcontent _
      | space => exact ih hcontent _
      | _ => exact hx.elim
  exact hfold false

/-- **Mathematics** between two signs is read in one round, and leaves its mark. -/
theorem round_formula (hne : content ≠ []) (hglyphs : ∀ x ∈ content, x.IsGlyph)
    (hdepth : 0 < setting.options.skipDepth) (hmath : content.length ≤ setting.options.mathLimit)
    (hfile : consumed + 1 + content.length ≤ setting.options.fileLimit)
    (hproof : consumed + 1 + content.length ≤ proofStart + setting.options.environmentLimit) :
    round setting (scan setting) .file
        (inBody path draft period (.mathShift :: (content ++ .mathShift :: behind)) consumed
          proofStart) =
      .ok .goOn
        (inBody path (draft.markMath (periodBehind false content)) (periodBehind false content) behind
          (consumed + 1 + content.length + 1) proofStart) := by
  let s : State := inBody path draft period [] consumed proofStart
  have hparts : glyphParts content ≠ [] := fun h => hne (List.map_eq_nil_iff.mp h)
  have hmarks : marks content = 0 := by
    refine marks_eq_zero.mpr fun x hx hmark => ?_
    have hglyph := hglyphs x hx
    rw [hmark] at hglyph
    exact hglyph
  have hcount : s.consumed + (Formula.Marks.sign.opening ++ content ++
      Formula.Marks.sign.closing).length = consumed + 1 + content.length + 1 := by
    rw [List.length_append, List.length_append]
    show consumed + (1 + content.length + 1) = _
    omega
  rw [← tokens_glyphParts content] at hmath hfile hproof
  have hround : round setting (scan setting) .file (s.facing (Formula.Marks.sign.opening ++
      (Formula.tokens (glyphParts content) ++ (Formula.Marks.sign.closing ++ behind)))) =
        .ok .goOn (s.behindFormula .sign (glyphParts content) behind) :=
    round_behindFormula rfl (isPlain_glyphParts _ hglyphs) (fun _ => hparts) hdepth hmath hfile hproof
  unfold State.behindFormula at hround
  rw [tokens_glyphParts, endsInPeriod_glyphParts hglyphs, hmarks, hcount] at hround
  exact hround

theorem passedLimit?_inBody (hfile : consumed ≤ setting.options.fileLimit)
    (hproof : consumed ≤ proofStart + setting.options.environmentLimit) :
    passedLimit? setting .file start (inBody path draft period rest consumed proofStart) = none := by
  refine passedLimit?_eq_none_iff.mpr ⟨hfile, nofun, fun _ => ?_⟩
  show consumed - proofStart ≤ _
  omega

/-- **A piece** is read in one round. -/
theorem nextRound_piece {piece : Piece} (hpiece : piece.IsPlain setting.options)
    (hfile : consumed + piece.tokens.length ≤ setting.options.fileLimit)
    (hproof : consumed + piece.tokens.length ≤ proofStart + setting.options.environmentLimit) :
    ∃ period', NextRound setting .file start
      (inBody path draft period (piece.tokens ++ rest) consumed proofStart)
      (inBody path (draft.writePiece rest.head? piece) period' rest
        (consumed + piece.tokens.length) proofStart) := by
  have hlimit : passedLimit? setting .file start
      (inBody path draft period (piece.tokens ++ rest) consumed proofStart) = none :=
    passedLimit?_inBody (by omega) (by omega)
  cases piece with
  | token x => exact ⟨period, hlimit, round_prose hpiece⟩
  | math content =>
    obtain ⟨hne, hglyphs, hmath, hdepth⟩ := hpiece
    have hcount : consumed + (Piece.math content).tokens.length =
        consumed + 1 + content.length + 1 := by
      simp [Piece.tokens]
      omega
    have htokens : (Piece.math content).tokens ++ rest =
        .mathShift :: (content ++ .mathShift :: rest) := by
      simp [Piece.tokens]
    rw [hcount] at hfile hproof ⊢
    rw [htokens] at hlimit ⊢
    exact ⟨_, hlimit, round_formula hne hglyphs hdepth hmath (Nat.le_of_succ_le hfile)
      (Nat.le_of_succ_le hproof)⟩

/-- **A body** is read in rounds, whatever quiet tokens stand behind it, and writes the same. By
induction on its pieces. -/
theorem rounds_body (hquiet : IsQuiet behind) : ∀ (pieces : List Piece) (draft : Draft)
    (period : Bool) (consumed : Nat), (∀ piece ∈ pieces, piece.IsPlain setting.options) →
    consumed + (bodyTokens pieces).length ≤ setting.options.fileLimit →
    consumed + (bodyTokens pieces).length ≤ proofStart + setting.options.environmentLimit →
    ∃ period', Rounds setting .file start
      (inBody path draft period (bodyTokens pieces ++ behind) consumed proofStart)
      (inBody path (written pieces draft) period' behind
        (consumed + (bodyTokens pieces).length) proofStart) := by
  intro pieces
  induction pieces with
  | nil => exact fun draft period consumed _ _ _ => ⟨period, .refl⟩
  | cons piece pieces ih =>
    intro draft period consumed hpieces hfile hproof
    obtain ⟨hpiece, hrest⟩ := List.forall_mem_cons.mp hpieces
    have htokens : bodyTokens (piece :: pieces) = piece.tokens ++ bodyTokens pieces := rfl
    rw [htokens, List.length_append, ← Nat.add_assoc] at hfile hproof ⊢
    rw [List.append_assoc]
    obtain ⟨middle, hround⟩ : ∃ middle, NextRound setting .file start
        (inBody path draft period (piece.tokens ++ (bodyTokens pieces ++ behind)) consumed proofStart)
        (inBody path (draft.writePiece (bodyTokens pieces ++ behind).head? piece) middle
          (bodyTokens pieces ++ behind) (consumed + piece.tokens.length) proofStart) :=
      nextRound_piece hpiece (Nat.le_trans (Nat.le_add_right _ _) hfile)
        (Nat.le_trans (Nat.le_add_right _ _) hproof)
    rw [writePiece_append hquiet] at hround
    obtain ⟨period', hrounds⟩ := ih _ middle _ hrest hfile hproof
    exact ⟨period', .head hround hrounds⟩

/-! ### The body by itself -/

theorem scan_nil (hs : s.stream.ahead = []) (hlimit : passedLimit? setting .file 0 s = none) :
    scan setting .file s = .ok .endDocument s := by
  have hround : round setting (scan setting) .file s = .ok .endDocument s := round_nil hs
  have hstop : ∀ t, round setting (scan setting) .file s ≠ .ok .goOn t := fun t ht => by
    cases hround.symm.trans ht
  rw [scan_file 0, scanFrom_stop hlimit hstop, hround]

/-- **The body by itself** has the text that it writes. -/
theorem bodyWithin_bodyTokens (path : String)
    (hpieces : ∀ piece ∈ pieces, piece.IsPlain setting.options)
    (hfile : (bodyTokens pieces).length ≤ setting.options.fileLimit)
    (hproof : (bodyTokens pieces).length ≤ setting.options.environmentLimit) :
    (State.start path (bodyTokens pieces)).openBody.bodyWithin setting (rounds setting) =
      .ok (written pieces {}).render := by
  obtain ⟨period, hrounds⟩ : ∃ period, Rounds setting .file 0
      (inBody path {} false (bodyTokens pieces ++ []) 0 0)
      (inBody path (written pieces {}) period [] (0 + (bodyTokens pieces).length) 0) :=
    rounds_body ⟨rfl, rfl⟩ pieces {} false 0 hpieces (by omega) (by omega)
  have hopen : (State.start path (bodyTokens pieces)).openBody =
      inBody path {} false (bodyTokens pieces ++ []) 0 0 := by
    rw [List.append_nil]
    rfl
  have hscan : scan setting .file (State.start path (bodyTokens pieces)).openBody = .ok .endDocument
      (inBody path (written pieces {}) period [] (0 + (bodyTokens pieces).length) 0) := by
    rw [hopen, scan_file 0, hrounds.scanFrom_eq, ← scan_file 0]
    exact scan_nil rfl (passedLimit?_inBody (by omega) (by omega))
  show State.bodyWithin setting (setting.options.fileLimit + 1 + 1) _ = _
  unfold State.bodyWithin
  rw [hscan]
  rfl

/-! ### The body in a proof -/

/-- Tokens behind others are no argument in brackets if neither of them are one. -/
theorem noOption_append (hbehind : ∀ first offset,
      pastSpacesFrom? first behind ≠ some (offset, .char '[')) :
    ∀ (tokens : List Token) (first : Nat),
    (∀ offset, pastSpacesFrom? first tokens ≠ some (offset, .char '[')) →
    ∀ offset, pastSpacesFrom? first (tokens ++ behind) ≠ some (offset, .char '[')
  | [], first, _, offset => hbehind first offset
  | t :: tokens, first, h, offset => by
    unfold pastSpacesFrom? at h
    rw [List.cons_append]
    unfold pastSpacesFrom?
    split
    · next hspace =>
      simp only [if_pos hspace] at h
      exact noOption_append hbehind tokens (first + 1) h offset
    · next hspace =>
      simp only [if_neg hspace] at h
      exact h offset

theorem noOption_closeProof (tokens : List Token) (first offset : Nat) :
    pastSpacesFrom? first (environmentTokens "end" "proof" ++ tokens) ≠ some (offset, .char '[') :=
  fun h => by cases h

/-- A state outside proofs. -/
def outside (path : String) (period : Bool) (tokens : List Token) (consumed proofStart : Nat) :
    State :=
  { inBody path {} period tokens consumed proofStart with proofDepth := 0 }

theorem passedLimit?_outside (hfile : consumed ≤ setting.options.fileLimit) :
    passedLimit? setting .file start (outside path period rest consumed proofStart) = none :=
  passedLimit?_eq_none_iff.mpr ⟨hfile, nofun, nofun⟩

theorem openProof_ok (h : NoOption s.stream.ahead) : openProof s = .ok () s.enterProof := by
  unfold openProof
  rw [bind_ok (discard_ok (optionalArgument_none h))]
  rfl

theorem round_openProof (hoption : NoOption behind) :
    round setting nested .file
        (outside path period (environmentTokens "begin" "proof" ++ behind) consumed proofStart) =
      .ok .goOn (inBody path {} false behind (consumed + 8) (consumed + 8)) := by
  have hmeets : Meets
      (outside path period (environmentTokens "begin" "proof" ++ behind) consumed proofStart)
      (.environment true "proof") (outside path period behind (consumed + 8) proofStart) :=
    .environment rfl (argumentText_written (by decide) rfl) (by decide)
  rw [hmeets.round_eq (.inl rfl)]
  exact bind_ok (openProof_ok hoption)

theorem round_closeProof :
    round setting nested .file
        (inBody path draft period (environmentTokens "end" "proof" ++ behind) consumed proofStart) =
      .ok (.proofEnd draft.proof?) (outside path period behind (consumed + 8) proofStart) := by
  have hmeets : Meets
      (inBody path draft period (environmentTokens "end" "proof" ++ behind) consumed proofStart)
      (.environment false "proof") (inBody path draft period behind (consumed + 8) proofStart) :=
    .environment rfl (argumentText_written (by decide) rfl) (by decide)
  rw [hmeets.round_eq (.inl rfl)]
  rfl

theorem history_nil (hs : s.stream.ahead = []) (hlimit : passedLimit? setting .file 0 s = none) :
    s.history setting = ⟨[], none, s⟩ := by
  have hdrain : s.drain = s := by
    have hstream : s.stream.skipWhile (fun _ => true) = s.stream :=
      Stream.skipWhile_of_head fun x hx => by
        rw [hs] at hx
        cases hx
    unfold State.drain
    rw [hstream]
  have hnext : s.nextOutcome setting = (.ok none, s) := by
    rw [nextOutcome_succ]
    unfold State.nextWithin
    rw [scan_nil hs hlimit]
    exact congrArg (_, ·) hdrain
  show State.historyWithin setting [] (setting.options.fileLimit + 1 + 1) s = _
  unfold State.historyWithin
  rw [hnext]
  rfl

theorem Rounds.goesOn (h : Rounds setting .file start s t) : GoesOn setting s [] t := by
  refine goesOn_of_nextOutcome_eq (nextOutcome_congr ?_)
  rw [scan_file start, scan_file start, h.scanFrom_eq]

/-- **The body in a proof** is the one outcome of the run, if it has a text. -/
theorem goesOn_proofTokens (path : String)
    (hpieces : ∀ piece ∈ pieces, piece.IsPlain setting.options)
    (hoption : NoOption (bodyTokens pieces))
    (hproof : (bodyTokens pieces).length ≤ setting.options.environmentLimit)
    (hfile : (bodyTokens pieces).length + 16 ≤ setting.options.fileLimit) :
    ∃ period, GoesOn setting (.start path (proofTokens (bodyTokens pieces)))
      ((written pieces {}).proof?.map .completed).toList
      (outside path period [] ((bodyTokens pieces).length + 16) 8) := by
  have hstart : State.start path (proofTokens (bodyTokens pieces)) =
      outside path false (environmentTokens "begin" "proof" ++
        (bodyTokens pieces ++ environmentTokens "end" "proof")) 0 0 := by
    unfold proofTokens
    rw [List.append_assoc]
    rfl
  have hoption' : NoOption (bodyTokens pieces ++ environmentTokens "end" "proof") :=
    noOption_append (noOption_closeProof []) _ 0 hoption
  have hopen : NextRound setting .file 0
      (outside path false (environmentTokens "begin" "proof" ++
        (bodyTokens pieces ++ environmentTokens "end" "proof")) 0 0)
      (inBody path {} false (bodyTokens pieces ++ environmentTokens "end" "proof") 8 8) :=
    ⟨passedLimit?_outside (Nat.zero_le _), round_openProof hoption'⟩
  obtain ⟨period, hrounds⟩ : ∃ period, Rounds setting .file 0
      (inBody path {} false (bodyTokens pieces ++ environmentTokens "end" "proof") 8 8)
      (inBody path (written pieces {}) period (environmentTokens "end" "proof")
        (8 + (bodyTokens pieces).length) 8) :=
    rounds_body ⟨rfl, rfl⟩ pieces {} false 8 hpieces (by omega) (by omega)
  have hclose : Turn setting .file
      (inBody path (written pieces {}) period (environmentTokens "end" "proof")
        (8 + (bodyTokens pieces).length) 8)
      ((written pieces {}).proof?.map .completed)
      (outside path period [] (8 + (bodyTokens pieces).length + 8) 8) := .proofEnd round_closeProof
  have hlimit : passedLimit? setting .file 0
      (inBody path (written pieces {}) period (environmentTokens "end" "proof")
        (8 + (bodyTokens pieces).length) 8) = none :=
    passedLimit?_inBody (by omega) (by omega)
  have hcount : 8 + (bodyTokens pieces).length + 8 = (bodyTokens pieces).length + 16 := by omega
  rw [hcount] at hclose
  rw [hstart]
  exact ⟨period, (Rounds.goesOn (.head hopen hrounds)).trans (hclose.goesOn hlimit)⟩

end Scan

/-! ### The text of a proof -/

theorem Draft.ofList_closeSentence (cs : List Char) : String.ofList (closeSentence cs) =
    if cs.getLast?.any Text.isAlphabetic then String.ofList cs ++ " ." else String.ofList cs := by
  unfold closeSentence
  cases cs.getLast? with
  | none => rfl
  | some c =>
    dsimp only [Option.any_some]
    split
    · exact String.ofList_append
    · rfl

/-- A finished proof has the text of the draft, closed by a period where it ends in a letter. -/
theorem Draft.proof?_eq (draft : Draft) :
    draft.proof? =
      if draft.render = "" then none
      else some ⟨if draft.render.toList.getLast?.any Text.isAlphabetic then draft.render ++ " ."
        else draft.render⟩ := by
  unfold Draft.proof? Draft.render
  cases hchars : draft.renderChars with
  | nil => rfl
  | cons c cs =>
    have hne : String.ofList (c :: cs) ≠ "" := by simp
    rw [if_neg hne, String.toList_ofList, ← ofList_closeSentence]

/-- What is extracted from a run with given outcomes that was not given up. -/
theorem Scan.GoesOn.extraction_eq {setting : Setting} {s t : State} {outcomes : List Outcome}
    (h : GoesOn setting s outcomes t) (ht : t.history setting = ⟨[], none, t⟩) :
    (s.history setting).extraction = .ok
      { proofs := outcomes.filterMap Outcome.proof?
        dropped := outcomes.filterMap Outcome.reason?
        warnings := t.warnings.toList
        consumed := t.consumed } := by
  obtain ⟨houtcomes, hfailure, hlast⟩ := h
  rw [ht] at houtcomes hfailure hlast
  have hsteps : (s.history setting).steps.map (·.outcome) = outcomes := by
    rw [houtcomes]
    exact List.append_nil _
  unfold History.extraction
  rw [hfailure, hlast, ← hsteps, List.filterMap_map, List.filterMap_map]
  rfl

open Scan

/-- **The text of a body is the text of its proof.** Let a body consist of characters, gaps, braces,
commands without a meaning, and mathematics of characters and gaps, and not begin with an argument
in brackets. Within the limits it has a text. When it is read as the body of a proof there is no
proof if this text is empty, and otherwise one, with this text, and a period behind it where it ends
in a letter; nothing is dropped, and there are no warnings. -/
theorem proof_text_is_body_text (setting : Setting) (path : String) (pieces : List Piece)
    (hpieces : ∀ piece ∈ pieces, piece.IsPlain setting.options)
    (hoption : NoOption (bodyTokens pieces))
    (hproof : (bodyTokens pieces).length ≤ setting.options.environmentLimit)
    (hfile : (bodyTokens pieces).length + 16 ≤ setting.options.fileLimit) :
    ∃ text,
      (State.start path (bodyTokens pieces)).openBody.bodyWithin setting (rounds setting) = .ok text ∧
      ((State.start path (proofTokens (bodyTokens pieces))).history setting).extraction = .ok
        { proofs := if text = "" then []
            else [⟨if text.toList.getLast?.any Text.isAlphabetic then text ++ " ." else text⟩]
          dropped := []
          warnings := []
          consumed := (bodyTokens pieces).length + 16 } := by
  obtain ⟨period, hgoesOn⟩ := goesOn_proofTokens path hpieces hoption hproof hfile
  refine ⟨(written pieces {}).render,
    bodyWithin_bodyTokens path hpieces (Nat.le_of_add_right_le hfile) hproof, ?_⟩
  rw [hgoesOn.extraction_eq (history_nil rfl (passedLimit?_outside hfile)), Draft.proof?_eq]
  split <;> rfl

/-- Some words with mathematics, a tie and a group behind a command without a meaning. -/
def shortBody : List Piece :=
  [.token (.char 'S'), .token (.char 'o'), .token .space, .math [.char 'x'], .token (.active '~'),
   .token (.control "unheard"), .token .openGroup, .token (.char 'W'), .token (.char 'e'),
   .token .closeGroup]

theorem isUnknown_unheard : IsUnknown "unheard" :=
  ⟨Structural.ofName?_eq_none_iff.mpr (by decide), rfl, Effect.ofName?_eq_none (by decide +kernel)⟩

theorem isPlain_shortBody : ∀ piece ∈ shortBody, piece.IsPlain Setting.alone.options := by
  have hmath : (Piece.math [.char 'x']).IsPlain Setting.alone.options :=
    ⟨List.cons_ne_nil _ _, List.forall_mem_singleton.mpr trivial, by decide, by decide⟩
  simp only [shortBody, List.forall_mem_cons]
  exact ⟨trivial, trivial, trivial, hmath, trivial, isUnknown_unheard, trivial, trivial, trivial,
    trivial, nofun⟩

/-- **A short body**, by itself and in a proof. -/
theorem short_body_in_a_proof :
    (∀ piece ∈ shortBody, piece.IsPlain Setting.alone.options) ∧ NoOption (bodyTokens shortBody) ∧
    (bodyTokens shortBody).length ≤ Setting.alone.options.environmentLimit ∧
    (bodyTokens shortBody).length + 16 ≤ Setting.alone.options.fileLimit ∧
    (State.start "main.tex" (bodyTokens shortBody)).openBody.bodyWithin .alone (rounds .alone) =
      .ok "So MATH . We" ∧
    ((State.start "main.tex" (proofTokens (bodyTokens shortBody))).history .alone).extraction =
      .ok { proofs := [⟨"So MATH . We ."⟩], dropped := [], warnings := [], consumed := 28 } := by
  have hoption : NoOption (bodyTokens shortBody) := by
    intro offset h
    cases h
  have hproof : (bodyTokens shortBody).length ≤ Setting.alone.options.environmentLimit := by decide
  have hfile : (bodyTokens shortBody).length + 16 ≤ Setting.alone.options.fileLimit := by decide
  obtain ⟨text, hbody, hextract⟩ := proof_text_is_body_text .alone "main.tex" shortBody
    isPlain_shortBody hoption hproof hfile
  have hwritten : (written shortBody {}).render = "So MATH . We" := by decide
  have htext : text = "So MATH . We" := by
    rw [bodyWithin_bodyTokens "main.tex" isPlain_shortBody (by decide) hproof, hwritten] at hbody
    exact (Except.ok.inj hbody).symm
  subst htext
  refine ⟨isPlain_shortBody, hoption, hproof, hfile, hbody, ?_⟩
  rw [hextract]
  rfl

end ProofProse
