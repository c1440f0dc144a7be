import ProofProse.Proofs.Body
import ProofProse.Proofs.Words

/-! # Plain prose

Plain prose is characters and gaps. What it puts into the text of a proof is said by a rule over its
tokens alone, with one token in view (`proseText`): a gap is a space, a period at the end of a word is
set apart, and any other character is itself. The rule about capital letters behind mathematics never
applies, since no mark is in the draft (`Draft.Unmarked`).

A proof that holds plain prose has the normal form of this text (`renderChars_written`); blanks alone
make no proof. So a scan that stands in front of such a proof passes over it and comes to its text,
whatever stands behind it, and a file that is such a proof has this proof and nothing else
(`plain_prose_makes_proof`). -/

namespace ProofProse

/-! ### What plain prose says -/

namespace Token

/-- A character that is no blank, or a gap. -/
def isPlain : Token → Bool
  | char c => !Text.isBlank c
  | space => true
  | _ => false

/-- What a token of plain prose puts into the text, with the token behind it. -/
def prose (next? : Option Token) : Token → List Char
  | char c =>
    if c = '.' then if next?.any isAlphanumeric then ['.'] else [' ', '.']
    else [c]
  | _ => [' ']

end Token

/-- The text of plain prose, before blanks are collapsed. -/
def proseText : List Token → List Char
  | [] => []
  | t :: tokens => t.prose tokens.head? ++ proseText tokens

/-- The proof that plain prose makes: none of gaps alone, and otherwise one with the normal form of
its text, closed by a period where it ends in a letter. -/
def proseProof? (tokens : List Token) : Option Proof :=
  if ∀ t ∈ tokens, t = .space then none
  else
    let text := normalize (proseText tokens)
    some ⟨if text.getLast?.any Text.isAlphabetic then String.ofList text ++ " ."
      else String.ofList text⟩

variable {tokens : List Token} {t : Token} {next? : Option Token} {draft : Draft}

theorem Token.exists_prose (ht : t.isPlain) (hspace : t ≠ .space) (next? : Option Token) :
    ∃ c ∈ t.prose next?, Text.isBlank c = false := by
  cases t with
  | char c =>
    refine ⟨c, ?_, (Bool.not_eq_true' _).mp ht⟩
    unfold Token.prose
    dsimp only
    split
    · next hc =>
      subst hc
      split <;> simp
    · exact List.mem_singleton_self c
  | space => exact absurd rfl hspace
  | _ => cases ht

theorem normalize_proseText_eq_nil_iff (htokens : ∀ t ∈ tokens, t.isPlain) :
    normalize (proseText tokens) = [] ↔ ∀ t ∈ tokens, t = .space := by
  rw [Text.normalize_eq_nil_iff]
  induction tokens with
  | nil => exact ⟨fun _ => nofun, fun _ => nofun⟩
  | cons t tokens ih =>
    obtain ⟨ht, htokens⟩ := List.forall_mem_cons.mp htokens
    rw [proseText, List.forall_mem_append, List.forall_mem_cons, ih htokens]
    refine and_congr_left fun _ => ⟨fun hblank => ?_, ?_⟩
    · by_contra hspace
      obtain ⟨c, hc, hvisible⟩ := Token.exists_prose ht hspace tokens.head?
      rw [hblank c hc] at hvisible
      cases hvisible
    · rintro rfl
      exact List.forall_mem_singleton.mpr (by decide)

/-! ### What plain prose writes -/

namespace Draft

/-- No mark is in the draft. -/
def Unmarked (draft : Draft) : Prop := ∀ kind, Fragment.placeholder kind ∉ draft.newestFirst

theorem Unmarked.push {fragment : Fragment} (h : draft.Unmarked)
    (hfragment : ∀ kind, fragment ≠ .placeholder kind) : (draft.push fragment).Unmarked := by
  intro kind
  unfold Draft.push
  split
  · exact h kind
  · intro hmem
    rcases List.mem_cons.mp hmem with heq | hmem
    · exact hfragment kind heq.symm
    · exact h kind hmem

theorem Unmarked.endsInMathGap (h : draft.Unmarked) : draft.endsInMathGap = false := by
  unfold Draft.endsInMathGap
  split
  · next fragments hdraft =>
    refine absurd ?_ (h .math)
    rw [hdraft]
    exact List.mem_cons_of_mem _ List.mem_cons_self
  · rfl

theorem exists_write_eq_push (ht : t.isPlain) (hdraft : draft.Unmarked) (next? : Option Token) :
    ∃ fragment, draft.write t next? = draft.push fragment ∧ fragment.chars = t.prose next? ∧
      ∀ kind, fragment ≠ .placeholder kind := by
  cases t with
  | char c =>
    have hwrite : draft.write (.char c) next? = draft.addChar c next? := rfl
    have hgap := hdraft.endsInMathGap
    rw [hwrite]
    unfold addChar Token.prose
    by_cases hc : c = '.'
    · rw [if_pos (beq_iff_eq.mpr hc)]
      dsimp only
      rw [if_pos hc]
      split
      · exact ⟨.char '.', rfl, rfl, nofun⟩
      · exact ⟨.text " .", rfl, rfl, nofun⟩
    · rw [if_neg (by simpa using hc), hgap]
      dsimp only
      rw [if_neg hc]
      exact ⟨.char c, by simp, rfl, nofun⟩
  | space => exact ⟨.space, rfl, rfl, nofun⟩
  | _ => cases ht

end Draft

theorem bodyTokens_map_token (tokens : List Token) : bodyTokens (tokens.map .token) = tokens := by
  unfold bodyTokens
  rw [List.flatMap_map]
  exact List.flatMap_singleton' tokens

/-- **What is written** has the words of the text. By induction on the tokens, since no mark comes
into the draft. -/
theorem words_written : ∀ (tokens : List Token) (draft : Draft), (∀ t ∈ tokens, t.isPlain) →
    draft.Unmarked →
    Text.words ((written (tokens.map .token) draft).toList.flatMap Fragment.chars) =
      Text.words (draft.toList.flatMap Fragment.chars ++ proseText tokens)
  | [], draft, _, _ => by rw [proseText, List.append_nil]; rfl
  | t :: tokens, draft, htokens, hdraft => by
    obtain ⟨ht, htokens⟩ := List.forall_mem_cons.mp htokens
    obtain ⟨fragment, hwrite, hchars, hfragment⟩ :=
      Draft.exists_write_eq_push ht hdraft tokens.head?
    have hstep : written ((t :: tokens).map .token) draft =
        written (tokens.map .token) (draft.push fragment) := by
      rw [← hwrite]
      show written (tokens.map .token)
        (draft.write t (bodyTokens (tokens.map .token)).head?) = _
      rw [bodyTokens_map_token]
    rw [hstep, words_written tokens _ htokens (hdraft.push hfragment), Draft.words_push, hchars]
    rfl

theorem renderChars_written (htokens : ∀ t ∈ tokens, t.isPlain) :
    (written (tokens.map .token) {}).renderChars = normalize (proseText tokens) :=
  Text.normalize_congr (words_written tokens {} htokens nofun)

theorem proof?_written (htokens : ∀ t ∈ tokens, t.isPlain) :
    (written (tokens.map .token) {}).proof? = proseProof? tokens := by
  unfold proseProof?
  split
  · next hspaces =>
    have hnil := (normalize_proseText_eq_nil_iff htokens).mpr hspaces
    unfold Draft.proof?
    rw [renderChars_written htokens, hnil]
  · next hspaces =>
    have hne : normalize (proseText tokens) ≠ [] := fun h =>
      hspaces ((normalize_proseText_eq_nil_iff htokens).mp h)
    unfold Draft.proof?
    rw [renderChars_written htokens]
    split
    · next hnil => exact absurd hnil hne
    · exact congrArg (some <| Proof.mk ·) (Draft.ofList_closeSentence _)

/-! ### Reading plain prose -/

namespace Scan

open State

variable {setting : Setting} {path : String} {period : Bool} {behind : List Token}
  {consumed proofStart : Nat} {pieces : List Piece}

theorem isPlain_map_token {options : Options} (htokens : ∀ t ∈ tokens, t.isPlain) :
    ∀ piece ∈ tokens.map Piece.token, piece.IsPlain options := by
  intro piece hpiece
  obtain ⟨t, ht, rfl⟩ := List.mem_map.mp hpiece
  have hplain := htokens t ht
  cases t with
  | char c => trivial
  | space => trivial
  | _ => cases hplain

/-- **A proof is passed over** by the scan that stands in front of it, which comes to what its body
writes. -/
theorem scan_proofTokens (hpieces : ∀ piece ∈ pieces, piece.IsPlain setting.options)
    (hoption : NoOption (bodyTokens pieces))
    (hproof : (bodyTokens pieces).length ≤ setting.options.environmentLimit)
    (hfile : consumed + 8 + (bodyTokens pieces).length ≤ setting.options.fileLimit) :
    ∃ period', scan setting .file
        (outside path period (proofTokens (bodyTokens pieces) ++ behind) consumed proofStart) =
      .ok (.proofEnd (written pieces {}).proof?)
        (outside path period' behind (consumed + 8 + (bodyTokens pieces).length + 8)
          (consumed + 8)) := by
  let close := environmentTokens "end" "proof" ++ behind
  have hlist : proofTokens (bodyTokens pieces) ++ behind =
      environmentTokens "begin" "proof" ++ (bodyTokens pieces ++ close) := by
    unfold proofTokens
    rw [List.append_assoc, List.append_assoc]
  have hopen : NextRound setting .file 0
      (outside path period (environmentTokens "begin" "proof" ++ (bodyTokens pieces ++ close))
        consumed proofStart)
      (inBody path {} false (bodyTokens pieces ++ close) (consumed + 8) (consumed + 8)) :=
    ⟨passedLimit?_outside (by omega),
      round_openProof (noOption_append (noOption_closeProof behind) _ 0 hoption)⟩
  obtain ⟨period', hrounds⟩ : ∃ period', Rounds setting .file 0
      (inBody path {} false (bodyTokens pieces ++ close) (consumed + 8) (consumed + 8))
      (inBody path (written pieces {}) period' close (consumed + 8 + (bodyTokens pieces).length)
        (consumed + 8)) :=
    rounds_body ⟨rfl, rfl⟩ pieces {} false (consumed + 8) hpieces hfile (by omega)
  have hclose : round setting (scan setting) .file
      (inBody path (written pieces {}) period' close (consumed + 8 + (bodyTokens pieces).length)
        (consumed + 8)) =
      .ok (.proofEnd (written pieces {}).proof?) (outside path period' behind
        (consumed + 8 + (bodyTokens pieces).length + 8) (consumed + 8)) := round_closeProof
  have hstop : ∀ t, round setting (scan setting) .file
      (inBody path (written pieces {}) period' close (consumed + 8 + (bodyTokens pieces).length)
        (consumed + 8)) ≠ .ok .goOn t := fun t ht => by
    cases hclose.symm.trans ht
  refine ⟨period', ?_⟩
  rw [hlist, scan_file 0, Rounds.scanFrom_eq (.head hopen hrounds),
    scanFrom_stop (passedLimit?_inBody hfile (by omega)) hstop, hclose]

theorem scan_prose (htokens : ∀ t ∈ tokens, t.isPlain) (hoption : NoOption tokens)
    (hproof : tokens.length ≤ setting.options.environmentLimit)
    (hfile : consumed + 8 + tokens.length ≤ setting.options.fileLimit) :
    ∃ period', scan setting .file
        (outside path period (proofTokens tokens ++ behind) consumed proofStart) =
      .ok (.proofEnd (proseProof? tokens))
        (outside path period' behind (consumed + 8 + tokens.length + 8) (consumed + 8)) := by
  have hbody := bodyTokens_map_token tokens
  rw [← hbody] at hoption hproof hfile
  obtain ⟨period', hscan⟩ : ∃ period', scan setting .file
      (outside path period (proofTokens (bodyTokens _) ++ behind) consumed proofStart) = _ :=
    scan_proofTokens (isPlain_map_token htokens) hoption hproof hfile
  rw [hbody, proof?_written htokens] at hscan
  exact ⟨period', hscan⟩

end Scan

open Scan

theorem extraction_proofTokens {setting : Setting} (path : String) {tokens : List Token}
    (htokens : ∀ t ∈ tokens, t.isPlain) (hoption : NoOption tokens)
    (hproof : tokens.length ≤ setting.options.environmentLimit)
    (hfile : tokens.length + 16 ≤ setting.options.fileLimit) :
    ((State.start path (proofTokens tokens)).history setting).extraction = .ok
      { proofs := (proseProof? tokens).toList
        dropped := []
        warnings := []
        consumed := tokens.length + 16 } := by
  have hbody := bodyTokens_map_token tokens
  rw [← hbody] at hoption hproof hfile
  obtain ⟨period, hgoesOn⟩ :=
    goesOn_proofTokens path (isPlain_map_token htokens) hoption hproof hfile
  rw [hbody, proof?_written htokens] at hgoesOn
  rw [hgoesOn.extraction_eq (history_nil rfl (passedLimit?_outside (by rwa [hbody] at hfile)))]
  cases proseProof? tokens <;> rfl

/-- **Plain prose comes out complete and in order.** Let a proof hold characters that are no blanks
and gaps, and not begin with an argument in brackets. From outside any proof, within the limits, a
scan passes over it and comes to `proseProof?`, and leaves what stands behind it. So a file that is
such a proof has this proof or none, nothing is dropped, and there are no warnings. -/
theorem plain_prose_makes_proof (setting : Setting) (path : String) (tokens : List Token)
    (htokens : ∀ t ∈ tokens, t.isPlain) (hoption : NoOption tokens)
    (hproof : tokens.length ≤ setting.options.environmentLimit) :
    (∀ period behind consumed proofStart,
      consumed + 8 + tokens.length ≤ setting.options.fileLimit →
      ∃ period', scan setting .file
          (outside path period (proofTokens tokens ++ behind) consumed proofStart) =
        .ok (.proofEnd (proseProof? tokens))
          (outside path period' behind (consumed + 8 + tokens.length + 8) (consumed + 8))) ∧
    (tokens.length + 16 ≤ setting.options.fileLimit →
      ((State.start path (proofTokens tokens)).history setting).extraction = .ok
        { proofs := (proseProof? tokens).toList
          dropped := []
          warnings := []
          consumed := tokens.length + 16 }) := by
  exact ⟨fun _ _ _ _ hfile => scan_prose htokens hoption hproof hfile,
    extraction_proofTokens path htokens hoption hproof⟩

/-- Periods before a digit, before a gap and at the end, a capital, and gaps in a row. -/
def shortProse : List Token :=
  [.space, .char 'B', .char 'y', .space, .char '2', .char '.', .char '1', .char '.', .space, .space,
   .char 'S', .char 'o', .char '.', .space, .char 'Q']

/-- **A short proof** in plain prose, in a file and as a file. -/
theorem short_prose_makes_proof :
    (∀ t ∈ shortProse, t.isPlain) ∧ NoOption shortProse ∧
    shortProse.length ≤ Setting.alone.options.environmentLimit ∧
    (∃ period, scan .alone .file
        (outside "main.tex" true (proofTokens shortProse ++ [.char 'x']) 3 0) =
      .ok (.proofEnd (some ⟨"By 2.1 . So . Q ."⟩)) (outside "main.tex" period [.char 'x'] 34 11)) ∧
    ((State.start "main.tex" (proofTokens shortProse)).history .alone).extraction = .ok
      { proofs := [⟨"By 2.1 . So . Q ."⟩], dropped := [], warnings := [], consumed := 31 } := by
  have htokens : ∀ t ∈ shortProse, t.isPlain := by decide
  have hoption : NoOption shortProse := by
    intro offset h
    cases h
  have hproof : shortProse.length ≤ Setting.alone.options.environmentLimit := by decide
  have hproof? : proseProof? shortProse = some ⟨"By 2.1 . So . Q ."⟩ := by decide
  obtain ⟨hscan, hfile⟩ := plain_prose_makes_proof .alone "main.tex" shortProse htokens hoption hproof
  refine ⟨htokens, hoption, hproof, ?_, ?_⟩
  · have hfile : 3 + 8 + shortProse.length ≤ Setting.alone.options.fileLimit := by decide
    rw [← hproof?]
    exact hscan true [.char 'x'] 3 0 hfile
  · rw [hfile (by decide), hproof?]
    rfl

end ProofProse
