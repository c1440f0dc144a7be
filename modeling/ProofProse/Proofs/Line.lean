import Mathlib.Data.List.Chain
import ProofProse.Batch.Output
import ProofProse.Proofs.Ending
import ProofProse.Text.Search

/-! # Proofs are lines

The text of a proof is put together from characters, accents, literals and markers of any kind. What
comes out is a line (`Text.IsLine`): it is not empty, no blank stands at its ends, and the only blank
in it is the space, never two in a row. Collapsing runs of blanks makes the inside of a text so
(`Text.spaced_collapseBlanks`), trimming makes its ends so (`Text.trimBy_head`,
`Text.trimBy_getLast`), and the period that closes a sentence keeps it so
(`Draft.isLine_closeSentence`).

Every proof that a run completes is the text of a draft (`Scan.completes_within`), so it is a line,
and a file of proofs is cut into the same proofs again (`proofs_are_lines`). -/

namespace ProofProse

namespace Text

variable {p : Char → Bool} {c : Char} {cs ds : List Char}

/-! ### Texts with single spaces -/

/-- The only blank in a text is the space, and no two spaces stand side by side. -/
structure Spaced (cs : List Char) : Prop where
  blank : ∀ c ∈ cs, isBlank c = true → c = ' '
  single : cs.IsChain fun c d => isBlank c = false ∨ isBlank d = false

/-- A line of text. -/
structure IsLine (cs : List Char) : Prop extends Spaced cs where
  ne_nil : cs ≠ []
  head : ∀ c, cs.head? = some c → isBlank c = false
  last : ∀ c, cs.getLast? = some c → isBlank c = false

theorem spaced_nil : Spaced [] := ⟨nofun, .nil⟩

theorem Spaced.of_isInfix (h : Spaced ds) (hcs : cs <:+: ds) : Spaced cs :=
  ⟨fun c hc => h.blank c (hcs.subset hc), h.single.infix hcs⟩

theorem Spaced.reverse (h : Spaced cs) : Spaced cs.reverse := by
  refine ⟨fun c hc => h.blank c (List.mem_reverse.mp hc), List.isChain_reverse.mpr ?_⟩
  exact h.single.imp fun c d hcd => hcd.symm

theorem Spaced.cons (h : Spaced cs) (hc : isBlank c = true → c = ' ')
    (hcs : ∀ d, cs.head? = some d → isBlank c = false ∨ isBlank d = false) : Spaced (c :: cs) := by
  refine ⟨fun d hd => ?_, List.isChain_cons.mpr ⟨hcs, h.single⟩⟩
  rcases List.mem_cons.mp hd with rfl | hd
  · exact hc
  · exact h.blank d hd

/-! ### Collapsing -/

/-- What has been written ends in a space exactly while a run of blanks is being read. -/
theorem spaced_collapseFrom : ∀ (cs : List Char) (gap : Bool) (out : List Char), Spaced out →
    (∀ d, out.head? = some d → isBlank d = gap) → Spaced (collapseFrom gap out cs)
  | [], _, _, hout, _ => hout.reverse
  | c :: cs, gap, out, hout, hhead => by
    unfold collapseFrom
    split
    · have hspace : isBlank ' ' = true := by decide
      cases gap with
      | true => exact spaced_collapseFrom cs true out hout hhead
      | false =>
        refine spaced_collapseFrom cs true (' ' :: out) ?_ ?_
        · exact hout.cons (fun _ => rfl) fun d hd => .inr (hhead d hd)
        · rintro d ⟨⟩
          exact hspace
    · next hc =>
      have hc : isBlank c = false := Bool.eq_false_iff.mpr hc
      refine spaced_collapseFrom cs false (c :: out) ?_ ?_
      · refine hout.cons (fun hblank => ?_) fun _ _ => .inl hc
        rw [hc] at hblank
        cases hblank
      · rintro d ⟨⟩
        exact hc

theorem spaced_collapseBlanks (cs : List Char) : Spaced (collapseBlanks cs) :=
  spaced_collapseFrom cs false [] spaced_nil nofun

/-! ### Trimming -/

theorem trimBy_isPrefix (p : Char → Bool) (cs : List Char) : trimBy p cs <+: cs.dropWhile p := by
  have hback : (cs.dropWhile p).reverse.dropWhile p <:+ (cs.dropWhile p).reverse :=
    List.dropWhile_suffix p
  have hprefix := List.reverse_prefix.mpr hback
  rwa [List.reverse_reverse] at hprefix

theorem trimBy_isInfix (p : Char → Bool) (cs : List Char) : trimBy p cs <:+: cs := by
  have hfront : cs.dropWhile p <:+ cs := List.dropWhile_suffix p
  exact (trimBy_isPrefix p cs).isInfix.trans hfront.isInfix

theorem head?_dropWhile (h : (cs.dropWhile p).head? = some c) : p c = false := by
  induction cs with
  | nil => cases h
  | cons d ds ih =>
    rw [List.dropWhile_cons] at h
    split at h
    · exact ih h
    · next hd =>
      cases h
      exact Bool.eq_false_iff.mpr hd

theorem trimBy_getLast (h : (trimBy p cs).getLast? = some c) : p c = false := by
  unfold trimBy at h
  rw [List.getLast?_reverse] at h
  exact head?_dropWhile h

theorem trimBy_head (h : (trimBy p cs).head? = some c) : p c = false := by
  obtain ⟨rest, hrest⟩ := trimBy_isPrefix p cs
  have hdrop : (cs.dropWhile p).head? = some c := by
    rw [← hrest, List.head?_append, h]
    rfl
  exact head?_dropWhile hdrop

/-- **A text in normal form** is empty or a line. -/
theorem isLine_normalize (h : normalize cs ≠ []) : IsLine (normalize cs) where
  toSpaced := (spaced_collapseBlanks cs).of_isInfix (trimBy_isInfix _ _)
  ne_nil := h
  head _ := trimBy_head
  last _ := trimBy_getLast

/-! ### Lines of a file -/

theorem IsLine.newline_notMem (h : IsLine cs) : '\n' ∉ cs := by
  intro hmem
  have hblank : isBlank '\n' = true := by decide
  exact absurd (h.blank _ hmem hblank) (by decide)

theorem IsLine.last_ne_return (h : IsLine cs) : cs.getLast? ≠ some '\r' := fun hlast =>
  absurd (h.last _ hlast) (by decide)

theorem closeLine_reverse (h : cs.getLast? ≠ some '\r') : closeLine cs.reverse = cs := by
  unfold closeLine
  split
  · next line hline =>
    rw [← List.head?_reverse, hline] at h
    exact absurd rfl h
  · exact List.reverse_reverse cs

theorem linesFrom_append : ∀ (cs line behind : List Char), '\n' ∉ cs →
    linesFrom line (cs ++ behind) = linesFrom (cs.reverse ++ line) behind
  | [], _, _, _ => rfl
  | c :: cs, line, behind, h => by
    have hc : c ≠ '\n' := fun heq => h (heq ▸ List.mem_cons_self)
    have hcs : '\n' ∉ cs := fun hmem => h (List.mem_cons_of_mem c hmem)
    have hstep : linesFrom line (c :: cs ++ behind) = linesFrom (c :: line) (cs ++ behind) := by
      rw [List.cons_append, linesFrom]
      exact hc
    rw [hstep, linesFrom_append cs (c :: line) behind hcs]
    simp

theorem lines_newline (h : '\n' ∉ cs) (behind : List Char) :
    lines (cs ++ '\n' :: behind) = closeLine cs.reverse :: lines behind := by
  unfold lines
  rw [linesFrom_append cs [] _ h, List.append_nil, linesFrom]

/-- **Lines that are written one after the other** are read as they were. -/
theorem lines_unlines : ∀ ls : List (List Char), (∀ l ∈ ls, IsLine l) → lines (unlines ls) = ls
  | [], _ => rfl
  | l :: ls, h => by
    have hl := h l List.mem_cons_self
    have hls := lines_unlines ls fun l' hl' => h l' (List.mem_cons_of_mem l hl')
    have hcut : unlines (l :: ls) = l ++ '\n' :: unlines ls := by simp [unlines]
    rw [hcut, lines_newline hl.newline_notMem, closeLine_reverse hl.last_ne_return, hls]

end Text

/-! ### Finished proofs -/

/-- The text of a proof is a line that does not end in a letter. -/
structure Proof.IsLine (proof : Proof) : Prop extends Text.IsLine proof.text.toList where
  closed : ∀ c, proof.text.toList.getLast? = some c → Text.isAlphabetic c = false

namespace Draft

variable {cs : List Char} {draft : Draft} {proof : Proof}

/-- A period behind a line that ends in a letter is set apart by one space. -/
theorem isLine_closeSentence (h : Text.IsLine cs) : Text.IsLine (closeSentence cs) := by
  unfold closeSentence
  split
  · next c hlast =>
    split
    · have hperiod : Text.isBlank '.' = false := by decide
      have hend : Text.Spaced (' ' :: ['.']) := by
        refine Text.Spaced.cons ⟨?_, .singleton _⟩ (fun _ => rfl) ?_
        · intro d hd hblank
          rw [List.mem_singleton.mp hd, hperiod] at hblank
          cases hblank
        · rintro d ⟨⟩
          exact .inr hperiod
      refine ⟨⟨fun d hd => ?_, ?_⟩, by simp, fun d hd => ?_, fun d hd => ?_⟩
      · rcases List.mem_append.mp hd with hd | hd
        · exact h.blank d hd
        · exact hend.blank d hd
      · refine List.isChain_append.mpr ⟨h.single, hend.single, fun d hd _ _ => .inl ?_⟩
        exact h.last d hd
      · rw [List.head?_append_of_ne_nil _ h.ne_nil] at hd
        exact h.head d hd
      · rw [List.getLast?_append_of_ne_nil _ (by simp)] at hd
        cases hd
        exact hperiod
    · exact h
  · exact h

theorem closed_closeSentence {c : Char} (h : (closeSentence cs).getLast? = some c) :
    Text.isAlphabetic c = false := by
  unfold closeSentence at h
  split at h
  · next d hlast =>
    split at h
    · rw [List.getLast?_append_of_ne_nil _ (by simp)] at h
      cases h
      decide
    · next hd =>
      rw [hlast] at h
      cases h
      exact Bool.eq_false_iff.mpr hd
  · next hlast =>
    rw [hlast] at h
    cases h

/-- **A finished proof** is a line. -/
theorem isLine_of_proof? (h : draft.proof? = some proof) : proof.IsLine := by
  unfold proof? at h
  split at h
  · cases h
  · next hne =>
    cases h
    have hline : Text.IsLine draft.renderChars := Text.isLine_normalize hne
    refine ⟨?_, fun c hc => ?_⟩
    · rw [String.toList_ofList]
      exact isLine_closeSentence hline
    · rw [String.toList_ofList] at hc
      exact closed_closeSentence hc

/-- Blanks of several kinds, and a letter at the end. -/
example : proof? ⟨[.char 'b', .text "\n\u2003", .placeholder .math, .space, .char '\u00a0']⟩ =
    some ⟨"MATH b ."⟩ := by
  decide

end Draft

/-! ### Proofs that a scan completes -/

/-- A proof that ends a scan is a finished draft. -/
def Flow.Completes : Flow → Prop
  | proofEnd (some proof) => ∃ draft : Draft, draft.proof? = some proof
  | _ => True

namespace Scan

variable {setting : Setting} {nested : Frame → Scan Flow} {frame : Frame}

theorem completes_goingOn (body : Scan Unit) : Yields Flow.Completes (goingOn body) :=
  yields_bind fun _ => yields_pure trivial

theorem completes_closeProof : Yields Flow.Completes closeProof := by
  intro s flow t h
  unfold closeProof at h
  split at h
  · cases h; trivial
  · cases h
    cases hproof : s.draft.proof? with
    | none => trivial
    | some proof => exact ⟨s.draft, hproof⟩
  · cases h; trivial

theorem completes_endDocument : Yields Flow.Completes (endDocument frame) := by
  intro s flow t h
  unfold endDocument at h
  split at h
  · cases h; trivial
  · cases h

theorem completes_endOfStream : Yields Flow.Completes (endOfStream frame) := by
  intro s flow t h
  cases frame <;> cases h
  trivial

theorem completes_openEnvironment : Yields Flow.Completes (openEnvironment setting nested) := by
  refine yields_bind fun name => ?_
  split
  · exact yields_pure trivial
  refine yields_bind fun s => ?_
  split
  · split
    · exact yields_bind fun _ => yields_pure trivial
    · exact completes_goingOn _
  · split
    · exact completes_goingOn _
    · exact completes_goingOn _

theorem completes_closeEnvironment : Yields Flow.Completes (closeEnvironment frame) := by
  refine yields_bind fun name => ?_
  split
  · exact yields_pure trivial
  refine yields_bind fun s => ?_
  split
  · split
    · exact yields_bind fun _ => yields_pure trivial
    · exact completes_closeProof
  split
  · exact completes_endDocument
  · split
    · exact completes_goingOn _
    · exact yields_pure trivial

theorem completes_proofBoundary (name : String) {boundary : Scan Flow}
    (h : Yields Flow.Completes boundary) : Yields Flow.Completes (proofBoundary name boundary) := by
  refine yields_bind fun s => ?_
  split
  · exact yields_bind fun _ => yields_pure trivial
  · exact h

theorem completes_command (name : String) :
    Yields Flow.Completes (command setting nested frame name) := by
  unfold command
  split
  · exact yields_pure trivial
  split
  · next kind _ =>
    cases kind with
    | openEnvironment => exact completes_openEnvironment
    | closeEnvironment => exact completes_closeEnvironment
    | openProof => exact completes_proofBoundary name (completes_goingOn _)
    | closeProof => exact completes_proofBoundary name completes_closeProof
    | endDocument => exact completes_endDocument
    | nothing => exact yields_pure trivial
    | _ => exact completes_goingOn _
  · exact completes_goingOn _

theorem completes_mathShift : Yields Flow.Completes (mathShift setting nested frame) := by
  have hopen : Yields Flow.Completes (openDollars setting nested) := by
    refine yields_bind fun t? => ?_
    split
    · exact yields_bind fun _ => completes_goingOn _
    · exact completes_goingOn _
  cases frame with
  | dollar => exact yields_pure trivial
  | doubleDollar =>
    refine yields_bind fun t? => ?_
    split
    · exact yields_bind fun _ => yields_pure trivial
    · exact yields_pure trivial
  | _ => exact hopen

theorem completes_round : Yields Flow.Completes (round setting nested frame) := by
  refine yields_bind fun t? => ?_
  cases t? with
  | none => exact completes_endOfStream
  | some t =>
    cases t with
    | mathShift => exact completes_mathShift
    | control name => exact completes_command name
    | openGroup => exact yields_pure trivial
    | closeGroup => exact yields_pure trivial
    | parameter n => exact yields_pure trivial
    | deferred n => exact yields_pure trivial
    | inert name => exact yields_pure trivial
    | _ => exact completes_goingOn _

/-- **A proof that ends a scan** is a finished draft, by induction on the rounds. -/
theorem completes_within : ∀ (fuel start : Nat),
    Yields Flow.Completes (within setting fuel frame start)
  | 0, _ => by
    intro s flow t h
    cases h
  | fuel + 1, start => by
    intro s flow t h
    rcases within_cases setting fuel frame start s with ⟨failure, hs⟩ | ⟨-, hs⟩ | ⟨u, -, hs⟩
    · rw [hs] at h; cases h
    · rw [hs] at h
      exact completes_round s flow t h
    · rw [hs] at h
      exact completes_within fuel start u flow t h

end Scan

/-! ### Proofs of a run -/

section Runs

variable {setting : Setting} {s t : State} {n : Nat} {proof : Proof}

theorem NextEnds.isLine (h : NextEnds setting s n (.ok (some (.completed proof)), t)) :
    proof.IsLine := by
  generalize hanswer : (Except.ok (some (Outcome.completed proof)), t) = answer at h
  induction h generalizing t with
  | completed h =>
    cases hanswer
    obtain ⟨draft, hdraft⟩ := Scan.completes_within _ _ _ _ _ h.scan_eq
    exact Draft.isLine_of_proof? hdraft
  | withoutText h hrest ih => exact ih hanswer
  | _ => cases hanswer

/-- By induction on the run. -/
theorem RunEnds.isLine {history : History} (h : RunEnds setting s n history) :
    ∀ step ∈ history.steps, step.outcome = .completed proof → proof.IsLine := by
  induction h with
  | @outcome s t n m outcome history h hrest ih =>
    intro step hstep houtcome
    rcases List.mem_cons.mp hstep with rfl | hstep
    · subst houtcome
      exact h.isLine
    · exact ih step hstep houtcome
  | ended h => exact fun step hstep => absurd hstep List.not_mem_nil
  | failed h => exact fun step hstep => absurd hstep List.not_mem_nil

/-- The proofs that a run completes, also if the file is given up later on. -/
def History.proofs (history : History) : List Proof :=
  history.steps.filterMap fun step => step.outcome.proof?

theorem isLine_of_history (hproof : proof ∈ (s.history setting).proofs) : proof.IsLine := by
  obtain ⟨n, history, hrun⟩ := exists_runEnds setting s
  rw [hrun.history_eq] at hproof
  obtain ⟨step, hstep, houtcome⟩ := List.mem_filterMap.mp hproof
  refine hrun.isLine step hstep ?_
  unfold Outcome.proof? at houtcome
  split at houtcome
  · next hcompleted =>
    cases houtcome
    exact hcompleted
  · cases houtcome

theorem proofs_of_extract {source path : String} {extraction : Extraction}
    (h : extract setting source path = .ok extraction) :
    extraction.proofs = ((State.ofSource setting source path).history setting).proofs := by
  unfold extract History.extraction at h
  split at h
  · cases h
  · cases h
    rfl

end Runs

/-! ### Files of proofs -/

namespace Batch

theorem proofLines_toList : ∀ proofs : List Proof,
    (proofLines proofs).toList = Text.unlines (proofs.map fun proof => proof.text.toList)
  | [] => rfl
  | proof :: proofs => by
    have hcons : proofLines (proof :: proofs) = proof.text ++ "\n" ++ proofLines proofs := by
      simp [proofLines]
    have hlist : (proof.text ++ "\n" ++ proofLines proofs).toList =
        proof.text.toList ++ ['\n'] ++ (proofLines proofs).toList := by simp
    rw [hcons, hlist, proofLines_toList proofs]
    rfl

theorem lines_proofLines {proofs : List Proof} (h : ∀ proof ∈ proofs, proof.IsLine) :
    Text.lines (proofLines proofs).toList = proofs.map fun proof => proof.text.toList := by
  rw [proofLines_toList]
  refine Text.lines_unlines _ fun l hl => ?_
  obtain ⟨proof, hproof, rfl⟩ := List.mem_map.mp hl
  exact (h proof hproof).toIsLine

end Batch

/-- **Proofs are lines.** Whatever the source, the files and the options are, each proof that a run
completes is a line, does not end in a letter, and is found again in the file of proofs: the lines
of the text that is written are the proofs in order. An extraction has these proofs, and they are
what is written for it. -/
theorem proofs_are_lines (setting : Setting) (source path : String) :
    let proofs := ((State.ofSource setting source path).history setting).proofs
    (∀ proof ∈ proofs, proof.IsLine) ∧
    Text.lines (Batch.proofLines proofs).toList = proofs.map (fun proof => proof.text.toList) ∧
    ∀ extraction, extract setting source path = .ok extraction →
      extraction.proofs = proofs ∧
      ∀ outputs : Batch.Outputs, Batch.writeProofs outputs extraction =
        Batch.replaceFile outputs.proofs outputs.failure (Batch.proofLines proofs) := by
  intro proofs
  have hlines : ∀ proof ∈ proofs, proof.IsLine := fun proof => isLine_of_history
  refine ⟨hlines, Batch.lines_proofLines hlines, fun extraction h => ?_⟩
  have hproofs : extraction.proofs = proofs := proofs_of_extract h
  refine ⟨hproofs, fun outputs => ?_⟩
  unfold Batch.writeProofs
  rw [hproofs]

end ProofProse
