import ProofProse.Proofs.Body
import ProofProse.Proofs.Runaway

/-! # Titles that are not closed

The title of a proof is an argument in brackets, which is read before the proof counts as open. If its
brackets are not closed before the proof ends (`IsOpenTitle`), then the end of the proof stops the
reading only inside of another proof (`openProof_runaway`). Outside of all proofs the title is read past
the end of its proof, to a bracket or a brace behind it, or to the end of all tokens: then the file is
given up, with all proofs that it still holds (`unclosed_title_reads_past_its_proof`). -/

namespace ProofProse

open Scan

variable {t : Token} {tokens xs ys inside left before behind rest title : List Token} {name : String}

/-! ### Tokens in open brackets -/

/-- Every brace of some tokens belongs to a group in them, and no bracket closes outside of the groups:
brackets that are open before them stay open. -/
inductive LeavesOpen : List Token → Prop
  | nil : LeavesOpen []
  /-- A token that is no brace and does not close brackets. -/
  | token {t : Token} {rest : List Token} (ht : t.isBrace = false) (hclose : t ≠ .char ']')
      (hrest : LeavesOpen rest) : LeavesOpen (t :: rest)
  /-- A group, with any brackets in it. -/
  | group {inside rest : List Token} (hinside : WellNested inside) (hrest : LeavesOpen rest) :
      LeavesOpen (.openGroup :: (inside ++ .closeGroup :: rest))

theorem LeavesOpen.append (h : LeavesOpen xs) (hrest : LeavesOpen ys) : LeavesOpen (xs ++ ys) := by
  induction h with
  | nil => exact hrest
  | token ht hclose _ ih => exact .token ht hclose ih
  | group hinside _ ih =>
    rw [List.cons_append, List.append_assoc]
    exact .group hinside ih

theorem leavesOpen_environmentTokens (command name : String) :
    LeavesOpen (environmentTokens command name) := by
  have hname : WellNested (charTokens name) := wellNested_of_noBraces fun t ht => by
    obtain ⟨c, -, rfl⟩ := List.mem_map.mp ht
    rfl
  have hgroup : LeavesOpen (.openGroup :: (charTokens name ++ .closeGroup :: [])) :=
    .group hname .nil
  exact .token rfl nofun hgroup

theorem LeavesOpen.closes_nothing (h : LeavesOpen tokens) : ∀ {before t behind},
    tokens = before ++ t :: behind → braceBalance before = 0 → t ≠ .closeGroup ∧ t ≠ .char ']' := by
  induction h with
  | nil => exact fun h => by simp at h
  | @token x rest hx hclose _ ih =>
    intro before t behind hsplit hzero
    cases before with
    | nil =>
      obtain ⟨rfl, -⟩ := List.cons.inj hsplit
      refine ⟨?_, hclose⟩
      rintro rfl
      cases hx
    | cons y before =>
      obtain ⟨rfl, hrest⟩ := List.cons.inj hsplit
      rw [braceBalance_cons, depthChange_eq_zero hx, Int.zero_add] at hzero
      exact ih hrest hzero
  | @group inside rest hinside _ ih =>
    intro before t behind hsplit hzero
    cases before with
    | nil =>
      obtain ⟨rfl, -⟩ := List.cons.inj hsplit
      exact ⟨nofun, nofun⟩
    | cons y before =>
      obtain ⟨rfl, hgroup⟩ := List.cons.inj hsplit
      rw [braceBalance_cons, depthChange_openGroup] at hzero
      -- With nothing open the group has ended, as no front of its inside closes more than it opens.
      have houtside : ¬before <+: inside := fun hfront => by
        have hnonneg := hinside.inBalance.front before hfront
        omega
      obtain ⟨more, rfl, hmore⟩ | ⟨more, rfl, -⟩ := List.append_eq_append_iff.mp hgroup
      · cases more with
        | nil => exact absurd ⟨[], by simp⟩ houtside
        | cons z more =>
          obtain ⟨rfl, hrest⟩ := List.cons.inj hmore
          refine ih hrest ?_
          rw [braceBalance_append, hinside.inBalance.whole, braceBalance_cons,
            depthChange_closeGroup] at hzero
          omega
      · exact absurd ⟨more, rfl⟩ houtside

theorem LeavesOpen.not_endsBrackets (h : LeavesOpen tokens) (hsplit : tokens = before ++ t :: behind) :
    ¬EndsBrackets before (t :: rest) := by
  rintro (⟨hzero, hhead⟩ | ⟨⟨hzero, -⟩, hhead⟩)
  · exact (h.closes_nothing hsplit hzero).1 (Option.some.inj hhead)
  · exact (h.closes_nothing hsplit hzero).2 (Option.some.inj hhead)

/-- A reading goes past a front of the tokens in which it is stopped nowhere. -/
theorem FirstStop.passes {stops : List Token → List Token → Prop}
    (h : FirstStop stops (xs ++ rest) inside left)
    (hgoesOn : ∀ before t behind, xs = before ++ t :: behind →
      ¬stops before (t :: (behind ++ rest))) : xs <+: inside := by
  obtain ⟨more, hinside, -⟩ | ⟨more, rfl, rfl⟩ := List.append_eq_append_iff.mp h.split
  · exact ⟨more, hinside.symm⟩
  · cases more with
    | nil => exact ⟨[], by simp⟩
    | cons t behind => exact absurd (h.stop nofun) (hgoesOn inside t behind rfl)

theorem LeavesOpen.left_eq_nil (h : LeavesOpen tokens)
    (hfirst : FirstStop EndsBrackets tokens inside left) : left = [] := by
  cases left with
  | nil => rfl
  | cons t behind =>
    have hstop := hfirst.stop nofun
    exact absurd hstop (h.not_endsBrackets hfirst.split)

/-! ### Open titles -/

/-- A title in brackets that is not closed: brackets stay open over it, and no proof ends in it. -/
structure IsOpenTitle (title : List Token) : Prop where
  leavesOpen : LeavesOpen title
  noProof : ∀ behind, behind <:+ title → ¬EndsProof behind

/-- The end of a proof that is found in front of a command is found without the command as well. -/
theorem EndsProof.of_append {command : String}
    (h : EndsProof (t :: (behind ++ .control command :: rest))) : EndsProof (t :: behind) := by
  obtain ⟨_, name, span, hahead, hname, hproof⟩ := h
  obtain ⟨rfl, rfl⟩ := List.cons.inj hahead
  obtain ⟨group, more, hsplit, hparts, hfound⟩ := groupName?_foundBefore hname
  obtain ⟨front, hgroup, hfront⟩ | ⟨after, rfl, hafter⟩ := List.append_eq_append_iff.mp hsplit
  · cases front with
    | nil => cases hfront
    | cons x front =>
      obtain ⟨rfl, -⟩ := List.cons.inj hfront
      cases hparts (.control command) (by simp [hgroup])
  · cases after with
    | nil => cases hafter
    | cons x after =>
      obtain ⟨rfl, -⟩ := List.cons.inj hafter
      exact ⟨_, name, span, rfl, hfound after, hproof⟩

theorem endsProof_environmentTokens (hname : isProofName name = true) (rest : List Token) :
    EndsProof (environmentTokens "end" name ++ rest) := by
  refine ⟨plainGroup name.toList ++ rest, name, name.toList.length + 2, ?_, ?_, hname⟩
  · simp [environmentTokens, plainGroup, charTokens]
  · rw [groupName?_plain, String.ofList_toList]

theorem IsOpenTitle.leavesOpen_end (h : IsOpenTitle title) (name : String) :
    LeavesOpen (title ++ environmentTokens "end" name) :=
  h.leavesOpen.append (leavesOpen_environmentTokens "end" name)

/-- Inside of a proof the reading of an open title stops where its proof ends. -/
theorem IsOpenTitle.firstStop (h : IsOpenTitle title) (hname : isProofName name = true)
    (rest : List Token) :
    FirstStop (Guarded true EndsBrackets) (title ++ (environmentTokens "end" name ++ rest)) title
      (environmentTokens "end" name ++ rest) where
  split := rfl
  goesOn := by
    rintro before t behind hsplit (hends | ⟨-, hends⟩)
    · exact h.leavesOpen.not_endsBrackets hsplit hends
    · exact h.noProof _ ⟨before, hsplit.symm⟩ hends.of_append
  stop _ := .inr ⟨rfl, endsProof_environmentTokens hname rest⟩

theorem FirstStop.unguarded {ends : List Token → List Token → Prop}
    (h : FirstStop ends tokens inside left) :
    FirstStop (Guarded false ends) tokens inside left where
  split := h.split
  goesOn before t behind hinside := by
    rintro (hends | ⟨hguard, -⟩)
    · exact h.goesOn before t behind hinside hends
    · cases hguard
  stop hleft := .inl (h.stop hleft)

/-! ### Opening a proof with an open title -/

namespace Scan

variable {setting : Setting} {s t v : State} {e : Edge}

theorem openProof_error {interrupt : Interrupt} (h : optionalArgument s = .error interrupt t) :
    openProof s = .error interrupt t :=
  bind_error (discard_error h)

theorem openProof_of_optional {content : Option (List Token)}
    (h : optionalArgument s = .ok content t) :
    openProof s = .ok () t.enterProof :=
  bind_ok (discard_ok h)

theorem proofDepth_enterProof (s : State) : s.enterProof.proofDepth = s.proofDepth + 1 := by
  unfold State.enterProof
  split <;> rfl

theorem stream_enterProof (s : State) : s.enterProof.stream = s.stream := by
  unfold State.enterProof
  split <;> rfl

/-- Inside of a proof an open title is given up, with the end of its proof ahead. -/
theorem openProof_runaway (htitle : IsOpenTitle title) (hname : isProofName name = true)
    (hproof : 0 < s.proofDepth)
    (hs : s.stream.ahead = .char '[' :: (title ++ (environmentTokens "end" name ++ rest))) :
    ∃ t, openProof s = .error (.drop .runawayArgument) t ∧
      t.stream.ahead = environmentTokens "end" name ++ rest ∧ t.proofDepth = s.proofDepth := by
  have hin : s.inProof = true := decide_eq_true hproof
  have hread := readBracketed_runaway (htitle.firstStop hname rest)
    (endsProof_environmentTokens hname rest)
  have hoption := optionalArgument_ofBrackets allSpaces_nil hs
  rw [hin, hread] at hoption
  exact ⟨_, openProof_error hoption, rfl, rfl⟩

/-- Outside of all proofs the file is given up where no bracket and no brace ends a title. -/
theorem openProof_ended (hproof : s.proofDepth = 0) (hs : s.stream.ahead = .char '[' :: tokens)
    (h : FirstStop EndsBrackets tokens inside []) :
    ∃ t, openProof s = .error (.fatal (.unexpectedEnd "optional argument")) t ∧
      t.stream.ahead = [] := by
  have hin : s.inProof = false := by rw [State.inProof, hproof]; rfl
  have hoption := optionalArgument_ofBrackets allSpaces_nil hs
  rw [hin, readBracketed_ended h.unguarded] at hoption
  have hfatal : ∀ t : State, t.proofDepth = 0 →
      t.endInterrupt "optional argument" = .fatal (.unexpectedEnd "optional argument") := by
    intro t ht
    unfold State.endInterrupt State.inProof
    rw [ht]
    rfl
  have herror := openProof_error (hoption.trans (some_finishArgument_error_iff.mpr rfl))
  refine ⟨s.behindReading 1 ⟨Argument.ended, [], inside.length, marks inside⟩, herror.trans ?_, rfl⟩
  rw [hfatal (s.behindReading _ _) hproof]
  rfl

theorem openProof_closed (hproof : s.proofDepth = 0) (hs : s.stream.ahead = .char '[' :: tokens)
    (h : FirstStop EndsBrackets tokens inside left) (hleft : left ≠ []) :
    ∃ t, openProof s = .ok () t ∧ t.proofDepth = 1 ∧
      t.stream.ahead = if left.head? = some .closeGroup then left else left.tail := by
  have hin : s.inProof = false := by rw [State.inProof, hproof]; rfl
  have hoption := optionalArgument_ofBrackets allSpaces_nil hs
  rw [hin] at hoption
  have hopens : ∀ {content t}, optionalArgument s = .ok content t → t.proofDepth = 0 →
      ∃ u, openProof s = .ok () u ∧ u.proofDepth = 1 ∧ u.stream.ahead = t.stream.ahead := by
    intro content t hok ht
    refine ⟨_, openProof_of_optional hok, ?_, by rw [stream_enterProof]⟩
    rw [proofDepth_enterProof, ht]
  obtain ⟨x, behind, rfl⟩ := List.exists_cons_of_ne_nil hleft
  obtain ⟨-, hx⟩ | ⟨-, hx⟩ := h.stop nofun
  · obtain rfl : x = .closeGroup := Option.some.inj hx
    rw [readBracketed_enclosed h.unguarded] at hoption
    exact hopens hoption hproof
  · obtain rfl : x = .char ']' := Option.some.inj hx
    rw [readBracketed_closed h.unguarded] at hoption
    exact hopens hoption hproof

/-- A run that comes to a proof outside of all proofs is given up with the title. -/
theorem history_of_openProof {failure : Failure} (hmeets : Meets v e s) (hopens : e.opens = true)
    (hspan : v.inSpan = false) (hproof : s.proofDepth = 0)
    (hfile : v.consumed ≤ setting.options.fileLimit)
    (herror : openProof s = .error (.fatal failure) t) :
    v.history setting = ⟨[], some failure, t⟩ := by
  have hin : v.inProof = false := by
    obtain ⟨taken, -, hstate⟩ := hmeets.takes
    rw [hstate] at hproof
    rw [State.inProof, show v.proofDepth = 0 from hproof]
    rfl
  have hlimit : passedLimit? setting .file 0 v = none := by
    refine passedLimit?_eq_none_iff.mpr ⟨hfile, nofun, fun h => ?_⟩
    rw [hin] at h
    cases h
  have hround : round setting (scan setting) .file v = .error (.fatal failure) t := by
    rw [hmeets.round_eq (.inl rfl), hspan, if_neg Bool.false_ne_true, Edge.cross, if_pos hopens]
    exact bind_error herror
  refine history_of_fatal ?_
  rw [scan_file 0, scanFrom_stop hlimit (by rw [hround]; nofun), hround]

/-- **An unclosed title is read past its proof.** Let a title stand in brackets that are not closed
before its proof ends. Inside of another proof it is given up as a runaway argument, with the end of its
proof ahead. But outside of all proofs the end of the proof is read with the title, whatever stands
behind it. If a bracket or the brace of a group ends the title there, then a proof is opened behind it.
Otherwise the file is given up: from the command that opens the proof on, in whatever way it is
written, the run has no outcome. -/
theorem unclosed_title_reads_past_its_proof (htitle : IsOpenTitle title)
    (hname : isProofName name = true)
    (hs : s.stream.ahead = .char '[' :: (title ++ (environmentTokens "end" name ++ rest))) :
    (0 < s.proofDepth → ∃ t, openProof s = .error (.drop .runawayArgument) t ∧
      t.stream.ahead = environmentTokens "end" name ++ rest ∧ t.proofDepth = s.proofDepth) ∧
    (s.proofDepth = 0 → ∃ inside left,
      FirstStop EndsBrackets (title ++ (environmentTokens "end" name ++ rest)) inside left ∧
      title ++ environmentTokens "end" name <+: inside ∧
      (left ≠ [] → ∃ t, openProof s = .ok () t ∧ t.proofDepth = 1 ∧
        t.stream.ahead = if left.head? = some .closeGroup then left else left.tail) ∧
      (left = [] → ∃ t,
        openProof s = .error (.fatal (.unexpectedEnd "optional argument")) t ∧
        t.stream.ahead = [] ∧
        ∀ setting v e, Meets v e s → e.opens = true → v.inSpan = false →
          v.consumed ≤ setting.options.fileLimit →
          v.history setting = ⟨[], some (.unexpectedEnd "optional argument"), t⟩)) := by
  refine ⟨fun hproof => openProof_runaway htitle hname hproof hs, fun hproof => ?_⟩
  obtain ⟨inside, left, hfirst⟩ :=
    exists_firstStop EndsBrackets (title ++ (environmentTokens "end" name ++ rest))
  have hpasses : title ++ environmentTokens "end" name <+: inside := by
    have hwhole := hfirst
    rw [← List.append_assoc] at hwhole
    exact hwhole.passes fun _ _ _ => (htitle.leavesOpen_end name).not_endsBrackets
  refine ⟨inside, left, hfirst, hpasses, openProof_closed hproof hs hfirst, ?_⟩
  rintro rfl
  obtain ⟨t, herror, ht⟩ := openProof_ended hproof hs hfirst
  exact ⟨t, herror, ht, fun setting v e hmeets hopens hspan hfile =>
    history_of_openProof hmeets hopens hspan hproof hfile herror⟩

theorem isOpenTitle_word : IsOpenTitle [.char 'O', .char 'n'] where
  leavesOpen := .token rfl (by decide) (.token rfl (by decide) .nil)
  noProof := by
    rintro _ hsuffix ⟨behind, name, span, rfl, -⟩
    have hmem := hsuffix.subset (List.mem_cons_self (a := Token.control "end"))
    simp at hmem

/-- **A proof is lost** behind a proof with an open title; by itself it would be found. -/
theorem next_proof_lost :
    let next := environmentTokens "begin" "proof" ++ .char 'G' :: environmentTokens "end" "proof"
    let v : State := State.start "main.tex" (environmentTokens "begin" "proof" ++
      .char '[' :: ([.char 'O', .char 'n'] ++ (environmentTokens "end" "proof" ++ next)))
    IsOpenTitle [.char 'O', .char 'n'] ∧ isProofName "proof" = true ∧
    (∃ t, v.history .alone = ⟨[], some (.unexpectedEnd "optional argument"), t⟩) ∧
    ((State.start "main.tex" next).history .alone).extraction =
      .ok { proofs := [⟨"G ."⟩], dropped := [], warnings := [], consumed := 17 } := by
  intro next v
  let s : State := { v with stream :=
    ⟨.char '[' :: ([.char 'O', .char 'n'] ++ (environmentTokens "end" "proof" ++ next)), 8⟩ }
  have hmeets : Meets v (.environment true "proof") s :=
    .environment rfl (argumentText_written (by decide) rfl) (by decide)
  have hname : isProofName "proof" = true := by decide
  have hopen : LeavesOpen ([.char 'O', .char 'n'] ++ (environmentTokens "end" "proof" ++ next)) :=
    isOpenTitle_word.leavesOpen.append ((leavesOpen_environmentTokens _ _).append
      ((leavesOpen_environmentTokens _ _).append
        (.token rfl (by decide) (leavesOpen_environmentTokens _ _))))
  obtain ⟨inside, left, hfirst, -, -, hlost⟩ :=
    (unclosed_title_reads_past_its_proof (s := s) isOpenTitle_word hname rfl).2 rfl
  obtain ⟨t, -, -, hhistory⟩ := hlost (hopen.left_eq_nil hfirst)
  have hpieces : ∀ piece ∈ [Piece.token (.char 'G')], piece.IsPlain Setting.alone.options :=
    List.forall_mem_singleton.mpr trivial
  have hoption : NoOption (bodyTokens [Piece.token (.char 'G')]) := fun _ h => by cases h
  obtain ⟨period, hgoesOn⟩ :=
    goesOn_proofTokens "main.tex" hpieces hoption (by decide) (by decide)
  refine ⟨isOpenTitle_word, hname, ⟨t, hhistory .alone v _ hmeets rfl rfl (by decide)⟩, ?_⟩
  exact hgoesOn.extraction_eq (history_nil rfl (passedLimit?_outside (by decide)))

/-- The end of the proof is read with its title, and the file is given up. -/
theorem open_title_gives_up_the_file :
    ¬∀ (s : State) (title rest : List Token) (name : String), IsOpenTitle title →
      .endOfInput ∉ title → .control "begin" ∉ title → isProofName name = true → s.proofDepth = 0 →
      s.stream.ahead = .char '[' :: (title ++ (environmentTokens "end" name ++ rest)) →
      ∃ t, environmentTokens "end" name ++ rest <:+ t.stream.ahead ∧
        (openProof s = .ok () t ∨ ∃ reason, openProof s = .error (.drop reason) t) := by
  intro h
  let s : State := State.start "main.tex"
    (.char '[' :: ([.char 'O', .char 'n'] ++ (environmentTokens "end" "proof" ++ [])))
  have hfatal : openProof s =
      .error (.fatal (.unexpectedEnd "optional argument")) (after openProof s) := rfl
  obtain ⟨t, -, hok | ⟨reason, herror⟩⟩ := h s [.char 'O', .char 'n'] [] "proof" isOpenTitle_word
    (by decide) (by decide) (by decide) rfl rfl
  · cases hfatal.symm.trans hok
  · cases hfatal.symm.trans herror

end Scan

end ProofProse
