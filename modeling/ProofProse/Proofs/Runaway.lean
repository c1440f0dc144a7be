import ProofProse.Proofs.Argument

/-! # Arguments that run into the end of their proof

Inside a proof a group or an argument in brackets may stand open where the proof ends. The end of the
proof is met when it comes before what would end the argument (`RunsIntoEnd`). The argument is given up
exactly then, with the end of the proof ahead, so that this is not taken with it
(`runaway_arguments_stop_at_the_end`).

An argument that is returned is without the ends of files that were in it, and a look ahead at a name
does not pass the end of a file. So the end of a proof is not seen where a file ends in front of its
name or in it, and is put together in the argument (`end_of_proof_put_together`). There is no other
way for it to get there (`ReadsArgument.cut`): what a look ahead finds depends on the tokens up to the
brace that ends the name alone (`groupName?_foundBefore`), and these are all in the argument. -/

namespace ProofProse

variable {guarded : Bool} {t : Token} {tokens inside left ahead behind rest content met : List Token}

/-! ### Names that a look ahead finds -/

/-- A token that can stand before the brace that ends a name. -/
def Token.InName : Token → Prop
  | .space => True
  | .char _ => True
  | .openGroup => True
  | _ => False

/-- The name is found from the tokens up to a brace, whatever stands behind the brace. -/
def FoundBefore (find : List Token → Option (String × Nat)) (tokens : List Token)
    (found : String × Nat) : Prop :=
  ∃ group rest, tokens = group ++ .closeGroup :: rest ∧ (∀ x ∈ group, x.InName) ∧
    ∀ other, find (group ++ .closeGroup :: other) = some found

theorem FoundBefore.cons {find findRest : List Token → Option (String × Nat)} {found : String × Nat}
    (h : FoundBefore findRest rest found) (ht : t.InName)
    (hfind : ∀ other, find (t :: other) = findRest other) : FoundBefore find (t :: rest) found := by
  obtain ⟨group, behind, rfl, hgroup, hfound⟩ := h
  exact ⟨t :: group, behind, rfl, List.forall_mem_cons.mpr ⟨ht, hgroup⟩, fun other =>
    (hfind _).trans (hfound other)⟩

theorem nameInGroup?_foundBefore : ∀ {tokens : List Token} {letters : List Char} {span : Nat}
    {found : String × Nat}, nameInGroup? letters span tokens = some found →
      FoundBefore (nameInGroup? letters span) tokens found := by
  intro tokens
  induction tokens with
  | nil => exact fun h => nomatch h
  | cons t rest ih =>
    intro letters span found h
    cases t with
    | closeGroup => exact ⟨[], rest, rfl, nofun, fun _ => h⟩
    | char c => exact (ih h).cons trivial fun _ => rfl
    | space => exact (ih h).cons trivial fun _ => rfl
    | _ => cases h

theorem groupNameFrom?_foundBefore : ∀ {tokens : List Token} {span : Nat} {found : String × Nat},
    groupNameFrom? span tokens = some found → FoundBefore (groupNameFrom? span) tokens found := by
  intro tokens
  induction tokens with
  | nil => exact fun h => nomatch h
  | cons t rest ih =>
    intro span found h
    cases t with
    | openGroup => exact (nameInGroup?_foundBefore h).cons trivial fun _ => rfl
    | space => exact (ih h).cons trivial fun _ => rfl
    | _ => cases h

/-- A name that a look ahead finds is told from the tokens up to the brace that ends it. -/
theorem groupName?_foundBefore {found : String × Nat} (h : groupName? tokens = some found) :
    FoundBefore groupName? tokens found :=
  groupNameFrom?_foundBefore h

/-! ### Running into the end of a proof -/

/-- What is read comes to the end of a proof, which stands in front of `met`, before it is ended
itself. -/
def RunsIntoEnd (ends : List Token → List Token → Prop) (tokens met : List Token) : Prop :=
  ∃ inside, FirstStop (Guarded true ends) tokens inside met ∧ EndsProof met

theorem readBalanced_runaway_iff :
    (readBalanced true tokens).result = .runaway ∧ (readBalanced true tokens).rest = met ↔
      RunsIntoEnd EndsGroup tokens met := by
  constructor
  · rintro ⟨hresult, rfl⟩
    cases groupEnd true tokens with
    | runaway _ h hproof hread =>
      rw [hread]
      exact ⟨_, h, hproof⟩
    | closed _ hread => rw [hread] at hresult; cases hresult
    | ended _ hread => rw [hread] at hresult; cases hresult
  · rintro ⟨inside, h, hproof⟩
    rw [readBalanced_runaway h hproof]
    exact ⟨rfl, rfl⟩

theorem readBracketed_runaway_iff :
    (readBracketed true tokens).result = .runaway ∧ (readBracketed true tokens).rest = met ↔
      RunsIntoEnd EndsBrackets tokens met := by
  constructor
  · rintro ⟨hresult, rfl⟩
    cases bracketsEnd true tokens with
    | runaway _ h hproof hread =>
      rw [hread]
      exact ⟨_, h, hproof⟩
    | closed _ hread => rw [hread] at hresult; cases hresult
    | enclosed _ hread => rw [hread] at hresult; cases hresult
    | ended _ hread => rw [hread] at hresult; cases hresult
  · rintro ⟨inside, h, hproof⟩
    rw [readBracketed_runaway h hproof]
    exact ⟨rfl, rfl⟩

/-! ### Ends of proofs in an argument -/

/-- Where a token stands among those that are left without the ends of files, it stands in the whole as
well, with some more ends of files around it. -/
theorem exists_of_unmarked_eq {front : List Token}
    (h : unmarked tokens = front ++ t :: behind) :
    ∃ before after, tokens = before ++ t :: after ∧ unmarked before = front ∧
      unmarked after = behind := by
  obtain ⟨before, more, rfl, hbefore, hmore⟩ := List.filter_eq_append_iff.mp h
  obtain ⟨ends, after, rfl, hends, -, hafter⟩ := List.filter_eq_cons_iff.mp hmore
  have hnone : unmarked ends = [] := List.filter_eq_nil_iff.mpr hends
  refine ⟨before ++ ends, after, by rw [List.append_assoc], ?_, hafter⟩
  rw [unmarked_append, hnone, List.append_nil]
  exact hbefore

/-- Some tokens begin with a name in a group that the end of a file cuts in two, or cuts off from what
stands before it. Without the end of the file it is the name of a proof. -/
def CutProofName (tokens : List Token) : Prop :=
  ∃ group rest name span, tokens = group ++ .closeGroup :: rest ∧ .closeGroup ∉ group ∧
    .endOfInput ∈ group ∧ groupName? (unmarked (group ++ [.closeGroup])) = some (name, span) ∧
    isProofName name = true

/-- The end of a proof that is put together when the ends of files are taken out was cut in two by one
of them, unless it was the end of a proof before. -/
theorem EndsProof.cut (h : EndsProof (.control "end" :: unmarked tokens))
    (hnot : ¬EndsProof (.control "end" :: (tokens ++ left))) : CutProofName tokens := by
  obtain ⟨_, name, span, hahead, hname, hproof⟩ := h
  obtain rfl := (List.cons.inj hahead).2
  obtain ⟨name', more, hsplit, hparts, hfound⟩ := groupName?_foundBefore hname
  obtain ⟨group, rest, rfl, hgroup, -⟩ := exists_of_unmarked_eq hsplit
  have hclose : .closeGroup ∉ group := by
    intro hmem
    have hkept : .closeGroup ∈ unmarked group := List.mem_filter.mpr ⟨hmem, rfl⟩
    rw [hgroup] at hkept
    exact hparts _ hkept
  refine ⟨group, rest, name, span, rfl, hclose, ?_, ?_, hproof⟩
  · -- Without the end of a file in it the name stands as it is in front of all that is behind.
    by_contra hmark
    rw [unmarked_eq_self (List.count_eq_zero.mpr hmark)] at hgroup
    refine hnot ⟨_, name, span, rfl, ?_, hproof⟩
    rw [hgroup, List.append_assoc]
    exact hfound _
  · rw [unmarked_append, hgroup]
    exact hfound []

theorem FirstStop.cut {ends : List Token → List Token → Prop} {front : List Token}
    (h : FirstStop (Guarded true ends) tokens inside left)
    (hinside : unmarked inside = front ++ behind) (hproof : EndsProof behind) :
    ∃ before after, inside = before ++ .control "end" :: after ∧ unmarked before = front ∧
      .control "end" :: unmarked after = behind ∧ CutProofName after := by
  have hends := hproof
  obtain ⟨more, name, span, rfl, -⟩ := hproof
  obtain ⟨before, after, rfl, hbefore, rfl⟩ := exists_of_unmarked_eq hinside
  have hunseen : ¬EndsProof (.control "end" :: (after ++ left)) := fun hseen =>
    h.goesOn before (.control "end") after rfl (.inr ⟨rfl, hseen⟩)
  exact ⟨before, after, rfl, hbefore, rfl, hends.cut hunseen⟩

/-- An argument that has been read in a proof holds the end of a proof only where the end of a file cut
its name off. -/
theorem ReadsArgument.cut {front : List Token} (h : ReadsArgument true ahead content rest)
    (hcontent : content = front ++ behind) (hproof : EndsProof behind) :
    ∃ before after, before ++ .control "end" :: after <:+: ahead ∧ unmarked before = front ∧
      .control "end" :: unmarked after = behind ∧ CutProofName after := by
  cases h with
  | @group spaces tokens inside _ hspaces h =>
    obtain ⟨before, after, rfl, hcut⟩ := h.cut hcontent hproof
    exact ⟨before, after, ⟨spaces ++ [.openGroup], .closeGroup :: rest, by simp [h.split]⟩, hcut⟩
  | @single spaces _ x hspaces hbrace hend =>
    obtain ⟨more, name, span, rfl, -⟩ := hproof
    have hmem : .control "end" ∈ [x] := hcontent ▸ List.mem_append_right _ List.mem_cons_self
    exact absurd (List.mem_singleton.mp hmem).symm hend
  | nothing hspaces =>
    obtain ⟨more, name, span, rfl, -⟩ := hproof
    cases List.append_ne_nil_of_right_ne_nil _ (List.cons_ne_nil _ _) hcontent.symm
  | @brackets spaces tokens inside _ hspaces h =>
    obtain ⟨before, after, rfl, hcut⟩ := h.cut hcontent hproof
    exact ⟨before, after, ⟨spaces ++ [.char '['], .char ']' :: rest, by simp [h.split]⟩, hcut⟩
  | @enclosed spaces tokens inside left hspaces h =>
    obtain ⟨before, after, rfl, hcut⟩ := h.cut hcontent hproof
    exact ⟨before, after, ⟨spaces ++ [.char '['], .closeGroup :: left, by simp [h.split]⟩, hcut⟩

/-! ### Arguments that are given up -/

namespace Scan

variable {s t : State} {context : String}

theorem endInterrupt_ne_runaway (s : State) (context : String) :
    s.endInterrupt context ≠ .drop .runawayArgument := by
  unfold State.endInterrupt
  split
  · exact nofun
  · exact nofun

theorem finishArgument_runaway_iff {result : Argument} {u : State} :
    finishArgument context result u = .error (.drop .runawayArgument) t ↔
      result = .runaway ∧ u = t := by
  cases result with
  | closed content => exact ⟨nofun, nofun⟩
  | runaway =>
    constructor
    · rintro ⟨⟩
      exact ⟨rfl, rfl⟩
    · rintro ⟨-, rfl⟩
      rfl
  | ended =>
    refine ⟨fun h => ?_, nofun⟩
    injection h with hinterrupt
    exact absurd hinterrupt (endInterrupt_ne_runaway u context)

theorem some_finishArgument_error_iff {result : Argument} {u : State} {interrupt : Interrupt} :
    (some <$> finishArgument context result : Scan (Option (List Token))) u = .error interrupt t ↔
      finishArgument context result u = .error interrupt t := by
  cases result with
  | closed content => exact ⟨nofun, nofun⟩
  | _ =>
    constructor
    · rintro ⟨⟩
      rfl
    · rintro ⟨⟩
      rfl

/-- A group that is read as an argument inside a proof is given up where it comes to the end of the
proof, and nothing else is. -/
theorem argument_runaway_iff (hproof : s.inProof = true) :
    (∃ t, argument s = .error (.drop .runawayArgument) t ∧ t.stream.ahead = met) ↔
      ∃ spaces tokens, AllSpaces spaces ∧ s.stream.ahead = spaces ++ .openGroup :: tokens ∧
        RunsIntoEnd EndsGroup tokens met := by
  constructor
  · rintro ⟨t, herror, rfl⟩
    cases argumentStart s with
    | ended hs =>
      obtain ⟨u, hended⟩ := argument_ended hs
      injection hended.symm.trans herror with hinterrupt
      exact absurd hinterrupt (endInterrupt_ne_runaway s "argument")
    | @group spaces tokens hspaces hs =>
      rw [argument_ofGroup hspaces hs, hproof] at herror
      obtain ⟨hresult, rfl⟩ := finishArgument_runaway_iff.mp herror
      exact ⟨spaces, tokens, hspaces, hs, readBalanced_runaway_iff.mp ⟨hresult, rfl⟩⟩
    | other hspaces hs hx hopen =>
      obtain ⟨stream, hok, -⟩ := argument_other hspaces hs hx hopen
      cases hok.symm.trans herror
  · rintro ⟨spaces, tokens, hspaces, hs, hruns⟩
    obtain ⟨hresult, hrest⟩ := readBalanced_runaway_iff.mpr hruns
    refine ⟨s.behindReading (spaces.length + 1) (readBalanced true tokens), ?_, hrest⟩
    rw [argument_ofGroup hspaces hs, hproof]
    exact finishArgument_runaway_iff.mpr ⟨hresult, rfl⟩

theorem optionalArgument_runaway_iff (hproof : s.inProof = true) :
    (∃ t, optionalArgument s = .error (.drop .runawayArgument) t ∧ t.stream.ahead = met) ↔
      ∃ spaces tokens, AllSpaces spaces ∧ s.stream.ahead = spaces ++ .char '[' :: tokens ∧
        RunsIntoEnd EndsBrackets tokens met := by
  constructor
  · rintro ⟨t, herror, rfl⟩
    cases optionStart s with
    | none hnone => cases (optionalArgument_none hnone).symm.trans herror
    | @brackets spaces tokens hspaces hs =>
      rw [optionalArgument_ofBrackets hspaces hs, hproof, some_finishArgument_error_iff] at herror
      obtain ⟨hresult, rfl⟩ := finishArgument_runaway_iff.mp herror
      exact ⟨spaces, tokens, hspaces, hs, readBracketed_runaway_iff.mp ⟨hresult, rfl⟩⟩
  · rintro ⟨spaces, tokens, hspaces, hs, hruns⟩
    obtain ⟨hresult, hrest⟩ := readBracketed_runaway_iff.mpr hruns
    refine ⟨s.behindReading (spaces.length + 1) (readBracketed true tokens), ?_, hrest⟩
    rw [optionalArgument_ofBrackets hspaces hs, hproof, some_finishArgument_error_iff]
    exact finishArgument_runaway_iff.mpr ⟨hresult, rfl⟩

/-- **Runaway arguments stop at the end of their proof.** Inside a proof a group is given up as a
runaway argument if the end of a proof is met before the group is closed, and otherwise never is; so
is an argument in brackets. Ahead is then the end of the proof that was met, with all that stands
behind it. An argument that is returned holds the end of a proof only where the end of a file stood
between its command and the end of its name, and has been taken out. -/
theorem runaway_arguments_stop_at_the_end (s : State) (hproof : 0 < s.proofDepth) :
    (∀ met, (∃ t, argument s = .error (.drop .runawayArgument) t ∧ t.stream.ahead = met) ↔
      ∃ spaces tokens, AllSpaces spaces ∧ s.stream.ahead = spaces ++ .openGroup :: tokens ∧
        RunsIntoEnd EndsGroup tokens met) ∧
    (∀ met, (∃ t, optionalArgument s = .error (.drop .runawayArgument) t ∧ t.stream.ahead = met) ↔
      ∃ spaces tokens, AllSpaces spaces ∧ s.stream.ahead = spaces ++ .char '[' :: tokens ∧
        RunsIntoEnd EndsBrackets tokens met) ∧
    ∀ content t, argument s = .ok content t ∨ optionalArgument s = .ok (some content) t →
      ∀ front behind, content = front ++ behind → EndsProof behind →
        ∃ before after, before ++ .control "end" :: after <:+: s.stream.ahead ∧
          unmarked before = front ∧ .control "end" :: unmarked after = behind ∧
          CutProofName after := by
  have hin : s.inProof = true := decide_eq_true hproof
  refine ⟨fun met => argument_runaway_iff hin, fun met => optionalArgument_runaway_iff hin, ?_⟩
  intro content t h front behind hcontent hends
  have hreads := h.elim argument_ok optionalArgument_some
  rw [hin] at hreads
  exact hreads.cut hcontent hends

/-- An argument with a bracket and a group open in it. -/
theorem runaway_in_open_groups :
    let s : State := { State.start "main.tex" (.char '[' :: .char 'a' :: .openGroup :: .char '[' ::
      .control "end" :: (plainGroup "proof".toList ++ [.char 'b', .closeGroup])) with proofDepth := 1 }
    0 < s.proofDepth ∧ ∃ t, optionalArgument s = .error (.drop .runawayArgument) t ∧
      t.stream.ahead = .control "end" :: (plainGroup "proof".toList ++ [.char 'b', .closeGroup]) ∧
      ∃ tokens, s.stream.ahead = .char '[' :: tokens ∧
        RunsIntoEnd EndsBrackets tokens t.stream.ahead := by
  intro s
  have herror : optionalArgument s = .error (.drop .runawayArgument) (after optionalArgument s) := rfl
  obtain ⟨spaces, tokens, hspaces, hs, hruns⟩ :=
    ((runaway_arguments_stop_at_the_end s Nat.one_pos).2.1 _).mp ⟨_, herror, rfl⟩
  refine ⟨Nat.one_pos, _, herror, rfl, tokens, ?_, hruns⟩
  cases spaces with
  | nil => exact hs
  | cons x spaces =>
    obtain rfl : x = .space := hspaces x List.mem_cons_self
    cases hs

/-- The end of a file stands between the command and the name, and the argument that is returned holds
the end of a proof. -/
theorem end_of_proof_put_together :
    ¬∀ (s t : State) (content : List Token), 0 < s.proofDepth → argument s = .ok content t →
      ∀ front behind, content = front ++ behind → ¬EndsProof behind := by
  intro h
  let s : State := { State.start "main.tex" (.openGroup :: .char 'b' :: .control "end" ::
    .endOfInput :: (plainGroup "proof".toList ++ [.closeGroup])) with proofDepth := 1 }
  have hok : argument s =
      .ok (.char 'b' :: .control "end" :: plainGroup "proof".toList) (after argument s) := rfl
  refine h s _ _ Nat.one_pos hok [.char 'b'] _ rfl ?_
  exact ⟨_, "proof", 7, rfl, rfl, rfl⟩

end Scan

end ProofProse
