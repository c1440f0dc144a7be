import ProofProse.Proofs.Call
import ProofProse.Proofs.Runaway

/-! # Choices between two arguments

A command that chooses between arguments reads them as groups or single tokens, with spaces in front
perhaps (`WritesArguments`). The look ahead for the end of a proof does not see beyond the brace of
a well nested group (`EndsProof.within`), so whether the group is read to its brace inside a proof
is told from what is in it: it is, unless the end of a proof stands there (`HoldsProofEnd`), and
then it is a runaway argument. Where both arguments are read, one of them is put in front of what
stands behind them. -/

namespace ProofProse

variable {guarded : Bool} {tokens before behind ahead rest content : List Token}

/-! ### Ends of proofs in a group -/

/-- The end of a proof stands among some tokens. -/
def HoldsProofEnd (tokens : List Token) : Prop := ∃ behind, behind <:+ tokens ∧ EndsProof behind

/-- Without the command that ends environments there is no end of a proof. -/
theorem not_holdsProofEnd (h : .control "end" ∉ tokens) : ¬HoldsProofEnd tokens := by
  rintro ⟨behind, hsuffix, ahead, name, span, rfl, -⟩
  exact h (hsuffix.subset List.mem_cons_self)

/-- A token in front adds no end of a proof, unless it ends what has a name behind it. -/
theorem not_holdsProofEnd_cons {t : Token} (h : ¬HoldsProofEnd rest)
    (ht : t = .control "end" → groupName? rest = none) : ¬HoldsProofEnd (t :: rest) := by
  rintro ⟨behind, hsuffix, hends⟩
  obtain rfl | hsuffix := List.suffix_cons_iff.mp hsuffix
  · obtain ⟨_, name, span, heq, hname, -⟩ := hends
    obtain ⟨rfl, rfl⟩ := List.cons.inj heq
    rw [ht rfl] at hname
    cases hname
  · exact h ⟨behind, hsuffix, hends⟩

/-- The end of a proof is found whatever stands behind it. -/
theorem EndsProof.append (h : EndsProof ahead) (rest : List Token) : EndsProof (ahead ++ rest) := by
  obtain ⟨_, name, span, rfl, hname, hproof⟩ := h
  obtain ⟨group, more, rfl, -, hfound⟩ := groupName?_foundBefore hname
  refine ⟨group ++ .closeGroup :: more ++ rest, name, span, rfl, ?_, hproof⟩
  rw [List.append_assoc]
  exact hfound _

/-- A name that is found in a group stands behind the brace that opens the group. -/
theorem openGroup_mem_of_groupName? {group other : List Token} {found : String × Nat}
    (h : groupName? (group ++ .closeGroup :: other) = some found) : .openGroup ∈ group := by
  unfold groupName? at h
  generalize 0 = span at h
  induction group generalizing span with
  | nil => cases h
  | cons t group ih =>
    cases t with
    | openGroup => exact List.mem_cons_self
    | space => exact List.mem_cons_of_mem _ (ih _ h)
    | _ => cases h

/-- The tokens of a name open groups, if they do anything to the braces. -/
theorem braceBalance_pos_of_inName {group : List Token} (hparts : ∀ x ∈ group, x.InName)
    (hopen : .openGroup ∈ group) : 0 < braceBalance group := by
  have hnonneg : ∀ {xs : List Token}, (∀ x ∈ xs, x.InName) → 0 ≤ braceBalance xs := by
    intro xs hxs
    induction xs with
    | nil => exact Int.le_refl 0
    | cons x xs ih =>
      obtain ⟨hx, hxs⟩ := List.forall_mem_cons.mp hxs
      refine Int.add_nonneg (depthChange_nonneg ?_) (ih hxs)
      rintro rfl
      exact hx
  obtain ⟨front, back, rfl⟩ := List.append_of_mem hopen
  have hfront := hnonneg fun x hx => hparts x (List.mem_append_left _ hx)
  have hback := hnonneg fun x hx => hparts x (List.mem_append_right _ (List.mem_cons_of_mem _ hx))
  rw [braceBalance_append, braceBalance_cons, depthChange_openGroup]
  omega

theorem InBalance.behind_nonpos (h : InBalance (before ++ behind)) : braceBalance behind ≤ 0 := by
  have hfront := h.front before (List.prefix_append before behind)
  have hwhole := h.whole
  rw [braceBalance_append] at hwhole
  omega

/-- **The end of a proof** that is found in a well nested group stands in it as a whole: its name
cannot end with the brace of the group, as the group of the name would then be open in it. -/
theorem EndsProof.within (hnested : WellNested (before ++ behind)) (hbehind : behind ≠ [])
    (h : EndsProof (behind ++ .closeGroup :: rest)) : EndsProof behind := by
  obtain ⟨_, name, span, hahead, hname, hproof⟩ := h
  obtain ⟨t, behind, rfl⟩ := List.exists_cons_of_ne_nil hbehind
  obtain ⟨rfl, rfl⟩ := List.cons.inj hahead
  obtain ⟨group, more, hsplit, hparts, hfound⟩ := groupName?_foundBefore hname
  have hopen := openGroup_mem_of_groupName? (hfound [])
  have hnot : group ≠ behind := by
    rintro rfl
    have hclosed : braceBalance (Token.control "end" :: group) ≤ 0 :=
      hnested.inBalance.behind_nonpos
    have hpos := braceBalance_pos_of_inName hparts hopen
    rw [braceBalance_cons, depthChange_eq_zero rfl] at hclosed
    omega
  obtain ⟨front, rfl, hfront⟩ | ⟨after, rfl, hafter⟩ := List.append_eq_append_iff.mp hsplit
  · cases front with
    | nil => exact absurd (List.append_nil _) hnot
    | cons x front =>
      obtain ⟨rfl, -⟩ := List.cons.inj hfront
      exact (hparts .closeGroup (by simp)).elim
  · cases after with
    | nil => exact absurd (List.append_nil _).symm hnot
    | cons x after =>
      obtain ⟨rfl, -⟩ := List.cons.inj hafter
      exact ⟨_, name, span, rfl, hfound after, hproof⟩

theorem WellNested.braced (h : WellNested content) : WellNested (braced content) := .group h .nil

theorem WellNested.not_endsGroup {t : Token} (h : WellNested content)
    (hsplit : content = before ++ t :: behind) : ¬EndsGroup before (t :: rest) := by
  rintro ⟨hzero, hhead⟩
  obtain rfl : t = .closeGroup := Option.some.inj hhead
  have hfront := h.inBalance.front (before ++ [.closeGroup]) ⟨behind, by simp [hsplit]⟩
  rw [braceBalance_append, hzero, braceBalance_cons, depthChange_closeGroup] at hfront
  exact absurd hfront (by decide)

/-- A well nested group is read to its brace, if the reading does not look for ends of proofs or
there is none. -/
theorem WellNested.firstStop (h : WellNested content)
    (hclear : guarded = true → ¬HoldsProofEnd content) (rest : List Token) :
    FirstStop (Guarded guarded EndsGroup) (content ++ .closeGroup :: rest) content
      (.closeGroup :: rest) where
  split := rfl
  goesOn := by
    rintro before t behind hsplit (hends | ⟨hguarded, hends⟩)
    · exact h.not_endsGroup hsplit hends
    · have hnested : WellNested (before ++ t :: behind) := hsplit ▸ h
      exact hclear hguarded
        ⟨t :: behind, ⟨before, hsplit.symm⟩, hends.within hnested (List.cons_ne_nil t behind)⟩
  stop _ := .inl ⟨h.inBalance.whole, rfl⟩

/-- A reading that looks for ends of proofs runs into the first one in a well nested group. -/
theorem WellNested.runsIntoEnd (h : WellNested content) (hends : HoldsProofEnd content)
    (rest : List Token) : ∃ met, RunsIntoEnd EndsGroup (content ++ .closeGroup :: rest) met := by
  obtain ⟨ahead, ⟨front, rfl⟩, hproof⟩ := hends
  obtain ⟨inside, left, hfirst⟩ :=
    exists_firstStop (Guarded true EndsGroup) (front ++ ahead ++ .closeGroup :: rest)
  have hsplit : inside ++ left = front ++ (ahead ++ .closeGroup :: rest) := by
    rw [← hfirst.split, List.append_assoc]
  -- The reading cannot have gone past the end of the proof.
  have hfront : inside <+: front := by
    obtain ⟨more, hmore, -⟩ | ⟨more, hmore, hleft⟩ := List.append_eq_append_iff.mp hsplit
    · exact ⟨more, hmore.symm⟩
    · cases more with
      | nil => exact ⟨[], by rw [hmore, List.append_nil, List.append_nil]⟩
      | cons t more =>
        have hseen := hproof.append (.closeGroup :: rest)
        rw [hleft] at hseen
        exact absurd (.inr ⟨rfl, hseen⟩) (hfirst.goesOn front t more hmore)
  obtain ⟨more, rfl⟩ := hfront
  obtain ⟨t, behind, hbehind⟩ : ∃ t behind, more ++ ahead = t :: behind := by
    obtain ⟨tokens, name, span, rfl, -⟩ := hproof
    exact List.exists_cons_of_ne_nil (by simp)
  have hleft : left = t :: (behind ++ .closeGroup :: rest) := by
    refine List.append_cancel_left (hsplit.trans ?_)
    rw [List.append_assoc, ← List.append_assoc more, hbehind]
    rfl
  obtain hbrace | ⟨-, hend⟩ := hfirst.stop (by rw [hleft]; exact List.cons_ne_nil _ _)
  · have hgroup : inside ++ more ++ ahead = inside ++ t :: behind := by
      rw [List.append_assoc, hbehind]
    rw [hleft] at hbrace
    exact absurd hbrace (h.not_endsGroup hgroup)
  · exact ⟨left, inside, hfirst, hend⟩

/-! ### Arguments as they are written -/

/-- The state behind some tokens, with the files left that end among them and `rest` ahead. -/
def State.beyond (s : State) (tokens rest : List Token) : State :=
  { s with
    stream := ⟨rest, s.consumed + tokens.length⟩
    includes := s.includes.leave (marks tokens) }

theorem State.beyond_beyond (s : State) (xs ys rest rest' : List Token) :
    (s.beyond xs rest).beyond ys rest' = s.beyond (xs ++ ys) rest' := by
  unfold State.beyond State.consumed
  simp only [Includes.leave_leave, marks_append, List.length_append, Nat.add_assoc]

/-- How an argument is written behind spaces. -/
inductive WritesArgument : List Token → List Token → Prop
  /-- As a group. -/
  | group {spaces content : List Token} (hspaces : AllSpaces spaces)
      (hcontent : WellNested content) : WritesArgument content (spaces ++ braced content)
  /-- As a single token. -/
  | single {spaces : List Token} {x : Token} (hspaces : AllSpaces spaces) (hspace : x ≠ .space)
      (hopen : x ≠ .openGroup) (hboundary : Scan.isBoundary x = false) :
      WritesArgument [x] (spaces ++ [x])

/-- Some arguments are written one behind the other. -/
inductive WritesArguments : List (List Token) → List Token → Prop
  | nil : WritesArguments [] []
  | cons {content first tokens : List Token} {contents : List (List Token)}
      (hfirst : WritesArgument content first) (h : WritesArguments contents tokens) :
      WritesArguments (content :: contents) (first ++ tokens)

theorem WritesArguments.split {contents : List (List Token)}
    (h : WritesArguments (content :: contents) tokens) :
    ∃ first behind, WritesArgument content first ∧ WritesArguments contents behind ∧
      tokens = first ++ behind := by
  cases h with
  | cons hfirst h => exact ⟨_, _, hfirst, h, rfl⟩

theorem WritesArguments.eq_nil (h : WritesArguments [] tokens) : tokens = [] := by
  cases h
  rfl

theorem AllSpaces.marks {spaces : List Token} (h : AllSpaces spaces) : marks spaces = 0 :=
  marks_eq_zero.mpr fun x hx => by
    rw [h x hx]
    exact nofun

theorem marks_braced (content : List Token) : marks (braced content) = marks content := by
  unfold braced
  rw [marks_cons (t := .openGroup) nofun, marks_append, marks_cons (t := .closeGroup) nofun,
    marks_nil, Nat.add_zero]

namespace Scan

variable {s : State} {spaces asked yes no : List Token}

theorem ahead_facing_group (spaces content rest : List Token) :
    (s.facing (spaces ++ braced content ++ rest)).stream.ahead =
      spaces ++ .openGroup :: (content ++ .closeGroup :: rest) := by
  show spaces ++ braced content ++ rest = _
  rw [List.append_assoc, braced_append]

/-- A group is read without its braces and the ends of files in it, unless it holds the end of a
proof and is read inside a proof. -/
theorem argument_group_written (hspaces : AllSpaces spaces) (hcontent : WellNested content)
    (hclear : s.inProof = true → ¬HoldsProofEnd content) (rest : List Token) :
    argument (s.facing (spaces ++ braced content ++ rest)) =
      .ok (unmarked content) (s.beyond (spaces ++ braced content) rest) := by
  have hcount : s.consumed + (spaces ++ braced content).length =
      s.consumed + (spaces.length + 1) + (content.length + 1) := by
    rw [List.length_append, length_braced]
    omega
  rw [argument_ofGroup hspaces (ahead_facing_group spaces content rest)]
  show finishArgument "argument" (readBalanced s.inProof (content ++ .closeGroup :: rest)).result
    (s.behindReading (spaces.length + 1)
      (readBalanced s.inProof (content ++ .closeGroup :: rest))) = _
  rw [readBalanced_closed (hcontent.firstStop hclear rest)]
  unfold State.beyond State.behindReading
  rw [hcount, marks_append, hspaces.marks, Nat.zero_add, marks_braced]
  rfl

theorem argument_single_written {x : Token} (hspaces : AllSpaces spaces) (hspace : x ≠ .space)
    (hopen : x ≠ .openGroup) (hboundary : isBoundary x = false) (rest : List Token) :
    argument (s.facing (spaces ++ [x] ++ rest)) = .ok [x] (s.beyond (spaces ++ [x]) rest) := by
  have hskip : (s.facing (spaces ++ [x] ++ rest)).stream.skipSpaces =
      ⟨x :: rest, s.consumed + spaces.length⟩ := by
    unfold Stream.skipSpaces Stream.skipWhile
    rw [← passWhile_spaces hspaces hspace]
    show passWhile Token.isSpace s.consumed (spaces ++ [x] ++ rest) = _
    rw [List.append_assoc]
    rfl
  have hmark : x ≠ .endOfInput := by
    rintro rfl
    cases hboundary
  rw [argument_cons (congrArg Stream.ahead hskip), if_neg hopen, hboundary, hskip]
  unfold State.beyond
  rw [marks_append, hspaces.marks, marks_cons hmark, marks_nil, List.length_append]
  rfl

/-- **An argument that is written** is read without the ends of files in it, unless it holds the end
of a proof and is read inside a proof. -/
theorem argument_written (h : WritesArgument content tokens)
    (hclear : s.inProof = true → ¬HoldsProofEnd content) (rest : List Token) :
    argument (s.facing (tokens ++ rest)) = .ok (unmarked content) (s.beyond tokens rest) := by
  cases h with
  | group hspaces hcontent => exact argument_group_written hspaces hcontent hclear rest
  | @single spaces x hspaces hspace hopen hboundary =>
    have hkept : unmarked [x] = [x] := by
      cases x with
      | endOfInput => cases hboundary
      | _ => rfl
    rw [hkept]
    exact argument_single_written hspaces hspace hopen hboundary rest

theorem argument_written_runaway (h : WritesArgument content tokens) (hproof : s.inProof = true)
    (hends : HoldsProofEnd content) (rest : List Token) :
    ∃ t, argument (s.facing (tokens ++ rest)) = .error (.drop .runawayArgument) t := by
  cases h with
  | @group spaces _ hspaces hcontent =>
    obtain ⟨met, hruns⟩ := hcontent.runsIntoEnd hends rest
    have hin : (s.facing (spaces ++ braced content ++ rest)).inProof = true := hproof
    obtain ⟨t, herror, -⟩ := (argument_runaway_iff hin).mpr
      ⟨spaces, _, hspaces, ahead_facing_group spaces content rest, hruns⟩
    exact ⟨t, herror⟩
  | @single _ x hspaces hspace hopen hboundary =>
    have hend : .control "end" ∉ [x] := by
      rintro hx
      rw [← List.mem_singleton.mp hx] at hboundary
      cases hboundary
    exact absurd hends (not_holdsProofEnd hend)

/-! ### Choosing -/

/-- **A choice** reads two arguments, and puts the chosen one in front of what stands behind both.
-/
theorem choose_written (truth : Bool) (h : WritesArguments [yes, no] tokens)
    (hclear : s.inProof = true → ∀ content ∈ [yes, no], ¬HoldsProofEnd content)
    (rest : List Token) :
    choose truth (s.facing (tokens ++ rest)) =
      .ok () (s.beyond tokens (unmarked (if truth then yes else no) ++ rest)) := by
  obtain ⟨first, _, hyes, hmore, rfl⟩ := h.split
  obtain ⟨second, _, hno, hnone, rfl⟩ := hmore.split
  obtain rfl := hnone.eq_nil
  let t := s.beyond first []
  have hfirst : argument (s.facing (first ++ (second ++ rest))) =
      .ok (unmarked yes) (t.facing (second ++ rest)) :=
    argument_written hyes (fun hin => hclear hin yes (by simp)) _
  have hsecond : argument (t.facing (second ++ rest)) =
      .ok (unmarked no) (t.beyond second rest) :=
    argument_written (s := t) hno (fun hin => hclear hin no (by simp)) rest
  rw [List.append_nil, List.append_assoc first, ← State.beyond_beyond _ _ _ []]
  unfold choose
  rw [bind_ok hfirst, bind_ok hsecond]
  cases truth <;> rfl

theorem choose_written_runaway (truth : Bool) (h : WritesArguments [yes, no] tokens)
    (hproof : s.inProof = true) (hends : ∃ content ∈ [yes, no], HoldsProofEnd content)
    (rest : List Token) :
    ∃ t, choose truth (s.facing (tokens ++ rest)) = .error (.drop .runawayArgument) t := by
  obtain ⟨first, _, hyes, hmore, rfl⟩ := h.split
  obtain ⟨second, _, hno, hnone, rfl⟩ := hmore.split
  obtain rfl := hnone.eq_nil
  let t := s.beyond first []
  rw [List.append_nil, List.append_assoc first]
  unfold choose
  by_cases hheld : HoldsProofEnd yes
  · obtain ⟨u, herror⟩ := argument_written_runaway hyes hproof hheld _
    exact ⟨u, bind_error herror⟩
  · have hfirst : argument (s.facing (first ++ (second ++ rest))) =
        .ok (unmarked yes) (t.facing (second ++ rest)) :=
      argument_written hyes (fun _ => hheld) _
    obtain ⟨content, hcontent, hend⟩ := hends
    obtain rfl : content = no := by
      rcases List.mem_pair.mp hcontent with rfl | rfl
      · exact absurd hend hheld
      · rfl
    obtain ⟨u, herror⟩ := argument_written_runaway (s := t) hno hproof hend rest
    exact ⟨u, (bind_ok hfirst).trans (bind_error herror)⟩

/-- Asks something of an argument and of what is defined, and chooses by the answer. -/
def asking (answer : Dictionary → List Token → Bool) : Scan Unit := do
  let asked ← argument
  choose (answer (← get).dictionary asked)

/-- **A question** is read as an argument in front of the two others. -/
theorem asking_written {answer : Dictionary → List Token → Bool}
    (h : WritesArguments [asked, yes, no] tokens)
    (hclear : s.inProof = true → ∀ content ∈ [asked, yes, no], ¬HoldsProofEnd content)
    (rest : List Token) :
    asking answer (s.facing (tokens ++ rest)) =
      .ok () (s.beyond tokens
        (unmarked (if answer s.dictionary (unmarked asked) then yes else no) ++ rest)) := by
  obtain ⟨first, _, hasked, hchoice, rfl⟩ := h.split
  let t := s.beyond first []
  have hfirst : ∀ ahead, argument (s.facing (first ++ ahead)) =
      .ok (unmarked asked) (t.facing ahead) :=
    argument_written hasked fun hin => hclear hin asked List.mem_cons_self
  have hchosen := choose_written (s := t) (answer s.dictionary (unmarked asked)) hchoice
    (fun hin content hcontent => hclear hin content (List.mem_cons_of_mem asked hcontent)) rest
  rw [List.append_assoc, ← State.beyond_beyond _ _ _ [], ← hchosen]
  exact bind_ok (hfirst _)

/-- If one of the three holds the end of a proof inside a proof, it is a runaway argument. -/
theorem asking_written_runaway {answer : Dictionary → List Token → Bool}
    (h : WritesArguments [asked, yes, no] tokens) (hproof : s.inProof = true)
    (hends : ∃ content ∈ [asked, yes, no], HoldsProofEnd content) (rest : List Token) :
    ∃ t, asking answer (s.facing (tokens ++ rest)) = .error (.drop .runawayArgument) t := by
  obtain ⟨first, behind, hasked, hchoice, rfl⟩ := h.split
  rw [List.append_assoc]
  by_cases hheld : HoldsProofEnd asked
  · obtain ⟨u, herror⟩ := argument_written_runaway hasked hproof hheld (behind ++ rest)
    exact ⟨u, bind_error herror⟩
  · let t := s.beyond first []
    have hfirst : argument (s.facing (first ++ (behind ++ rest))) =
        .ok (unmarked asked) (t.facing (behind ++ rest)) :=
      argument_written hasked (fun _ => hheld) _
    obtain ⟨content, hcontent, hend⟩ := hends
    obtain rfl | hcontent := List.mem_cons.mp hcontent
    · exact absurd hend hheld
    · obtain ⟨u, herror⟩ := choose_written_runaway (s := t)
        (answer s.dictionary (unmarked asked)) hchoice hproof ⟨content, hcontent, hend⟩ rest
      exact ⟨u, (bind_ok hfirst).trans herror⟩

end Scan

end ProofProse
