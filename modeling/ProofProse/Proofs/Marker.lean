import ProofProse.Proofs.Argument
import ProofProse.Proofs.Call

/-! # Commands that leave a mark

References, citations and headings take their operands and leave one mark in the text. What is
written behind such a command is a star or none, some arguments in brackets and then the groups
(`Use`), and it fits the signature if no more brackets stand there than it has operands for, and as
many groups as it asks for.

The operands are read one by one, and an operand that may be left out is found left out where
something else stands (`Supplies`). By induction on the signature they take what supplies them and
nothing of what stands behind it (`operands_supplies`). In the signatures of the table a star comes
first, brackets come before groups, and behind a star there is a group
(`Effect.marks_of_ofName?`), so a use that fits supplies them (`Use.Fits.supplies`). Hence the
command takes its use exactly, and adds exactly its mark (`marking_command_takes_its_use`). -/

namespace ProofProse

/-! ### Uses of a command -/

/-- An argument, with the gap in front of it. -/
structure Given where
  /-- The gap. -/
  gap : List Token
  /-- What stands between the brackets or braces. -/
  content : List Token

/-- The tokens of an argument in brackets. -/
def Given.bracketed (given : Given) : List Token := given.gap ++ inBrackets given.content

/-- The tokens of a group. -/
def Given.grouped (given : Given) : List Token := given.gap ++ braced given.content

/-- What stands behind a command. -/
structure Use where
  /-- Whether a star stands right behind the command. -/
  starred : Bool
  /-- The arguments in brackets. -/
  options : List Given
  /-- The groups. -/
  groups : List Given

/-- The star of a use. -/
def Use.star (use : Use) : List Token := if use.starred then [.char '*'] else []

/-- The tokens of a use. -/
def Use.tokens (use : Use) : List Token :=
  use.star ++ (use.options.flatMap Given.bracketed ++ use.groups.flatMap Given.grouped)

/-- A use fits a signature, in front of some tokens: a star only where there is one, arguments in
brackets for some of the optional operands, and a group for each that must be given. Where the use
ends before its last optional operands, no bracket comes next. -/
structure Use.Fits (use : Use) (signature : Signature) (rest : List Token) : Prop where
  star : use.starred = true → .star ∈ signature
  options : use.options.length ≤ signature.count .optional
  groups : use.groups.length = signature.mandatoryCount
  gap : ∀ given ∈ use.options ++ use.groups, AllSpaces given.gap
  isOption : ∀ given ∈ use.options, IsOption given.content
  isGroup : ∀ given ∈ use.groups, IsGroup given.content
  noOption : use.options.length < signature.count .optional → use.groups = [] → Scan.NoOption rest

/-- Some tokens supply the operands of a signature in front of others: each operand in turn is given,
or may be left out and is. -/
inductive Supplies (rest : List Token) : Signature → List Token → Prop
  | nil : Supplies rest [] []
  | star {signature : Signature} {tokens : List Token} (h : Supplies rest signature tokens) :
      Supplies rest (.star :: signature) (.char '*' :: tokens)
  | noStar {signature : Signature} {tokens : List Token} (h : Supplies rest signature tokens)
      (hhead : (tokens ++ rest).head? ≠ some (.char '*')) :
      Supplies rest (.star :: signature) tokens
  | option {signature : Signature} {tokens : List Token} {given : Given}
      (hgap : AllSpaces given.gap) (hcontent : IsOption given.content)
      (h : Supplies rest signature tokens) :
      Supplies rest (.optional :: signature) (given.bracketed ++ tokens)
  | noOption {signature : Signature} {tokens : List Token} (h : Supplies rest signature tokens)
      (hnone : Scan.NoOption (tokens ++ rest)) : Supplies rest (.optional :: signature) tokens
  | group {signature : Signature} {tokens : List Token} {given : Given}
      (hgap : AllSpaces given.gap) (hcontent : IsGroup given.content)
      (h : Supplies rest signature tokens) :
      Supplies rest (.mandatory :: signature) (given.grouped ++ tokens)

/-! ### Reading what is supplied -/

namespace Scan

open State

variable {s : State} {spaces content rest tokens : List Token} {signature : Signature}
  {given : Given}

theorem argument_spaces (hspaces : AllSpaces spaces) :
    argument (s.facing (spaces ++ .openGroup :: tokens)) =
      argument (s.past spaces.length (.openGroup :: tokens)) := by
  have hnone : AllSpaces [] := nofun
  rw [argument_ofGroup hspaces rfl, argument_ofGroup hnone rfl]
  rfl

theorem optionalArgument_spaces (hspaces : AllSpaces spaces) :
    optionalArgument (s.facing (spaces ++ .char '[' :: tokens)) =
      optionalArgument (s.past spaces.length (.char '[' :: tokens)) := by
  have hnone : AllSpaces [] := nofun
  rw [optionalArgument_ofBrackets hspaces rfl, optionalArgument_ofBrackets hnone rfl]
  rfl

theorem argument_grouped (hgap : AllSpaces given.gap) (hcontent : IsGroup given.content) :
    argument (s.facing (given.grouped ++ rest)) =
      .ok given.content (s.past given.grouped.length rest) := by
  unfold Given.grouped
  rw [List.append_assoc, braced_append, argument_spaces hgap, ← braced_append, past_eq_facing,
    argument_braced hcontent, past_past, List.length_append, Nat.add_comm]

theorem optionalArgument_given (hgap : AllSpaces given.gap) (hcontent : IsOption given.content) :
    optionalArgument (s.facing (given.bracketed ++ rest)) =
      .ok (some given.content) (s.past given.bracketed.length rest) := by
  unfold Given.bracketed
  rw [List.append_assoc, inBrackets_append, optionalArgument_spaces hgap, ← inBrackets_append,
    past_eq_facing, optionalArgument_inBrackets hcontent, past_past, List.length_append,
    Nat.add_comm]

theorem skipStar_eq_self (h : tokens.head? ≠ some (.char '*')) :
    onStream (·.skipChar '*') (s.facing tokens) = .ok () (s.facing tokens) := by
  refine onStream_ok ?_
  show (Stream.mk tokens s.consumed).skipChar '*' = ⟨tokens, s.consumed⟩
  unfold Stream.skipChar
  dsimp only
  split
  · next d behind =>
    refine if_neg fun hd => h ?_
    rw [eq_of_beq hd, List.head?_cons]
  · rfl

theorem operands_cons {first : Operand} {t : State} (h : operand first s = .ok () t) :
    operands (first :: signature) s = operands signature t := bind_ok h

/-- **Operands that are supplied** are taken, and nothing else. By induction on how they are. -/
theorem operands_supplies (h : Supplies rest signature tokens) : ∀ s : State,
    operands signature (s.facing (tokens ++ rest)) = .ok () (s.past tokens.length rest) := by
  induction h with
  | nil => exact fun _ => rfl
  | @star signature tokens h ih =>
    intro s
    have hstar : operand .star (s.facing (.char '*' :: tokens ++ rest)) =
        .ok () (s.past 1 (tokens ++ rest)) := rfl
    rw [operands_cons hstar, past_eq_facing, ih, past_past, List.length_cons]
  | @noStar signature tokens h hhead ih =>
    intro s
    have hstar : operand .star (s.facing (tokens ++ rest)) = .ok () (s.facing (tokens ++ rest)) :=
      skipStar_eq_self hhead
    rw [operands_cons hstar, ih]
  | @option signature tokens given hgap hcontent h ih =>
    intro s
    have hoption : operand .optional (s.facing (given.bracketed ++ (tokens ++ rest))) =
        .ok () (s.past given.bracketed.length (tokens ++ rest)) :=
      discard_ok (optionalArgument_given hgap hcontent)
    rw [List.append_assoc, operands_cons hoption, past_eq_facing, ih, past_past,
      List.length_append, Nat.add_comm]
  | @noOption signature tokens h hnone ih =>
    intro s
    have hoption : operand .optional (s.facing (tokens ++ rest)) =
        .ok () (s.facing (tokens ++ rest)) := discard_ok (optionalArgument_none hnone)
    rw [operands_cons hoption, ih]
  | @group signature tokens given hgap hcontent h ih =>
    intro s
    have hgroup : operand .mandatory (s.facing (given.grouped ++ (tokens ++ rest))) =
        .ok () (s.past given.grouped.length (tokens ++ rest)) :=
      discard_ok (argument_grouped hgap hcontent)
    rw [List.append_assoc, operands_cons hgroup, past_eq_facing, ih, past_past,
      List.length_append, Nat.add_comm]

end Scan

/-! ### Signatures of marks -/

/-- The operands in the order in which the signature of a mark has them. -/
def Signature.inOrder (star : Bool) (options groups : Nat) : Signature :=
  (if star then [.star] else []) ++
    (List.replicate options .optional ++ List.replicate groups .mandatory)

/-- The signature of a mark. Behind a star a group must be given, so that a star behind the command
is never one of the text. -/
structure Signature.IsOfMark (signature : Signature) : Prop where
  inOrder : signature = .inOrder (signature.contains .star) (signature.count .optional)
    signature.mandatoryCount
  group : signature.contains .star = true → 0 < signature.mandatoryCount

instance (signature : Signature) : Decidable signature.IsOfMark :=
  decidable_of_iff (signature = .inOrder (signature.contains .star) (signature.count .optional)
      signature.mandatoryCount ∧ (signature.contains .star = true → 0 < signature.mandatoryCount))
    ⟨fun h => ⟨h.1, h.2⟩, fun h => ⟨h.1, h.2⟩⟩

/-- The name of a mark is neither structural nor that of a flag. -/
structure IsMarkName (name : String) : Prop where
  plain : (Structural.entries.map Prod.fst).contains name = false
  noTrue : Text.dropTail? "true" name = none
  noFalse : Text.dropTail? "false" name = none
  noTest : Text.dropHead? "if" name = none

instance (name : String) : Decidable (IsMarkName name) :=
  decidable_of_iff ((Structural.entries.map Prod.fst).contains name = false ∧
      Text.dropTail? "true" name = none ∧ Text.dropTail? "false" name = none ∧
      Text.dropHead? "if" name = none)
    ⟨fun h => ⟨h.1, h.2.1, h.2.2.1, h.2.2.2⟩, fun h => ⟨h.1, h.2, h.3, h.4⟩⟩

/-- An effect of a mark has a signature and a name of one. -/
def Effect.fitsMark (name : String) : Effect → Bool
  | .placeholder _ signature => decide (signature.IsOfMark ∧ IsMarkName name)
  | _ => true

theorem Effect.fitsMark_entries : ∀ entry ∈ Command.entries, entry.2.fitsMark entry.1 = true := by
  decide +kernel

/-- **The marks of the table** have signatures and names of marks. -/
theorem Effect.marks_of_ofName? {name : String} {kind : Placeholder} {signature : Signature}
    (h : Effect.ofName? name = some (.placeholder kind signature)) :
    signature.IsOfMark ∧ IsMarkName name :=
  of_decide_eq_true (Effect.fitsMark_entries _ (Effect.mem_of_ofName? h))

/-! ### Uses that fit -/

section Fits

variable {signature : Signature} {rest tokens : List Token} {given : Given} {use : Use}

theorem noOption_grouped (hgap : AllSpaces given.gap) (tokens : List Token) :
    Scan.NoOption (given.grouped ++ tokens) := by
  intro offset
  unfold Given.grouped
  rw [List.append_assoc, braced_append, pastSpacesFrom?_spaces hgap (by simp)]
  simp

theorem head?_gap_append (hgap : AllSpaces given.gap) {t : Token} (ht : t ≠ .char '*')
    (tokens : List Token) : (given.gap ++ t :: tokens).head? ≠ some (.char '*') := by
  cases hcase : given.gap with
  | nil => simpa using ht
  | cons x spaces =>
    rw [hgap x (by rw [hcase]; exact List.mem_cons_self)]
    simp

theorem head?_grouped (hgap : AllSpaces given.gap) (tokens : List Token) :
    (given.grouped ++ tokens).head? ≠ some (.char '*') := by
  unfold Given.grouped
  rw [List.append_assoc, braced_append]
  exact head?_gap_append hgap (by decide) _

theorem head?_bracketed (hgap : AllSpaces given.gap) (tokens : List Token) :
    (given.bracketed ++ tokens).head? ≠ some (.char '*') := by
  unfold Given.bracketed
  rw [List.append_assoc, inBrackets_append]
  exact head?_gap_append hgap (by decide) _

theorem supplies_groups : ∀ groups : List Given,
    (∀ given ∈ groups, AllSpaces given.gap) → (∀ given ∈ groups, IsGroup given.content) →
    Supplies rest (List.replicate groups.length .mandatory) (groups.flatMap Given.grouped)
  | [], _, _ => .nil
  | given :: groups, hgap, hcontent => by
    obtain ⟨hfirst, hgap⟩ := List.forall_mem_cons.mp hgap
    obtain ⟨hcontent', hcontent⟩ := List.forall_mem_cons.mp hcontent
    exact .group hfirst hcontent' (supplies_groups groups hgap hcontent)

theorem Supplies.leaveOut (h : Supplies rest signature tokens) (n : Nat)
    (hnone : 0 < n → Scan.NoOption (tokens ++ rest)) :
    Supplies rest (List.replicate n .optional ++ signature) tokens := by
  induction n with
  | zero => exact h
  | succ n ih => exact .noOption (ih fun _ => hnone n.succ_pos) (hnone n.succ_pos)

theorem Supplies.options (h : Supplies rest signature tokens) : ∀ (options : List Given) (n : Nat),
    options.length ≤ n → (∀ given ∈ options, AllSpaces given.gap) →
    (∀ given ∈ options, IsOption given.content) →
    (options.length < n → Scan.NoOption (tokens ++ rest)) →
    Supplies rest (List.replicate n .optional ++ signature)
      (options.flatMap Given.bracketed ++ tokens)
  | [], n, _, _, _, hnone => h.leaveOut n hnone
  | given :: options, 0, hle, _, _, _ => absurd hle (Nat.not_succ_le_zero _)
  | given :: options, n + 1, hle, hgap, hcontent, hnone => by
    obtain ⟨hfirst, hgap⟩ := List.forall_mem_cons.mp hgap
    obtain ⟨hcontent', hcontent⟩ := List.forall_mem_cons.mp hcontent
    rw [List.flatMap_cons, List.append_assoc, List.replicate_succ, List.cons_append]
    exact .option hfirst hcontent' (h.options options n (Nat.le_of_succ_le_succ hle) hgap hcontent
      fun hlt => hnone (Nat.succ_lt_succ hlt))

/-- **A use that fits** supplies the operands of a mark. -/
theorem Use.Fits.supplies (h : use.Fits signature rest) (hmark : signature.IsOfMark) :
    Supplies rest signature use.tokens := by
  have hgap := List.forall_mem_append.mp h.gap
  have hgroups : Supplies rest (List.replicate signature.mandatoryCount .mandatory)
      (use.groups.flatMap Given.grouped) := by
    rw [← h.groups]
    exact supplies_groups use.groups hgap.2 h.isGroup
  -- Only where no group comes next does it count what stands behind the use.
  have hnone : use.options.length < signature.count .optional →
      Scan.NoOption (use.groups.flatMap Given.grouped ++ rest) := by
    intro hlt
    cases hcase : use.groups with
    | nil => exact h.noOption hlt hcase
    | cons given groups =>
      rw [List.flatMap_cons, List.append_assoc]
      exact noOption_grouped (hgap.2 given (by rw [hcase]; exact List.mem_cons_self)) _
  have hoptions := hgroups.options use.options _ h.options hgap.1 h.isOption hnone
  rw [hmark.inOrder]
  unfold Signature.inOrder Use.tokens Use.star
  cases hstar : signature.contains .star with
  | false =>
    have hplain : use.starred = false := by
      refine Bool.eq_false_iff.mpr fun hstarred => ?_
      rw [List.contains_iff_mem.mpr (h.star hstarred)] at hstar
      cases hstar
    rw [hplain]
    exact hoptions
  | true =>
    cases use.starred with
    | true => exact .star hoptions
    | false =>
      show Supplies rest (.star :: _) ([] ++ _)
      rw [List.nil_append]
      refine .noStar hoptions ?_
      -- The first token is of a gap, a bracket or a brace, since some group is there.
      have hpos : 0 < use.groups.length := by
        rw [h.groups]
        exact hmark.group hstar
      obtain ⟨given, groups, hcase⟩ := List.exists_cons_of_length_pos hpos
      have hgroup : AllSpaces given.gap := hgap.2 given (by rw [hcase]; exact List.mem_cons_self)
      cases hopt : use.options with
      | nil =>
        rw [hcase, List.flatMap_cons, List.flatMap_nil, List.nil_append, List.append_assoc]
        exact head?_grouped hgroup _
      | cons option options =>
        have hoption : AllSpaces option.gap :=
          hgap.1 option (by rw [hopt]; exact List.mem_cons_self)
        rw [List.flatMap_cons, List.append_assoc, List.append_assoc]
        exact head?_bracketed hoption _

end Fits

/-! ### Taking a use and leaving the mark -/

namespace Scan

open State

variable {setting : Setting} {nested : Frame → Scan Flow} {frame : Frame} {s : State}

/-- **A command that leaves a mark takes its use exactly.** Let the table give a command a mark, let
the source not have defined it, and let the use behind it fit its signature. In a state that collects
prose the command takes the use and nothing of what stands behind it, and adds the mark to the draft;
all else is as it was. -/
theorem marking_command_takes_its_use (setting : Setting) (nested : Frame → Scan Flow)
    (frame : Frame) (s : State) (name : String) (kind : Placeholder) (signature : Signature)
    (use : Use) (rest : List Token)
    (heffect : Effect.ofName? name = some (.placeholder kind signature))
    (hfind : s.dictionary.find? name = none) (hcapturing : s.capturing = true)
    (huse : use.Fits signature rest) :
    command setting nested frame name (s.facing (use.tokens ++ rest)) =
      .ok .goOn { s with
        stream := ⟨rest, s.consumed + use.tokens.length⟩
        draft := ⟨.placeholder kind :: s.draft.newestFirst⟩ } := by
  obtain ⟨hmark, hname⟩ := Effect.marks_of_ofName? heffect
  have hbare : isBareTest name = false := by
    unfold isBareTest
    rw [heffect, Option.isNone_some, Bool.and_false]
  have hmeaning : (s.facing (use.tokens ++ rest)).dictionary.meaning name =
      .effect (.placeholder kind signature) :=
    (Dictionary.Means.effect hfind (Dictionary.flagSetting?_eq_none hname.noTrue hname.noFalse)
      (Dictionary.testedFlag?_eq_none hname.noTest) hbare heffect).meaning_eq
  have htaken : operands signature (s.facing (use.tokens ++ rest)) =
      .ok () (s.past use.tokens.length rest) := operands_supplies (huse.supplies hmark) s
  have hemit : (s.past use.tokens.length rest).emit (.placeholder kind) =
      { s with
        stream := ⟨rest, s.consumed + use.tokens.length⟩
        draft := ⟨.placeholder kind :: s.draft.newestFirst⟩ } := by
    have hcapturing' : (s.past use.tokens.length rest).capturing = true := hcapturing
    unfold State.emit
    rw [if_pos hcapturing']
    rfl
  have hdone : carryOut setting name (.effect (.placeholder kind signature))
      (s.facing (use.tokens ++ rest)) =
        .ok () ((s.past use.tokens.length rest).emit (.placeholder kind)) := bind_ok htaken
  rw [command_meaning (Structural.ofName?_eq_none_iff.mpr hname.plain), hmeaning, ← hemit]
  exact bind_ok hdone

/-- A star, one argument in brackets with brackets in a group, and a group behind a gap. -/
def citation : Use where
  starred := true
  options := [⟨[.space], [.char 'p', .openGroup, .char ']', .closeGroup]⟩]
  groups := [⟨[.space, .space], [.char 'K', .openGroup, .closeGroup]⟩]

/-- The beginning of a proof, behind one letter. -/
def begun (tokens : List Token) : State :=
  { State.start "main.tex" tokens with proofDepth := 1, draft := ⟨[.char 'A']⟩ }

/-- **A citation** with one of its two arguments in brackets, in a proof that has begun. -/
theorem citation_takes_its_use :
    Effect.ofName? "cite" =
      some (.placeholder .citation [.star, .optional, .optional, .mandatory]) ∧
    (begun []).dictionary.find? "cite" = none ∧ (begun []).capturing = true ∧
    citation.Fits [.star, .optional, .optional, .mandatory] [.char '[', .char '*'] ∧
    command .alone (scan .alone) .file "cite" (begun (citation.tokens ++ [.char '[', .char '*'])) =
      .ok .goOn { begun [] with
        stream := ⟨[.char '[', .char '*'], 15⟩
        draft := ⟨[.placeholder .citation, .char 'A']⟩ } := by
  have heffect : Effect.ofName? "cite" =
      some (.placeholder .citation [.star, .optional, .optional, .mandatory]) :=
    Effect.ofName?_of_lookup (by decide +kernel)
  have hfind : (begun []).dictionary.find? "cite" = none := Dictionary.find?_empty "cite"
  have hoption : IsOption [.char 'p', .openGroup, .char ']', .closeGroup] :=
    ⟨⟨by decide, by decide⟩,
      .token rfl (by decide) (by decide) (.group (.token rfl .nil) .nil)⟩
  have hgroup : IsGroup [.char 'K', .openGroup, .closeGroup] :=
    ⟨⟨by decide, by decide⟩, .token rfl (.group .nil .nil)⟩
  have huse : citation.Fits [.star, .optional, .optional, .mandatory] [.char '[', .char '*'] :=
    { star := fun _ => List.mem_cons_self
      options := by decide
      groups := rfl
      gap := by unfold AllSpaces; decide
      isOption := List.forall_mem_singleton.mpr hoption
      isGroup := List.forall_mem_singleton.mpr hgroup
      noOption := fun _ h => by cases h }
  exact ⟨heffect, hfind, rfl, huse, marking_command_takes_its_use .alone (scan .alone) .file
    (begun []) "cite" .citation _ citation _ heffect hfind rfl huse⟩

end Scan

end ProofProse
