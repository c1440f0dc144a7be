import ProofProse.Proofs.Renaming

/-! # Commands that are defined and called

A declaration with a number of parameters and perhaps a fallback enters what it declares
(`declaration_newCommand`). A call of what was entered reads its arguments as they stand, each from
its own braces or brackets (`callArguments_calls`, by induction on the arguments), and is replaced by
the body with the arguments in the places of the parameters. Where what is in braces is well nested
and what is in brackets is bracketed, nothing else is read, nothing is lost, and the order is kept
(`defined_commands_expand`). -/

namespace ProofProse

/-! ### Declarations and calls -/

/-- Some tokens as a group. -/
def braced (tokens : List Token) : List Token := .openGroup :: (tokens ++ [.closeGroup])

/-- Some tokens in brackets. -/
def inBrackets (tokens : List Token) : List Token := .char '[' :: (tokens ++ [.char ']'])

/-- Tokens that are read as they stand: they end no environment and hold no end of a file. -/
structure IsVerbal (tokens : List Token) : Prop where
  noEnd : .control "end" ∉ tokens
  noMarks : marks tokens = 0

/-- What may stand in braces. -/
structure IsGroup (tokens : List Token) : Prop extends IsVerbal tokens where
  nested : WellNested tokens

/-- What may stand in brackets: any brackets in it are within groups, or belong to a pair. -/
structure IsOption (tokens : List Token) : Prop extends IsVerbal tokens where
  bracketed : Bracketed tokens

/-- What stands behind the declarer of a command with `n` parameters. -/
def declarationTokens (name : String) (n : Nat) (fallback : Option (List Token))
    (body : List Token) : List Token :=
  braced [.control name] ++ inBrackets (charTokens (toString n)) ++
    (fallback.map inBrackets).getD [] ++ braced body

/-- What stands behind a command that is called with some arguments, in front of `rest`. With a
fallback the first argument stands in brackets, or it is the fallback and left out. -/
inductive Calls (rest : List Token) :
    Option (List Token) → List (List Token) → List Token → Prop
  | plain {arguments : List (List Token)} (harguments : ∀ content ∈ arguments, IsGroup content) :
      Calls rest none arguments (arguments.flatMap braced)
  | bracketed {fallback first : List Token} {arguments : List (List Token)} (hfirst : IsOption first)
      (harguments : ∀ content ∈ arguments, IsGroup content) :
      Calls rest (some fallback) (first :: arguments)
        (inBrackets first ++ arguments.flatMap braced)
  | leftOut {fallback : List Token} {arguments : List (List Token)}
      (harguments : ∀ content ∈ arguments, IsGroup content) (hrest : arguments = [] → Scan.NoOption rest) :
      Calls rest (some fallback) (fallback :: arguments) (arguments.flatMap braced)

/-- A token of a body, with the arguments put in the places of the parameters, which are counted from
one. The parameter of a later definition comes one definition nearer. -/
def putIn (arguments : List (List Token)) : Token → List Token
  | .parameter i => if i = 0 then [] else arguments.getD (i - 1) []
  | .deferred i => [.parameter i]
  | t => [t]

/-- What a call of `name` comes to: the body with the arguments put in, and the name made inert. -/
def calledWith (name : String) (arguments : List (List Token)) (body : List Token) : List Token :=
  (body.flatMap (putIn arguments)).map (Definition.inertIn name)

/-- The state in which a command is defined. -/
def State.declaring (s : State) (name : String) (n : Nat) (fallback : Option (List Token))
    (body : List Token) : State :=
  { s with dictionary := s.dictionary.enter name (.defined (.ofOptional n fallback body)) }

section Tokens

variable {name : String} {n : Nat} {content rest : List Token} {fallback : Option (List Token)}
  {body : List Token}

theorem braced_append (content rest : List Token) :
    braced content ++ rest = .openGroup :: (content ++ .closeGroup :: rest) := by
  unfold braced
  rw [List.cons_append, List.append_assoc]
  rfl

theorem inBrackets_append (content rest : List Token) :
    inBrackets content ++ rest = .char '[' :: (content ++ .char ']' :: rest) := by
  unfold inBrackets
  rw [List.cons_append, List.append_assoc]
  rfl

theorem length_braced (content : List Token) : (braced content).length = content.length + 2 := by
  unfold braced
  rw [List.length_cons, List.length_append, List.length_singleton]

theorem length_inBrackets (content : List Token) :
    (inBrackets content).length = content.length + 2 := by
  unfold inBrackets
  rw [List.length_cons, List.length_append, List.length_singleton]

theorem declarationTokens_append (name : String) (n : Nat) (fallback : Option (List Token))
    (body rest : List Token) :
    declarationTokens name n fallback body ++ rest =
      braced [.control name] ++ (inBrackets (charTokens (toString n)) ++
        ((fallback.map inBrackets).getD [] ++ (braced body ++ rest))) := by
  unfold declarationTokens
  rw [List.append_assoc, List.append_assoc, List.append_assoc]

theorem noOption_braced (content rest : List Token) : Scan.NoOption (braced content ++ rest) :=
  fun _ h => by rw [braced_append] at h; cases h

theorem substitute_eq_calledWith (name : String) (body : List Token) (arguments : List (List Token)) :
    Definition.substitute name body arguments = calledWith name arguments body := by
  have htoken : Definition.expandToken name arguments =
      fun t => (putIn arguments t).map (Definition.inertIn name) := by
    funext t
    cases t with
    | parameter i => cases i <;> rfl
    | _ => rfl
  unfold Definition.substitute calledWith
  rw [List.map_flatMap, htoken]

theorem isGroup_name (hname : name ≠ "end") : IsGroup [.control name] where
  noEnd h := hname (Token.control.inj (List.mem_singleton.mp h)).symm
  noMarks := rfl
  nested := .token rfl .nil

theorem isOption_digit (hn : n ≤ 9) : IsOption (charTokens (toString n)) where
  noEnd h := by
    obtain ⟨c, -, hc⟩ := List.mem_map.mp h
    cases hc
  noMarks := by
    refine marks_eq_zero.mpr fun t ht => ?_
    obtain ⟨c, -, rfl⟩ := List.mem_map.mp ht
    exact nofun
  bracketed := by
    have hbrackets : ∀ n ≤ 9,
        .char '[' ∉ charTokens (toString n) ∧ .char ']' ∉ charTokens (toString n) := by decide
    refine WellNested.bracketed (wellNested_of_noBraces fun t ht => ?_) (hbrackets n hn)
    obtain ⟨c, -, rfl⟩ := List.mem_map.mp ht
    rfl

theorem parseNat?_digit :
    ∀ n ≤ 9, Text.parseNat? (plainText (charTokens (toString n))) = some n := by decide

theorem arity_ofOptional (hfallback : ∀ content ∈ fallback, 1 ≤ n) :
    (Definition.ofOptional n fallback body).arity = n := by
  cases fallback with
  | none => exact List.length_replicate
  | some content => exact List.length_replicate.trans (Nat.max_eq_left (hfallback content rfl))

end Tokens

/-! ### Reading arguments as they stand -/

namespace Scan

open State

variable {setting : Setting} {nested : Frame → Scan Flow} {frame : Frame} {s t : State}
  {name : String} {n : Nat} {content rest behind call : List Token}
  {arguments : List (List Token)} {fallback : Option (List Token)} {body : List Token}

theorem argument_braced (h : IsGroup content) :
    argument (s.facing (braced content ++ rest)) =
      .ok content (s.past (braced content).length rest) := by
  rw [argument_nested h.nested h.noEnd (braced_append content rest), unmarked_eq_self h.noMarks,
    h.noMarks, length_braced]
  rfl

theorem optionalArgument_inBrackets (h : IsOption content) :
    optionalArgument (s.facing (inBrackets content ++ rest)) =
      .ok (some content) (s.past (inBrackets content).length rest) := by
  rw [optionalArgument_bracketed h.bracketed h.noEnd (inBrackets_append content rest),
    unmarked_eq_self h.noMarks, h.noMarks, length_inBrackets]
  rfl

/-- **Arguments in braces** are read in order, each without its braces. -/
theorem argumentsFrom_braced (harguments : ∀ content ∈ arguments, IsGroup content) :
    ∀ (s : State) (before : List (List Token)),
      argumentsFrom before (List.replicate arguments.length [])
          (s.facing (arguments.flatMap braced ++ rest)) =
        .ok (some (before.reverse ++ arguments)) (s.past (arguments.flatMap braced).length rest) := by
  induction arguments with
  | nil =>
    intro s before
    rw [List.append_nil]
    rfl
  | cons content arguments ih =>
    intro s before
    obtain ⟨hcontent, harguments⟩ := List.forall_mem_cons.mp harguments
    have hargument : parameterArgument []
        (s.facing (braced content ++ (arguments.flatMap braced ++ rest))) =
          .ok (some content) (s.past (braced content).length (arguments.flatMap braced ++ rest)) :=
      bind_ok (argument_braced hcontent)
    have hbehind := ih harguments (s.past (braced content).length []) (content :: before)
    rw [List.flatMap_cons, List.append_assoc, List.length_append, List.length_cons,
      List.replicate_succ]
    unfold argumentsFrom
    rw [bind_ok hargument]
    refine hbehind.trans ?_
    rw [past_past, List.reverse_cons, List.append_assoc, Nat.add_comm]
    rfl

/-- What is read for the first parameter of a call that has a fallback. -/
theorem callArguments_withFallback {first : Option (List Token)} {fallback : List Token}
    (hfirst : optionalArgument s = .ok first (t.facing (arguments.flatMap braced ++ rest)))
    (harguments : ∀ content ∈ arguments, IsGroup content) :
    callArguments (.withFallback (arguments.length + 1) fallback body) s =
      .ok (some (first.getD fallback :: arguments)) (t.past (arguments.flatMap braced).length rest) := by
  have hdelimiters : (Definition.withFallback (arguments.length + 1) fallback body).delimiters =
      [] :: List.replicate arguments.length [] := by
    unfold Definition.withFallback
    rw [Nat.max_eq_left (Nat.le_add_left 1 arguments.length), List.replicate_succ]
  unfold callArguments
  rw [hdelimiters]
  exact (bind_ok hfirst).trans (argumentsFrom_braced harguments t [first.getD fallback])

/-- **The arguments of a call** are what was put into its braces and brackets. -/
theorem callArguments_calls (h : Calls rest fallback arguments call) (s : State) :
    callArguments (.ofOptional arguments.length fallback body) (s.facing (call ++ rest)) =
      .ok (some arguments) (s.past call.length rest) := by
  cases h with
  | plain harguments => exact argumentsFrom_braced harguments s []
  | @bracketed fallback first arguments hfirst harguments =>
    have hread : optionalArgument (s.facing (inBrackets first ++ (arguments.flatMap braced ++ rest))) =
        .ok (some first) (s.past (inBrackets first).length (arguments.flatMap braced ++ rest)) :=
      optionalArgument_inBrackets hfirst
    rw [List.append_assoc, List.length_append, Nat.add_comm, ← past_past s _ _ []]
    exact callArguments_withFallback (t := s.past (inBrackets first).length []) hread harguments
  | @leftOut fallback arguments harguments hrest =>
    -- Only where no argument is left does it count what stands behind the call.
    have hnone : NoOption (arguments.flatMap braced ++ rest) := by
      cases arguments with
      | nil => exact hrest rfl
      | cons content arguments =>
        rw [List.flatMap_cons, List.append_assoc]
        exact noOption_braced _ _
    have hread : optionalArgument (s.facing (arguments.flatMap braced ++ rest)) =
        .ok none (s.facing (arguments.flatMap braced ++ rest)) := optionalArgument_none hnone
    exact callArguments_withFallback hread harguments

/-! ### Declaring -/

theorem skipStar_braced : onStream (·.skipChar '*') (s.facing (braced content ++ rest)) =
    .ok () (s.facing (braced content ++ rest)) := by
  refine onStream_ok ?_
  rw [braced_append]
  rfl

theorem arity_digit (hn : n ≤ 9) :
    arity (s.facing (inBrackets (charTokens (toString n)) ++ rest)) =
      .ok n (s.past (inBrackets (charTokens (toString n))).length rest) := by
  unfold arity
  rw [bind_ok (optionalArgument_inBrackets (isOption_digit hn)), Option.map_some, Option.bind_some,
    parseNat?_digit n hn, Option.getD_some]
  unfold maxArity
  rw [Nat.min_eq_left hn]
  rfl

theorem optionalArgument_fallback (hfallback : ∀ content ∈ fallback, IsOption content) :
    optionalArgument (s.facing ((fallback.map inBrackets).getD [] ++ (braced body ++ rest))) =
      .ok fallback (s.past ((fallback.map inBrackets).getD []).length (braced body ++ rest)) := by
  cases fallback with
  | none => exact optionalArgument_none (noOption_braced body rest)
  | some content => exact optionalArgument_inBrackets (hfallback content rfl)

/-- **A declaration** reads the name, the number of parameters, the fallback and the body, and enters
them. -/
theorem declaration_newCommand (hname : name ≠ "end") (hn : n ≤ 9)
    (hfrozen : s.dictionary.isFrozen name = false) (hprotected : protectedArity? name ≠ some n)
    (hfallback : ∀ content ∈ fallback, 1 ≤ n ∧ IsOption content) (hbody : IsGroup body) :
    declaration .newCommand (s.facing (declarationTokens name n fallback body ++ behind)) =
      .ok () ((s.declaring name n fallback body).past
        (declarationTokens name n fallback body).length behind) := by
  have hdefine : s.dictionary.define name (.ofOptional n fallback body) =
      .ok (s.declaring name n fallback body).dictionary := by
    have harity : ¬(protectedArity? name == some (Definition.ofOptional n fallback body).arity) := by
      rw [arity_ofOptional fun content h => (hfallback content h).1]
      simpa using hprotected
    unfold Dictionary.define
    rw [hfrozen, if_neg Bool.false_ne_true, if_neg harity]
    rfl
  have hlength : (braced body).length + (((fallback.map inBrackets).getD []).length +
      ((inBrackets (charTokens (toString n))).length + (braced [.control name]).length)) =
      (declarationTokens name n fallback body).length := by
    unfold declarationTokens
    rw [List.length_append, List.length_append, List.length_append]
    omega
  show defineCommand false _ = _
  unfold defineCommand
  -- Each reading leaves a state behind some tokens, which is one that faces what is left.
  rw [declarationTokens_append, bind_ok skipStar_braced,
    bind_ok (argument_braced (isGroup_name hname)),
    past_eq_facing, bind_ok (arity_digit hn), past_past,
    past_eq_facing, bind_ok (optionalArgument_fallback fun content h => (hfallback content h).2),
    past_past, past_eq_facing, bind_ok (argument_braced hbody), past_past, hlength]
  show define name (.ofOptional n fallback body) (s.past _ behind) = _
  exact define_ok hdefine

theorem ofName?_newCommand : Effect.ofName? "newcommand" = some (.definition .newCommand) :=
  Effect.ofName?_of_lookup (by decide +kernel)

theorem meaning_newCommand {d : Dictionary} (hfind : d.find? "newcommand" = none) :
    d.meaning "newcommand" = .effect (.definition .newCommand) := by
  have htested : d.testedFlag? "newcommand" = none := Dictionary.testedFlag?_eq_none (by decide)
  have hsetting : d.flagSetting? "newcommand" = none :=
    Dictionary.flagSetting?_eq_none (by decide) (by decide)
  exact (Dictionary.Means.effect hfind hsetting htested rfl ofName?_newCommand).meaning_eq

/-! ### Calling what was declared -/

/-- A call that fits is replaced by the body with its arguments put in. -/
theorem expand_calls (name : String) (body : List Token) (h : Calls rest fallback arguments call)
    (s : State) :
    expand name (.ofOptional arguments.length fallback body) (s.facing (call ++ rest)) =
      .ok () (s.past call.length (calledWith name arguments body ++ rest)) := by
  have hlead : (Definition.ofOptional arguments.length fallback body).lead = [] := by
    cases fallback <;> rfl
  have hexpansion : (Definition.ofOptional arguments.length fallback body).expansion name arguments =
      calledWith name arguments body := by
    rw [← substitute_eq_calledWith]
    cases fallback <;> rfl
  have hread : expansion? name (.ofOptional arguments.length fallback body)
      (s.facing (call ++ rest)) =
        .ok (some (calledWith name arguments body)) (s.past call.length rest) := by
    unfold expansion?
    rw [hlead]
    refine (bind_ok (callArguments_calls h s)).trans ?_
    rw [Option.map_some, hexpansion]
    rfl
  unfold expand
  rw [bind_ok hread]
  rfl

/-- **A call** takes the name and its arguments, and puts the body with the arguments put in there. -/
theorem round_calls (hname : Structural.ofName? name = none)
    (hfind : s.dictionary.find? name = some (.ofOptional arguments.length fallback body))
    (h : Calls rest fallback arguments call) :
    round setting nested frame (s.facing (.control name :: (call ++ rest))) =
      .ok .goOn (s.past (call.length + 1) (calledWith name arguments body ++ rest)) := by
  let s' : State := s.past 1 []
  have hmeaning : (s'.facing (call ++ rest)).dictionary.meaning name =
      .defined (.ofOptional arguments.length fallback body) :=
    (Dictionary.Means.defined hfind).meaning_eq
  have hexpand := expand_calls name body h s'
  rw [past_past] at hexpand
  rw [round_cons rfl]
  show command setting nested frame name (s'.facing (call ++ rest)) = _
  rw [command_meaning hname, hmeaning]
  exact bind_ok hexpand

/-- **Defined commands expand to their bodies.** A declaration of a name that is neither structural,
frozen nor kept from having so many parameters takes its own tokens and enters the name, and changes
nothing else. Wherever that is what the dictionary says, a call is replaced, in any frame, by the
body with the arguments in the places of the parameters: a parameter without an argument is dropped,
a deferred one comes nearer, the name itself is made inert, and everything else stays in its order.
Tokens behind the call are left as they are. -/
theorem defined_commands_expand (setting : Setting) (nested : Frame → Scan Flow) (frame : Frame)
    (s : State) (hname : Structural.ofName? name = none)
    (hfrozen : s.dictionary.isFrozen name = false) (hprotected : protectedArity? name ≠ some n)
    (hn : n ≤ 9) (hfallback : ∀ content ∈ fallback, 1 ≤ n ∧ IsOption content)
    (hbody : IsGroup body) :
    (∀ behind, declaration .newCommand
        (s.facing (declarationTokens name n fallback body ++ behind)) =
      .ok () ((s.declaring name n fallback body).past
        (declarationTokens name n fallback body).length behind)) ∧
    (s.dictionary.find? "newcommand" = none → ∀ behind, round setting nested frame (s.facing
        (.control "newcommand" :: (declarationTokens name n fallback body ++ behind))) =
      .ok .goOn ((s.declaring name n fallback body).past
        ((declarationTokens name n fallback body).length + 1) behind)) ∧
    ∀ t : State, t.dictionary = (s.declaring name n fallback body).dictionary →
      ∀ {arguments call rest}, arguments.length = n → Calls rest fallback arguments call →
        round setting nested frame (t.facing (.control name :: (call ++ rest))) =
          .ok .goOn (t.past (call.length + 1) (calledWith name arguments body ++ rest)) := by
  have hend : name ≠ "end" := Structural.ne_of_ofName? hname (by decide)
  have hdeclaration : ∀ (t : State) behind, t.dictionary = s.dictionary → declaration .newCommand
      (t.facing (declarationTokens name n fallback body ++ behind)) =
        .ok () ((t.declaring name n fallback body).past
          (declarationTokens name n fallback body).length behind) := by
    intro t behind ht
    rw [← ht] at hfrozen
    exact declaration_newCommand hend hn hfrozen hprotected hfallback hbody
  refine ⟨fun behind => hdeclaration s behind rfl, fun hfind behind => ?_, ?_⟩
  · -- The round takes the declarer, and then declares.
    let s' : State := s.past 1 []
    have hmeaning : (s'.facing (declarationTokens name n fallback body ++ behind)).dictionary.meaning
        "newcommand" = .effect (.definition .newCommand) := meaning_newCommand hfind
    have hrun := hdeclaration s' behind rfl
    rw [round_cons rfl]
    show command setting nested frame "newcommand" (s'.facing _) = _
    rw [command_meaning (Structural.ofName?_eq_none_iff.mpr (by decide)), hmeaning]
    refine (bind_ok hrun).trans ?_
    show EStateM.Result.ok Flow.goOn (((s.declaring name n fallback body).past 1 []).past _ behind) = _
    rw [past_past]
  · rintro t ht arguments call rest rfl hcalls
    refine round_calls hname ?_ hcalls
    rw [ht]
    exact (Dictionary.find?_enter _ _ _ _).trans (if_pos rfl)

/-- A body with a group and an argument in it, a parameter of a later definition, a parameter too
many, and a call of its own. -/
def pairBody : List Token :=
  [.openGroup, .parameter 2, .closeGroup, .deferred 1, .parameter 1, .parameter 3, .control "pair"]

/-- The first argument is left out, and the second holds brackets and a call of its own. -/
theorem pair_called :
    (State.start "main.tex" []).dictionary.find? "newcommand" = none ∧
    round ⟨{}, .empty⟩ (fun _ => return .close) .file ((State.start "main.tex" []).facing
        (.control "newcommand" :: (declarationTokens "pair" 2 (some [.char 'd']) pairBody ++ []))) =
      .ok .goOn (((State.start "main.tex" []).declaring "pair" 2 (some [.char 'd']) pairBody).past
        19 []) ∧
    round ⟨{}, .empty⟩ (fun _ => return .close) .file
        (((State.start "main.tex" []).declaring "pair" 2 (some [.char 'd']) pairBody).facing
          [.control "pair", .openGroup, .char '[', .control "pair", .char ']', .closeGroup,
            .char 'z']) =
      .ok .goOn (((State.start "main.tex" []).declaring "pair" 2 (some [.char 'd']) pairBody).past 6
        [.openGroup, .char '[', .inert "pair", .char ']', .closeGroup, .parameter 1, .char 'd',
          .inert "pair", .char 'z']) := by
  have hnew : (State.start "main.tex" []).dictionary.find? "newcommand" = none :=
    Dictionary.find?_empty "newcommand"
  have hprotected : protectedArity? "pair" ≠ some 2 := by
    rw [protectedArity?_eq_none (Effect.ofName?_eq_none (by decide +kernel))]
    nofun
  have hfallback : ∀ content ∈ some [Token.char 'd'], 1 ≤ 2 ∧ IsOption content := by
    rintro content ⟨⟩
    exact ⟨by decide, ⟨by decide, by decide⟩, .token rfl (by decide) (by decide) .nil⟩
  have hbody : IsGroup pairBody := ⟨⟨by decide, by decide⟩,
    .group (.token rfl .nil) (.token rfl (.token rfl (.token rfl (.token rfl .nil))))⟩
  have hargument : IsGroup [.char '[', .control "pair", .char ']'] :=
    ⟨⟨by decide, by decide⟩, .token rfl (.token rfl (.token rfl .nil))⟩
  have hcalls : Calls [.char 'z'] (some [.char 'd'])
      [[.char 'd'], [.char '[', .control "pair", .char ']']]
      [.openGroup, .char '[', .control "pair", .char ']', .closeGroup] :=
    .leftOut (List.forall_mem_singleton.mpr hargument) nofun
  have hall := defined_commands_expand ⟨{}, .empty⟩ (fun _ => return .close) .file
    (State.start "main.tex" []) (Structural.ofName?_eq_none_iff.mpr (by decide))
    (Dictionary.isFrozen_empty "pair") hprotected (by decide) hfallback hbody
  exact ⟨hnew, hall.2.1 hnew [], hall.2.2 _ rfl rfl hcalls⟩

end Scan

end ProofProse
