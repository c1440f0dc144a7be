import ProofProse.Proofs.Branch
import ProofProse.Proofs.Call

/-! # Names that are defined in a branch

In a branch that is passed over, a definition is neutral if the branch ends where it would end
without the definition (`Neutral`). The word behind one of `namingCommands` is passed over whatever
it is. The other commands that define a control sequence are passed over like any other, and so is
the word that they define, by itself or in braces: where it opens a conditional, this one is counted
(`deepens_definition`). So such a definition is neutral just if it is one of the naming commands
or the word opens no conditional (`definitions_in_branches`). -/

namespace ProofProse

/-! ### Definitions as they are written -/

namespace DefinitionKind

/-- The name that is defined is read as an argument. -/
def takesArgument : DefinitionKind → Bool
  | newCommand | provideCommand | mathOperator | pairedDelimiter => true
  | _ => false

/-- The name that is defined is that of a command. -/
def definesCommand : DefinitionKind → Bool
  | parameterText | copy | newTest => true
  | kind => kind.takesArgument

end DefinitionKind

/-- How the name that is defined is written behind the command that defines it. -/
inductive WritesTarget (kind : DefinitionKind) (target : String) : List Token → Prop
  | bare (hkind : kind.definesCommand = true) : WritesTarget kind target [.control target]
  | braced (hkind : kind.takesArgument = true) : WritesTarget kind target (braced [.control target])

/-- A command that defines does not look like a test and ends no branch, and a naming command takes
no argument. -/
def Effect.definesPlainly : String × Effect → Bool
  | (name, .definition kind) => !beginsLikeTest name && name != "fi" && name != "else" &&
      !(namingCommands.contains name && kind.takesArgument)
  | _ => true

theorem definesPlainly_entries : ∀ entry ∈ Command.entries, Effect.definesPlainly entry = true := by
  decide +kernel

section Branches

variable {opens : String → Bool} {command target : String} {kind : DefinitionKind}
  {tokens written : List Token}

/-! ### Branches with tokens taken out -/

/-- A reading that began some tokens later. -/
def Reading.later {α : Type} (reading : Reading α) (k : Nat) : Reading α :=
  { reading with count := reading.count + k }

theorem branchFrom_later (opens : String → Bool) (atElse : Bool) (limit k : Nat) :
    ∀ (tokens : List Token) (named : Bool) (depth count fileEnds : Nat),
      branchFrom (limit + k) opens atElse named depth (count + k) fileEnds tokens =
        (branchFrom limit opens atElse named depth count fileEnds tokens).later k := by
  intro tokens
  induction tokens with
  | nil =>
    intro named depth count fileEnds
    have hcount : (count + k > limit + k) = (count > limit) := by simp
    unfold branchFrom Reading.later
    simp only [hcount]
  | cons t rest ih =>
    intro named depth count fileEnds
    have hnext : count + k + 1 = count + 1 + k := by omega
    unfold branchFrom
    by_cases hnamed : named = true
    · rw [if_pos hnamed, if_pos hnamed, hnext]
      exact ih ..
    rw [if_neg hnamed, if_neg hnamed]
    by_cases hcount : count > limit
    · rw [if_pos hcount, if_pos (by omega)]
      rfl
    rw [if_neg hcount, if_neg (by omega)]
    cases t with
    | control name =>
      dsimp only
      rw [hnext]
      split
      · cases depth with
        | zero => rfl
        | succ depth => exact ih ..
      · split
        · rfl
        · split
          · exact ih ..
          · split
            · exact ih ..
            · exact ih ..
    | _ =>
      dsimp only
      rw [hnext]
      exact ih ..

/-- Some tokens in a branch are as if they were not there: it ends where it would end without them.
-/
def Neutral (opens : String → Bool) (tokens : List Token) : Prop :=
  ∀ (limit : Nat) (atElse : Bool) (depth count fileEnds : Nat) (rest : List Token), count ≤ limit →
    branchFrom (limit + tokens.length) opens atElse false depth count fileEnds (tokens ++ rest) =
      (branchFrom limit opens atElse false depth count fileEnds rest).later tokens.length

/-- Passing over some tokens, within the limit, opens so many conditionals more. -/
def Deepens (opens : String → Bool) (n : Nat) (tokens : List Token) : Prop :=
  ∀ (limit : Nat) (atElse : Bool) (depth count fileEnds : Nat) (rest : List Token),
    count + tokens.length ≤ limit →
      branchFrom limit opens atElse false depth count fileEnds (tokens ++ rest) =
        branchFrom limit opens atElse false (depth + n) (count + tokens.length) fileEnds rest

theorem Deepens.neutral (h : Deepens opens 0 tokens) : Neutral opens tokens := by
  intro limit atElse depth count fileEnds rest hcount
  rw [h _ _ _ _ _ _ (by omega), branchFrom_later]
  rfl

theorem Deepens.not_neutral (h : Deepens opens 1 tokens) : ¬Neutral opens tokens := by
  intro hneutral
  have hends := hneutral 0 false 0 0 0 [.control "fi"] (Nat.le_refl 0)
  rw [h _ _ _ _ _ _ (by omega), branchFrom_inner_fi (by omega),
    branchFrom_fi (Nat.le_refl 0)] at hends
  -- The tokens run out, within the limit or not.
  have hresult := congrArg Reading.result hends
  unfold branchFrom at hresult
  dsimp only [Reading.later] at hresult
  split at hresult <;> cases hresult

theorem Deepens.append {m n : Nat} {more : List Token} (h : Deepens opens m tokens)
    (hmore : Deepens opens n more) : Deepens opens (m + n) (tokens ++ more) := by
  intro limit atElse depth count fileEnds rest hcount
  rw [List.length_append] at hcount ⊢
  rw [List.append_assoc, h _ _ _ _ _ _ (by omega), hmore _ _ _ _ _ _ (by omega), Nat.add_assoc,
    Nat.add_assoc]

/-! ### Definitions in a branch -/

theorem deepens_plain {t : Token} (ht : t.IsPlain opens) (helse : t ≠ .control "else") :
    Deepens opens 0 [t] := by
  intro limit atElse depth count fileEnds rest hcount
  have hnone : t = .control "else" → false = true := fun h => absurd h helse
  rw [List.length_singleton] at hcount
  exact branchFrom_plain ht hnone nofun (by omega)

theorem deepens_test (htarget : beginsLikeTest target = true) :
    Deepens opens (if opens target then 1 else 0) [.control target] := by
  cases hopen : opens target with
  | true =>
    intro limit atElse depth count fileEnds rest hcount
    rw [List.length_singleton] at hcount
    exact branchFrom_opener hopen htarget (by omega)
  | false =>
    have hne : ∀ other, beginsLikeTest other = false → target ≠ other := by
      rintro other hother rfl
      rw [htarget] at hother
      cases hother
    have hnaming : namingCommands.contains target = false := by
      have hall : ∀ other ∈ namingCommands, beginsLikeTest other = false := by decide
      refine Bool.eq_false_iff.mpr fun h => ?_
      exact hne target (hall target (List.contains_iff_mem.mp h)) rfl
    refine deepens_plain ⟨hne "fi" (by decide), hnaming, hopen⟩ fun h => ?_
    exact hne "else" (by decide) (Token.control.inj h)

theorem deepens_target (htarget : beginsLikeTest target = true)
    (hwritten : WritesTarget kind target written) :
    Deepens opens (if opens target then 1 else 0) written := by
  have htest : Deepens opens _ _ := deepens_test htarget
  cases hwritten with
  | bare => exact htest
  | braced =>
    have hopened : Deepens opens 0 [.openGroup] := deepens_plain trivial nofun
    have hclosed : Deepens opens 0 [.closeGroup] := deepens_plain trivial nofun
    have hgroup := (hopened.append htest).append hclosed
    rwa [Nat.zero_add, Nat.add_zero] at hgroup

theorem definesPlainly_of_definition (h : Effect.ofName? command = some (.definition kind)) :
    beginsLikeTest command = false ∧ command ≠ "fi" ∧ command ≠ "else" ∧
      (namingCommands.contains command = true → kind.takesArgument = false) := by
  have hplain := definesPlainly_entries _ (Effect.mem_of_ofName? h)
  unfold Effect.definesPlainly at hplain
  simp only [Bool.and_eq_true, Bool.not_eq_true', Bool.and_eq_false_imp, bne_iff_ne] at hplain
  obtain ⟨⟨⟨htest, hfi⟩, helse⟩, htakes⟩ := hplain
  exact ⟨htest, hfi, helse, htakes⟩

/-- **A definition** is passed over with the name that it defines. Where it is none of the naming
commands, the name counts if it opens a conditional. -/
theorem deepens_definition (hopens : ∀ name, opens name = true → beginsLikeTest name = true)
    (hcommand : Effect.ofName? command = some (.definition kind))
    (hwritten : WritesTarget kind target written) (htarget : beginsLikeTest target = true) :
    Deepens opens (if !namingCommands.contains command && opens target then 1 else 0)
      (.control command :: written) := by
  obtain ⟨htest, hfi, helse, htakes⟩ := definesPlainly_of_definition hcommand
  cases hnaming : namingCommands.contains command with
  | true =>
    cases hwritten with
    | bare =>
      intro limit atElse depth count fileEnds rest hcount
      exact branchFrom_naming hnaming (by simp only [List.length_cons] at hcount; omega)
    | braced hkind =>
      rw [htakes hnaming] at hkind
      cases hkind
  | false =>
    have hplain : (Token.control command).IsPlain opens := by
      refine ⟨hfi, hnaming, Bool.eq_false_iff.mpr fun hopen => ?_⟩
      rw [hopens command hopen] at htest
      cases htest
    have hfirst := deepens_plain hplain (by simpa using helse)
    have hboth := hfirst.append (deepens_target htarget hwritten)
    rwa [Nat.zero_add] at hboth

end Branches

/-- **Definitions in branches.** A definition of an if-word that the source has not defined is
passed over with the word, by itself or in braces, and opens a conditional if it is none of the
naming commands and the word tests a flag or is a bare test. So it is neutral just if it is one of
the naming commands or the word is no test. -/
theorem definitions_in_branches (d : Dictionary) {command target : String} {kind : DefinitionKind}
    {written : List Token} (hcommand : Effect.ofName? command = some (.definition kind))
    (hwritten : WritesTarget kind target written) (htarget : beginsLikeTest target = true)
    (hfind : d.find? target = none) :
    Deepens d.opensConditional
        (if !namingCommands.contains command && ((d.testedFlag? target).isSome || isBareTest target)
          then 1 else 0) (.control command :: written) ∧
      (Neutral d.opensConditional (.control command :: written) ↔
        namingCommands.contains command = true ∨
          d.testedFlag? target = none ∧ isBareTest target = false) := by
  have hopens : d.opensConditional target =
      ((d.testedFlag? target).isSome || isBareTest target) := by
    unfold Dictionary.opensConditional
    rw [hfind, Option.isNone_none, Bool.and_true]
  have hdeepens := deepens_definition
    (fun _ => Dictionary.beginsLikeTest_of_opensConditional (d := d)) hcommand hwritten htarget
  rw [hopens] at hdeepens
  refine ⟨hdeepens, ?_⟩
  -- What is counted is one word or none.
  have hcounts : (!namingCommands.contains command &&
      ((d.testedFlag? target).isSome || isBareTest target)) = false ↔
        namingCommands.contains command = true ∨
          d.testedFlag? target = none ∧ isBareTest target = false := by
    simp [Decidable.or_iff_not_imp_left]
  rw [← hcounts]
  cases hcase : !namingCommands.contains command &&
      ((d.testedFlag? target).isSome || isBareTest target) with
  | true =>
    rw [hcase] at hdeepens
    exact iff_of_false hdeepens.not_neutral nofun
  | false =>
    rw [hcase] at hdeepens
    exact iff_of_true hdeepens.neutral rfl

theorem isBareTest_ifnew : isBareTest "ifnew" = true :=
  isBareTest_of_beginsLikeTest (by decide) (by decide +kernel)

/-- The same new test is passed over behind one command and counted behind the other. -/
theorem new_test_in_a_branch :
    let d := (State.start "main.tex" []).dictionary
    let declared : List Token := .control "newif" :: [.control "ifnew"]
    let defined : List Token := .control "newcommand" :: braced [.control "ifnew"]
    Effect.ofName? "newif" = some (.definition .newTest) ∧
      Effect.ofName? "newcommand" = some (.definition .newCommand) ∧
      WritesTarget .newTest "ifnew" [.control "ifnew"] ∧
      WritesTarget .newCommand "ifnew" (braced [.control "ifnew"]) ∧ d.find? "ifnew" = none ∧
      Neutral d.opensConditional declared ∧ ¬Neutral d.opensConditional defined := by
  intro d declared defined
  have hdeclares : Effect.ofName? "newif" = some (.definition .newTest) :=
    Effect.ofName?_of_lookup (by decide +kernel)
  have hfind : d.find? "ifnew" = none := Dictionary.find?_empty "ifnew"
  have hfirst := definitions_in_branches d hdeclares (.bare rfl) (by decide) hfind
  have hsecond := definitions_in_branches d Scan.ofName?_newCommand (.braced rfl) (by decide) hfind
  refine ⟨hdeclares, Scan.ofName?_newCommand, .bare rfl, .braced rfl, hfind,
    hfirst.2.mpr (.inl (by decide)), fun hneutral => ?_⟩
  obtain hnaming | ⟨-, hnone⟩ := hsecond.2.mp hneutral
  · exact absurd hnaming (by decide)
  · rw [isBareTest_ifnew] at hnone
    cases hnone

namespace Scan

/-- A branch with a new command in it does not end at the `fi` behind it. -/
theorem branch_runs_past_its_end :
    ¬∀ (setting : Setting) (s : State) (command target : String) (kind : DefinitionKind)
      (written rest : List Token) (t : State), Effect.ofName? command = some (.definition kind) →
      WritesTarget kind target written → beginsLikeTest target = true →
      s.dictionary.find? target = none →
      skipBranch setting true (s.facing rest) = .ok () t →
      ∃ u, skipBranch setting true (s.facing (.control command :: written ++ rest)) = .ok () u ∧
        u.stream.ahead = t.stream.ahead := by
  intro h
  let setting : Setting := ⟨{}, .empty⟩
  let s := State.start "main.tex" []
  let opens := s.dictionary.opensConditional
  let tokens : List Token := .control "newcommand" :: braced [.control "ifnew"]
  have hopens : opens "ifnew" = true := (opens_of_isBareTest isBareTest_ifnew).1
  have hdeepens : Deepens opens 1 tokens := by
    have hall : Deepens opens
        (if !namingCommands.contains "newcommand" && opens "ifnew" then 1 else 0) tokens :=
      deepens_definition (fun _ => Dictionary.beginsLikeTest_of_opensConditional) ofName?_newCommand
        (.braced rfl) (by decide)
    rwa [hopens] at hall
  have hread : readBranch setting.options.conditionalLimit opens true (tokens ++ [.control "fi"]) =
      ⟨.ended, [], 5, 0⟩ := by
    unfold readBranch
    rw [hdeepens _ _ _ _ _ _ (by decide), branchFrom_inner_fi (by decide)]
    rfl
  let read : State → List Token → Reading RegionEnd := fun s =>
    readBranch setting.options.conditionalLimit s.dictionary.opensConditional true
  have htake : take read (s.facing (tokens ++ [.control "fi"])) = .ok .ended _ :=
    take_of_eq read (s.facing (tokens ++ [Token.control "fi"])) hread
  have hfind : s.dictionary.find? "ifnew" = none := Dictionary.find?_empty "ifnew"
  obtain ⟨u, hrun, -⟩ := h setting s "newcommand" "ifnew" .newCommand (braced [.control "ifnew"])
    [.control "fi"] _ ofName?_newCommand (.braced rfl) (by decide) hfind rfl
  unfold skipBranch at hrun
  rw [bind_ok htake] at hrun
  cases hrun

end Scan

end ProofProse
