import Mathlib.Data.List.TFAE
import ProofProse.Proofs.Condition

/-! # Whether a name is defined

Three commands choose by what a name means, in the source or from the start (`Scan.isKnown`), and
are given it as a control sequence or as a text. The test in a condition and the declarer of what is
not there yet ask only whether the source has said something of it (`Dictionary.knows`). So they
agree on a name just if the source has said something of it or it means nothing from the start, and
if the text gives the name (`Scan.tests_of_names`). -/

namespace ProofProse

variable {name : String}

/-! ### The test in a condition -/

/-- The test of a name, as it is written in a condition. -/
def undefinedTest (name : String) : List Token := .control "isundefined" :: braced [.control name]

theorem evaluate_undefinedTest (d : Dictionary) :
    Condition.evaluate d (undefinedTest name) = !d.knows name := by
  have hoperand : WritesArguments [[.control name]] (braced [.control name]) :=
    .cons (@WritesArgument.group [] _ nofun (.token rfl .nil)) .nil
  have hrow : TestRow.Writes ⟨⟨0, .undefined name⟩, []⟩ (undefinedTest name) :=
    ⟨_, [], (List.append_nil _).symm, @WritesTest.test _ [] _ nofun hoperand, .nil nofun⟩
  exact Condition.evaluate_written hrow

theorem not_holdsProofEnd_name : ¬HoldsProofEnd [.control name] :=
  not_holdsProofEnd_cons (not_holdsProofEnd nofun) fun _ => rfl

theorem not_holdsProofEnd_undefinedTest : ¬HoldsProofEnd (undefinedTest name) := by
  have hbrace : ¬HoldsProofEnd [.closeGroup] := not_holdsProofEnd (by decide)
  have hgroup : ¬HoldsProofEnd (braced [.control name]) :=
    not_holdsProofEnd_cons (not_holdsProofEnd_cons hbrace fun _ => rfl) nofun
  exact not_holdsProofEnd_cons hgroup fun _ => rfl

namespace Scan

variable {command : String} {asked text body : List Token} {s : State} {first : Bool}

/-! ### Commands that choose -/

/-- A command that asks something chooses the first one of the two arguments behind it, or the
second one. -/
def Chooses (command : String) (asked : List Token) (s : State) (first : Bool) : Prop :=
  ∃ kind, Effect.ofName? command = some (.choice kind) ∧
    ∀ yes no tokens rest : List Token, WritesArguments [asked, yes, no] tokens →
      (s.inProof = true → ∀ content ∈ [yes, no], ¬HoldsProofEnd content) →
      choice kind (s.facing (tokens ++ rest)) =
        .ok () (s.beyond tokens (unmarked (if first then yes else no) ++ rest))

theorem Chooses.iff (h : Chooses command asked s first) (hasked : WellNested asked) (other : Bool) :
    Chooses command asked s other ↔ first = other := by
  constructor
  · rintro ⟨kind, hkind, hother⟩
    obtain ⟨_, hname, hfirst⟩ := h
    obtain rfl := Effect.choice.inj (Option.some.inj (hname.symm.trans hkind))
    have hwritten : WritesArguments [asked, [.char 'A'], [.char 'B']] _ :=
      .cons (@WritesArgument.group [] _ nofun hasked)
        (.cons (@WritesArgument.single [] _ nofun nofun nofun rfl)
          (.cons (@WritesArgument.single [] _ nofun nofun nofun rfl) .nil))
    have hclear : ∀ content ∈ [[.char 'A'], [.char 'B']], ¬HoldsProofEnd content := by
      intro content hcontent
      refine not_holdsProofEnd ?_
      revert content
      decide
    -- Two arguments that differ tell which of them was chosen.
    have hstates := (hfirst _ _ _ [] hwritten fun _ => hclear).symm.trans
      (hother _ _ _ [] hwritten fun _ => hclear)
    have hahead := congrArg (fun t : State => t.stream.ahead) (EStateM.Result.ok.inj hstates).2
    have hdiffer : ∀ first other : Bool,
        unmarked (if first then [.char 'A'] else [.char 'B']) ++ [] =
          unmarked (if other then [.char 'A'] else [.char 'B']) ++ [] → first = other := by decide
    exact hdiffer first other hahead
  · rintro rfl
    exact h

theorem chooses_of_asking {kind : ChoiceKind} {answer : Dictionary → List Token → Bool}
    (hname : Effect.ofName? command = some (.choice kind)) (hkind : choice kind = asking answer)
    (hclear : s.inProof = true → ¬HoldsProofEnd asked) :
    Chooses command asked s (answer s.dictionary (unmarked asked)) := by
  refine ⟨kind, hname, fun yes no tokens rest hwritten hends => ?_⟩
  rw [hkind]
  refine asking_written hwritten (fun hin => ?_) rest
  exact List.forall_mem_cons.mpr ⟨hclear hin, hends hin⟩

theorem isKnown_of_ne_empty (d : Dictionary) (hname : name ≠ "") :
    isKnown d name = (d.knows name || isBuiltin name) := by
  unfold isKnown
  rw [String.isEmpty_eq_false_iff.mpr hname]
  rfl

/-- Whether the name that an argument gives is defined, or is not. -/
def nameIsKnown (byName defined : Bool) (d : Dictionary) (asked : List Token) : Bool :=
  (givenName? byName asked).any (isKnown d) == defined

theorem nameIsKnown_name (defined : Bool) (d : Dictionary) :
    nameIsKnown false defined d [.control name] = (isKnown d name == defined) := rfl

theorem nameIsKnown_text (d : Dictionary) (asked : List Token) :
    nameIsKnown true true d asked = isKnown d (plainText asked) := by
  unfold nameIsKnown givenName?
  rw [if_pos rfl, Option.any_some, beq_true]

theorem chooses_ifDefined {byName defined : Bool}
    (hname : Effect.ofName? command = some (.choice (.ifDefined byName defined)))
    (hclear : s.inProof = true → ¬HoldsProofEnd asked) :
    Chooses command asked s (nameIsKnown byName defined s.dictionary (unmarked asked)) :=
  chooses_of_asking hname rfl hclear

theorem chooses_ifDefined_name {defined : Bool}
    (htable : Effect.ofName? command = some (.choice (.ifDefined false defined)))
    (hname : name ≠ "") :
    Chooses command [.control name] s
      ((s.dictionary.knows name || isBuiltin name) == defined) := by
  rw [← isKnown_of_ne_empty s.dictionary hname, ← nameIsKnown_name]
  exact chooses_ifDefined htable fun _ => not_holdsProofEnd_name

theorem chooses_ifdef (hname : name ≠ "") :
    Chooses "ifdef" [.control name] s (s.dictionary.knows name || isBuiltin name) := by
  have htable : Effect.ofName? "ifdef" = some (.choice (.ifDefined false true)) :=
    Effect.ofName?_of_lookup (by decide +kernel)
  rw [← beq_true (s.dictionary.knows name || isBuiltin name)]
  exact chooses_ifDefined_name htable hname

theorem chooses_ifundef (hname : name ≠ "") :
    Chooses "ifundef" [.control name] s !(s.dictionary.knows name || isBuiltin name) := by
  have htable : Effect.ofName? "ifundef" = some (.choice (.ifDefined false false)) :=
    Effect.ofName?_of_lookup (by decide +kernel)
  rw [← beq_false (s.dictionary.knows name || isBuiltin name)]
  exact chooses_ifDefined_name htable hname

theorem chooses_ifcsdef (hclear : s.inProof = true → ¬HoldsProofEnd text) :
    Chooses "ifcsdef" text s (isKnown s.dictionary (plainText (unmarked text))) := by
  have htable : Effect.ofName? "ifcsdef" = some (.choice (.ifDefined true true)) :=
    Effect.ofName?_of_lookup (by decide +kernel)
  rw [← nameIsKnown_text]
  exact chooses_ifDefined htable hclear

theorem chooses_isundefined :
    Chooses "ifthenelse" (undefinedTest name) s !s.dictionary.knows name := by
  have htable : Effect.ofName? "ifthenelse" = some (.choice .ifThenElse) :=
    Effect.ofName?_of_lookup (by decide +kernel)
  have hkind : choice .ifThenElse = asking Condition.evaluate := rfl
  have hunmarked : unmarked (undefinedTest name) = undefinedTest name := rfl
  have hchooses : Chooses "ifthenelse" (undefinedTest name) s
      (Condition.evaluate s.dictionary (unmarked (undefinedTest name))) :=
    chooses_of_asking htable hkind fun _ => not_holdsProofEnd_undefinedTest
  rwa [hunmarked, evaluate_undefinedTest] at hchooses

/-! ### The declarer of what is not there -/

theorem isFrozen_of_not_knows {d : Dictionary} (h : d.knows name = false) :
    d.isFrozen name = false := by
  have hnone : d.names[name]? = none := Std.HashMap.getElem?_eq_none_of_contains_eq_false h
  unfold Dictionary.isFrozen
  rw [hnone]
  rfl

/-- **The declarer** enters the name if nothing is said of it, and leaves all as it is otherwise. -/
theorem declaration_provideCommand (hbody : WellNested body)
    (hclear : s.inProof = true → ¬HoldsProofEnd body) (rest : List Token) :
    declaration .provideCommand (s.facing (braced [.control name] ++ (braced body ++ rest))) =
      .ok () { s.beyond (braced [.control name] ++ braced body) rest with
        dictionary := if s.dictionary.knows name then s.dictionary
          else s.dictionary.enter name (.defined (.simple 0 (unmarked body))) } := by
  let t := s.beyond (braced [.control name]) []
  have htarget : argument (s.facing (braced [.control name] ++ (braced body ++ rest))) =
      .ok [.control name] (t.facing (braced body ++ rest)) :=
    argument_written (@WritesArgument.group [] _ nofun (.token rfl .nil))
      (fun _ => not_holdsProofEnd_name) _
  have hnone : optionalArgument (t.facing (braced body ++ rest)) =
      .ok none (t.facing (braced body ++ rest)) := optionalArgument_none (noOption_braced body rest)
  have harity : arity (t.facing (braced body ++ rest)) =
      .ok 0 (t.facing (braced body ++ rest)) := by
    unfold arity
    rw [bind_ok hnone]
    rfl
  have hbody : argument (t.facing (braced body ++ rest)) =
      .ok (unmarked body) (t.beyond (braced body) rest) :=
    argument_written (s := t) (@WritesArgument.group [] _ nofun hbody) hclear rest
  show defineCommand true _ = _
  unfold defineCommand
  rw [bind_ok skipStar_braced, bind_ok htarget, bind_ok harity, bind_ok hnone, bind_ok hbody,
    State.beyond_beyond]
  -- Only a name that is known can be frozen, so a definition that is tried is not refused.
  cases hknown : s.dictionary.knows name with
  | true =>
    show (if true && s.dictionary.knows name then pure () else define name _ : Scan Unit) _ = _
    rw [hknown]
    rfl
  | false =>
    have hdefine : s.dictionary.define name (.simple 0 (unmarked body)) =
        .ok (s.dictionary.enter name (.defined (.simple 0 (unmarked body)))) := by
      rw [Dictionary.define_of_arity_zero _ _ rfl, isFrozen_of_not_knows hknown]
      rfl
    show (if true && s.dictionary.knows name then pure () else define name _ : Scan Unit) _ = _
    rw [hknown]
    exact define_ok hdefine

/-- The declarer of what is not there leaves everything as it is, and says nothing. -/
def KeepsAll (name : String) (s : State) : Prop :=
  ∃ kind, Effect.ofName? "providecommand" = some (.definition kind) ∧
    ∀ body rest : List Token, WellNested body → (s.inProof = true → ¬HoldsProofEnd body) →
      ∃ t, declaration kind (s.facing (braced [.control name] ++ (braced body ++ rest))) = .ok () t ∧
        t.dictionary = s.dictionary ∧ t.warnings = s.warnings

theorem keepsAll_iff : KeepsAll name s ↔ s.dictionary.knows name = true := by
  have htable : Effect.ofName? "providecommand" = some (.definition .provideCommand) :=
    Effect.ofName?_of_lookup (by decide +kernel)
  constructor
  · rintro ⟨kind, hkind, hkeeps⟩
    obtain rfl := Effect.definition.inj (Option.some.inj (htable.symm.trans hkind))
    obtain ⟨t, hprovides, hdictionary, -⟩ := hkeeps [] [] .nil fun _ => not_holdsProofEnd nofun
    have hstate := hprovides.symm.trans
      (declaration_provideCommand .nil (fun _ => not_holdsProofEnd nofun) _)
    obtain rfl := (EStateM.Result.ok.inj hstate).2
    by_contra hnot
    let entry : Entry := .defined (.simple 0 (unmarked []))
    have hentered : (s.dictionary.enter name entry).knows name = true :=
      Std.HashMap.contains_insert_self
    have hsame : (if s.dictionary.knows name then s.dictionary
        else s.dictionary.enter name entry) = s.dictionary := hdictionary
    rw [if_neg hnot] at hsame
    rw [hsame] at hentered
    exact hnot hentered
  · intro hknown
    refine ⟨_, htable, fun body rest hbody hclear => ?_⟩
    exact ⟨_, declaration_provideCommand hbody hclear rest, if_pos hknown, rfl⟩

/-! ### All of them -/

/-- What it means to each of the five that a name is defined, where `text` gives the name. -/
def definedToAll (name : String) (text : List Token) (s : State) : List Prop :=
  [Chooses "ifdef" [.control name] s true, Chooses "ifcsdef" text s true,
    Chooses "ifundef" [.control name] s false, Chooses "ifthenelse" (undefinedTest name) s false,
    KeepsAll name s]

/-- **Tests of names.** Three of the commands choose by what a name means in the source or from the
start, and the other two by whether the source has said something of it. So the five agree on a name
just if what has a meaning from the start is known to the source as well, and the text gives a name
that is as known as this one. -/
theorem tests_of_names (s : State) (name : String) (text : List Token) (hname : name ≠ "")
    (htext : WellNested text) (hclear : s.inProof = true → ¬HoldsProofEnd text) :
    Chooses "ifdef" [.control name] s (s.dictionary.knows name || isBuiltin name) ∧
      Chooses "ifcsdef" text s (isKnown s.dictionary (plainText (unmarked text))) ∧
      Chooses "ifundef" [.control name] s (!(s.dictionary.knows name || isBuiltin name)) ∧
      Chooses "ifthenelse" (undefinedTest name) s (!s.dictionary.knows name) ∧
      (KeepsAll name s ↔ s.dictionary.knows name = true) ∧
      ((definedToAll name text s).TFAE ↔
        (isBuiltin name = true → s.dictionary.knows name = true) ∧
          isKnown s.dictionary (plainText (unmarked text)) = s.dictionary.knows name) := by
  have hdefined := chooses_ifdef (s := s) hname
  have htold := chooses_ifcsdef (s := s) hclear
  have hundefined := chooses_ifundef (s := s) hname
  have htested : Chooses "ifthenelse" (undefinedTest name) s _ := chooses_isundefined
  have hplain : WellNested [.control name] := .token rfl .nil
  refine ⟨hdefined, htold, hundefined, htested, keepsAll_iff, ?_⟩
  unfold definedToAll
  -- Each of the five says whether a truth value is true; there are three values among them.
  rw [hdefined.iff hplain, htold.iff htext, hundefined.iff hplain,
    htested.iff (.token rfl hplain.braced), keepsAll_iff]
  generalize s.dictionary.knows name = known, isBuiltin name = builtin,
    isKnown s.dictionary (plainText (unmarked text)) = given
  constructor
  · intro hall
    have hbuiltin : (known || builtin) = true ↔ known = true := hall.out 0 4
    have hgiven : given = true ↔ known = true := hall.out 1 4
    refine ⟨fun h => hbuiltin.mp ?_, Bool.eq_iff_iff.mpr hgiven⟩
    rw [h, Bool.or_true]
  · rintro ⟨hbuiltin, rfl⟩
    have hsame : (given || builtin) = given := Bool.or_eq_left_iff_imp.mpr hbuiltin
    rw [hsame]
    simp [List.tfae_singleton]

theorem isBuiltin_emph : isBuiltin "emph" = true := isBuiltin_of_effect (by decide +kernel)

/-- A command that the source has said nothing of is defined to three of the five. -/
theorem emph_defined_to_three :
    let s := State.start "main.tex" []
    "emph" ≠ "" ∧ WellNested (charTokens "emph") ∧
      (s.inProof = true → ¬HoldsProofEnd (charTokens "emph")) ∧
      Chooses "ifdef" [.control "emph"] s true ∧ Chooses "ifcsdef" (charTokens "emph") s true ∧
      Chooses "ifthenelse" (undefinedTest "emph") s true ∧ ¬KeepsAll "emph" s ∧
      ¬(definedToAll "emph" (charTokens "emph") s).TFAE := by
  intro s
  have htext : WellNested (charTokens "emph") := wellNested_of_noBraces (by decide)
  have hclear : s.inProof = true → ¬HoldsProofEnd (charTokens "emph") := nofun
  have hknown : s.dictionary.knows "emph" = false := Std.HashMap.contains_empty
  have hgiven : isKnown s.dictionary (plainText (unmarked (charTokens "emph"))) = true := by
    have hplain : plainText (unmarked (charTokens "emph")) = "emph" := by decide
    rw [hplain, isKnown_of_ne_empty s.dictionary (by decide), isBuiltin_emph, Bool.or_true]
  obtain ⟨hdefined, htold, -, htested, hkeeps, hall⟩ :=
    tests_of_names s "emph" (charTokens "emph") (by decide) htext hclear
  rw [hknown] at htested hkeeps hall
  rw [isBuiltin_emph, Bool.or_true] at hdefined
  rw [hgiven] at htold
  refine ⟨by decide, htext, hclear, hdefined, htold, htested, fun h => ?_, fun h => ?_⟩
  · exact Bool.false_ne_true (hkeeps.mp h)
  · exact Bool.false_ne_true ((hall.mp h).1 isBuiltin_emph)

/-- The tests of a name do not all agree: the one in a condition takes a command for undefined. -/
theorem emph_taken_for_undefined :
    ¬∀ (s : State) (name : String), name ≠ "" →
      (Chooses "ifdef" [.control name] s true ↔
        Chooses "ifthenelse" (undefinedTest name) s false) := by
  intro h
  let s := State.start "main.tex" []
  have hname : "emph" ≠ "" := by decide
  have hknown : s.dictionary.knows "emph" = false := Std.HashMap.contains_empty
  have hplain : WellNested [.control "emph"] := .token rfl .nil
  have hdefined : Chooses "ifdef" [.control "emph"] s true := by
    rw [← Bool.or_true (s.dictionary.knows "emph"), ← isBuiltin_emph]
    exact chooses_ifdef hname
  have htested : Chooses "ifthenelse" (undefinedTest "emph") s !s.dictionary.knows "emph" :=
    chooses_isundefined
  rw [hknown] at htested
  exact nomatch (htested.iff (.token rfl hplain.braced) false).mp ((h s "emph" hname).mp hdefined)

end Scan

end ProofProse
