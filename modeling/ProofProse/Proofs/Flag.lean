import ProofProse.Proofs.Definedness
import ProofProse.Proofs.Opening
import ProofProse.Proofs.Branch
import ProofProse.Proofs.Spelling

/-! # Flags

A flag is named by its test and its two setters, in which its name stands behind `if` and in front
of a truth value, and as a text by all other commands. A name of a flag can be told from the name of
its test or setter, and no name tests one flag and sets another, but for one pair of flags: the test
of the flag `alse` is a setter of the flag `i` (`testName_eq_setterName`). So in a dictionary that
holds nothing but flags (`Dictionary.HoldsFlags`), tests and setters mean what they are called, with
this exception, and the commands of the table mean what they always do. All that asks for a flag then
chooses by its value (`Scan.questions_of_a_flag`). -/

namespace ProofProse

variable {d : Dictionary} {name flag other : String} {value : Bool}

/-! ### Beginnings and endings -/

namespace Text

theorem dropHead?_append (head s : String) : dropHead? head (head ++ s) = some s := by
  unfold dropHead?
  rw [String.toList_append, if_pos (by simp), List.drop_left, String.ofList_toList]

theorem eq_of_dropHead? {head s rest : String} (h : dropHead? head s = some rest) :
    s = head ++ rest := by
  unfold dropHead? at h
  split at h
  · next hhead =>
    obtain ⟨behind, hbehind⟩ := List.isPrefixOf_iff_prefix.mp hhead
    rw [← hbehind, List.drop_left] at h
    rw [← Option.some.inj h, ← String.toList_inj, String.toList_append, String.toList_ofList, hbehind]
  · cases h

theorem dropTail?_append (s tail : String) : dropTail? tail (s ++ tail) = some s := by
  unfold dropTail?
  rw [String.toList_append, if_pos (by simp), List.length_append, Nat.add_sub_cancel, List.take_left,
    String.ofList_toList]

theorem eq_of_dropTail? {s rest tail : String} (h : dropTail? tail s = some rest) :
    s = rest ++ tail := by
  unfold dropTail? at h
  split at h
  · next htail =>
    obtain ⟨front, hfront⟩ := List.isSuffixOf_iff_suffix.mp htail
    rw [← hfront, List.length_append, Nat.add_sub_cancel, List.take_left] at h
    rw [← Option.some.inj h, ← String.toList_inj, String.toList_append, String.toList_ofList, hfront]
  · cases h

end Text

/-! ### Names of flags -/

/-- A truth value as it is written. -/
def truthWord : Bool → String
  | true => "true"
  | false => "false"

/-- The name of the test of a flag. -/
def testName (flag : String) : String := "if" ++ flag

/-- The name of the command that gives a flag a value. -/
def setterName (flag : String) (value : Bool) : String := flag ++ truthWord value

/-- A name of a flag whose test and setters are commands without a meaning of their own. -/
structure IsFlagName (flag : String) : Prop where
  nonempty : flag ≠ ""
  letters : ∀ c ∈ flag.toList, Lexer.isNameLetter c = true
  ending : ∀ value, ¬(truthWord value).toList <:+ flag.toList
  free : ∀ name ∈ [testName flag, setterName flag true, setterName flag false],
    Structural.ofName? name = none ∧ Effect.ofName? name = none

theorem isFlagName_of_contains (hne : flag ≠ "")
    (hletters : flag.toList.all Lexer.isNameLetter = true)
    (hending : ∀ value, ¬(truthWord value).toList <:+ flag.toList)
    (hfree : ∀ name ∈ [testName flag, setterName flag true, setterName flag false],
      (Structural.entries.map Prod.fst).contains name = false ∧
        (Command.entries.map Prod.fst).contains name = false) : IsFlagName flag where
  nonempty := hne
  letters := List.all_eq_true.mp hletters
  ending := hending
  free name hname := ⟨Structural.ofName?_eq_none_iff.mpr (hfree name hname).1,
    Effect.ofName?_eq_none (hfree name hname).2⟩

theorem IsFlagName.setter (h : IsFlagName flag) (value : Bool) :
    Structural.ofName? (setterName flag value) = none ∧
      Effect.ofName? (setterName flag value) = none := by
  cases value with
  | true => exact h.free _ (by simp)
  | false => exact h.free _ (by simp)

theorem IsFlagName.not_isEmpty (h : IsFlagName flag) : ¬flag.isEmpty = true :=
  mt String.isEmpty_iff.mp h.nonempty

theorem toList_testName : (testName flag).toList = 'i' :: 'f' :: flag.toList := by
  unfold testName
  rw [String.toList_append]
  rfl

theorem toList_setterName : (setterName flag value).toList = flag.toList ++ (truthWord value).toList :=
  String.toList_append

theorem dropTail?_true_setterName : Text.dropTail? "true" (setterName flag false) = none := by
  refine Option.eq_none_iff_forall_ne_some.mpr fun front h => ?_
  have hlists := congrArg String.toList (Text.eq_of_dropTail? h)
  rw [toList_setterName, String.toList_append] at hlists
  have hsplit : (flag.toList ++ ['f']) ++ ['a', 'l', 's', 'e'] =
      front.toList ++ ['t', 'r', 'u', 'e'] := by simpa [truthWord] using hlists
  exact absurd (List.append_inj' hsplit rfl).2 (by decide)

/-- **A name that is a test and a setter** is the test of the flag `alse`, which is a setter of the
flag `i`: any other flag with such a test ends in a truth value. -/
theorem testName_eq_setterName (hending : ∀ value, ¬(truthWord value).toList <:+ flag.toList)
    (hother : other ≠ "") (h : testName flag = setterName other value) :
    flag = "alse" ∧ other = "i" ∧ value = false := by
  have hlists := congrArg String.toList h
  rw [toList_testName, toList_setterName] at hlists
  cases hcs : other.toList with
  | nil => exact absurd (String.toList_eq_nil_iff.mp hcs) hother
  | cons a as =>
    rw [hcs] at hlists
    obtain ⟨rfl, hbehind⟩ := List.cons.inj hlists
    cases as with
    | nil =>
      have hi : other = "i" := String.toList_inj.mp hcs
      cases value with
      | true => exact nomatch (List.cons.inj hbehind).1
      | false => exact ⟨String.toList_inj.mp (List.cons.inj hbehind).2, hi, rfl⟩
    | cons b bs => exact absurd ⟨bs, (List.cons.inj hbehind).2.symm⟩ (hending value)

/-! ### The commands of the table -/

/-- The commands that declare a flag by its name. -/
def declarers : List String := ["newboolean", "newtoggle", "provideboolean", "providetoggle"]

/-- The commands that set a flag to the value given. -/
def valueSetters : List String := ["setboolean", "setbool", "settoggle"]

/-- The commands that set a flag to a value of their own. -/
def fixedSetters : List (String × Bool) :=
  [("booltrue", true), ("boolfalse", false), ("toggletrue", true), ("togglefalse", false)]

/-- The commands about flags, and what they do. -/
def flagCommands : List (String × Effect) :=
  [[("newif", .definition .newTest)], declarers.map (·, .definition .newFlag),
    valueSetters.map (·, .choice .setFlagTo),
    fixedSetters.map (fun (command, value) => (command, .choice (.setFlag value))),
    [("ifbool", .choice .ifFlag), ("iftoggle", .choice .ifFlag),
      ("ifthenelse", .choice .ifThenElse)]].flatten

theorem ofName?_flagCommands {entry : String × Effect} (h : entry ∈ flagCommands) :
    Structural.ofName? entry.1 = none ∧ Effect.ofName? entry.1 = some entry.2 := by
  have hstructural : ∀ entry ∈ flagCommands,
      (Structural.entries.map Prod.fst).contains entry.1 = false := by decide
  have hlast : ∀ entry ∈ flagCommands,
      Command.entries.reverse.lookup entry.1 = some entry.2 := by decide +kernel
  exact ⟨Structural.ofName?_eq_none_iff.mpr (hstructural entry h),
    Effect.ofName?_of_lookup (hlast entry h)⟩

theorem letters_flagCommands {entry : String × Effect} (h : entry ∈ flagCommands) :
    entry.1.toList ≠ [] ∧ ∀ c ∈ entry.1.toList, Lexer.isNameLetter c = true := by
  have hall : ∀ entry ∈ flagCommands,
      entry.1.toList ≠ [] ∧ entry.1.toList.all Lexer.isNameLetter = true := by decide
  exact (hall entry h).imp_right List.all_eq_true.mp

/-! ### Flags in a dictionary -/

namespace Dictionary

theorem flag?_empty (flag : String) : ({} : Dictionary).flag? flag = none :=
  Std.HashMap.getElem?_empty

theorem contains_eq_isSome (d : Dictionary) (flag : String) :
    d.flags.contains flag = (d.flag? flag).isSome :=
  Std.HashMap.contains_eq_isSome_getElem?

theorem flag?_declareFlag (d : Dictionary) (flag other : String) :
    (d.declareFlag flag).flag? other =
      if flag = other then some ((d.flag? other).getD false) else d.flag? other := by
  show (d.flags.insertIfNew flag false)[other]? = _
  rw [Std.HashMap.getElem?_insertIfNew]
  by_cases h : flag = other
  · subst h
    have hmem : flag ∈ d.flags ↔ (d.flag? flag).isSome = true := by
      rw [← contains_eq_isSome, Std.HashMap.mem_iff_contains]
    rw [if_pos rfl]
    cases hvalue : d.flag? flag with
    | none =>
      have hnot : flag ∉ d.flags := by
        rw [hmem, hvalue]
        exact Bool.false_ne_true
      rw [if_pos ⟨beq_self_eq_true flag, hnot⟩]
      rfl
    | some value =>
      have hin : flag ∈ d.flags := by
        rw [hmem, hvalue]
        rfl
      rw [if_neg fun hnew => hnew.2 hin]
      exact hvalue
  · rw [if_neg fun hnew => h (eq_of_beq hnew.1), if_neg h]
    rfl

theorem flag?_setFlag (h : (d.flag? flag).isSome = true) (value : Bool) (other : String) :
    (d.setFlag flag value).1.flag? other = if flag = other then some value else d.flag? other := by
  unfold setFlag
  rw [contains_eq_isSome, h, if_pos rfl]
  show (d.flags.insert flag value)[other]? = _
  rw [Std.HashMap.getElem?_insert]
  by_cases hflag : flag = other
  · rw [if_pos (beq_iff_eq.mpr hflag), if_pos hflag]
  · rw [if_neg fun hbeq => hflag (eq_of_beq hbeq), if_neg hflag]
    rfl

theorem flag?_declareFlag_setFlag (d : Dictionary) (flag other : String) (value : Bool) :
    ((d.declareFlag flag).setFlag flag value).1.flag? other =
      if flag = other then some value else d.flag? other := by
  have hflag : ((d.declareFlag flag).flag? flag).isSome = true := by
    rw [flag?_declareFlag, if_pos rfl]
    rfl
  rw [flag?_setFlag hflag]
  by_cases h : flag = other
  · rw [if_pos h, if_pos h]
  · rw [if_neg h, if_neg h, flag?_declareFlag, if_neg h]

theorem find?_setFlag (d : Dictionary) (flag : String) (value : Bool) (name : String) :
    (d.setFlag flag value).1.find? name = d.find? name := by
  unfold setFlag
  split <;> rfl

theorem eq_of_flagSetting? (h : d.flagSetting? name = some (flag, value)) :
    name = setterName flag value ∧ (d.flag? flag).isSome = true := by
  unfold flagSetting? flagWithEnding? at h
  split at h
  · next hsome =>
    obtain ⟨htail, hflag⟩ := Option.filter_eq_some_iff.mp hsome
    cases h
    rw [contains_eq_isSome] at hflag
    exact ⟨Text.eq_of_dropTail? htail, hflag⟩
  · obtain ⟨found, hsome, hpair⟩ := Option.map_eq_some_iff.mp h
    obtain ⟨htail, hflag⟩ := Option.filter_eq_some_iff.mp hsome
    cases hpair
    rw [contains_eq_isSome] at hflag
    exact ⟨Text.eq_of_dropTail? htail, hflag⟩

theorem flagSetting?_setterName (h : (d.flag? flag).isSome = true) (value : Bool) :
    d.flagSetting? (setterName flag value) = some (flag, value) := by
  have hwith : d.flagWithEnding? (truthWord value) (setterName flag value) = some flag := by
    unfold flagWithEnding? setterName
    rw [Text.dropTail?_append]
    exact Option.filter_eq_some_iff.mpr ⟨rfl, by rw [contains_eq_isSome, h]⟩
  unfold flagSetting?
  cases value with
  | true =>
    have htrue : d.flagWithEnding? "true" (setterName flag true) = some flag := hwith
    rw [htrue]
  | false =>
    have htrue : d.flagWithEnding? "true" (setterName flag false) = none := by
      unfold flagWithEnding?
      rw [dropTail?_true_setterName]
      rfl
    have hfalse : d.flagWithEnding? "false" (setterName flag false) = some flag := hwith
    rw [htrue, hfalse]
    rfl

theorem eq_of_testedFlag? (h : d.testedFlag? name = some flag) :
    name = testName flag ∧ (d.flag? flag).isSome = true := by
  obtain ⟨hhead, hflag⟩ := Option.filter_eq_some_iff.mp h
  rw [contains_eq_isSome] at hflag
  exact ⟨Text.eq_of_dropHead? hhead, hflag⟩

theorem testedFlag?_testName (h : (d.flag? flag).isSome = true) :
    d.testedFlag? (testName flag) = some flag := by
  unfold testedFlag? testName
  rw [Text.dropHead?_append]
  exact Option.filter_eq_some_iff.mpr ⟨rfl, by rw [contains_eq_isSome, h]⟩

/-- A dictionary that defines no name, and whose flags have names of flags. -/
structure HoldsFlags (d : Dictionary) : Prop where
  names : ∀ name, d.find? name = none
  flags : ∀ flag, (d.flag? flag).isSome = true → IsFlagName flag

/-! ### What names mean beside flags -/

/-- The commands of the table mean what they always do: no test or setter is one of them. -/
theorem HoldsFlags.meaning_effect (h : d.HoldsFlags) {effect : Effect}
    (heffect : Effect.ofName? name = some effect) : d.meaning name = .effect effect := by
  have hsetting : d.flagSetting? name = none := by
    refine Option.eq_none_iff_forall_ne_some.mpr fun found hfound => ?_
    obtain ⟨rfl, hflag⟩ := eq_of_flagSetting? hfound
    rw [((h.flags _ hflag).setter _).2] at heffect
    cases heffect
  have htested : d.testedFlag? name = none := by
    refine Option.eq_none_iff_forall_ne_some.mpr fun found hfound => ?_
    obtain ⟨rfl, hflag⟩ := eq_of_testedFlag? hfound
    rw [((h.flags _ hflag).free _ List.mem_cons_self).2] at heffect
    cases heffect
  have hbare : isBareTest name = false := by
    unfold isBareTest
    rw [heffect]
    exact Bool.and_false _
  exact (Means.effect (h.names name) hsetting htested hbare heffect).meaning_eq

theorem HoldsFlags.meaning_setterName (h : d.HoldsFlags) (hflag : (d.flag? flag).isSome = true)
    (value : Bool) : d.meaning (setterName flag value) = .flagSetting flag value :=
  (Means.flagSetting (h.names _) (flagSetting?_setterName hflag value)).meaning_eq

/-- **The test of a flag** means its test, unless it sets another flag. -/
theorem HoldsFlags.meaning_testName (h : d.HoldsFlags) (hflag : (d.flag? flag).isSome = true)
    (halone : flag = "alse" → d.flag? "i" = none) : d.meaning (testName flag) = .flagTest flag := by
  have hsetting : d.flagSetting? (testName flag) = none := by
    refine Option.eq_none_iff_forall_ne_some.mpr fun ⟨other, value⟩ hfound => ?_
    obtain ⟨hname, hother⟩ := eq_of_flagSetting? hfound
    obtain ⟨hflag, rfl, -⟩ :=
      testName_eq_setterName (h.flags _ hflag).ending (h.flags _ hother).nonempty hname
    rw [halone hflag] at hother
    cases hother
  exact (Means.flagTest (h.names _) hsetting (testedFlag?_testName hflag)).meaning_eq

end Dictionary

/-! ### What is scanned -/

namespace Scan

variable {setting : Setting} {nested : Frame → Scan Flow} {frame : Frame} {s : State}
  {test command : String} {asked rest : List Token} {truth : Bool}

theorem round_effect (h : s.dictionary.HoldsFlags) {effect : Effect}
    (hname : Structural.ofName? name = none) (heffect : Effect.ofName? name = some effect)
    (rest : List Token) :
    round setting nested frame (s.facing (.control name :: rest)) =
      goingOn (applyEffect setting name effect) (s.past 1 rest) := by
  rw [round_cons rfl]
  show Scan.command setting nested frame name (s.past 1 rest) = _
  have hmeaning : (s.past 1 rest).dictionary.meaning name = .effect effect := h.meaning_effect heffect
  rw [command_meaning hname, hmeaning]
  rfl

theorem round_setter (h : s.dictionary.HoldsFlags) (hflag : (s.dictionary.flag? flag).isSome = true)
    (value : Bool) (rest : List Token) :
    round setting nested frame (s.facing (.control (setterName flag value) :: rest)) =
      .ok .goOn { s.past 1 rest with dictionary := (s.dictionary.setFlag flag value).1 } := by
  rw [round_cons rfl]
  show Scan.command setting nested frame (setterName flag value) (s.past 1 rest) = _
  have hmeaning : (s.past 1 rest).dictionary.meaning (setterName flag value) =
      .flagSetting flag value := h.meaning_setterName hflag value
  rw [command_meaning ((h.flags flag hflag).setter value).1, hmeaning]
  rfl

/-- A test takes the first one of its branches, or passes it over with its end. -/
def TakesBranch (test : String) (s : State) (truth : Bool) : Prop :=
  ∀ setting nested frame first last rest, Balanced s.dictionary.opensConditional false first →
    last ∈ ["else", "fi"] → first.length ≤ setting.options.conditionalLimit →
    round setting nested frame (s.facing (.control test :: (first ++ .control last :: rest))) =
      .ok .goOn (if truth then s.past 1 (first ++ .control last :: rest)
        else s.past (first.length + 2) rest)

/-- A command that asks something leaves the first one of the two arguments behind it, or the second
one. -/
def PicksArgument (command : String) (asked : List Token) (s : State) (first : Bool) : Prop :=
  ∀ setting nested frame yes no tokens rest, WritesArguments [asked, yes, no] tokens →
    (s.inProof = true → ∀ content ∈ [yes, no], ¬HoldsProofEnd content) →
    round setting nested frame (s.facing (.control command :: (tokens ++ rest))) =
      .ok .goOn (s.beyond (.control command :: tokens)
        (unmarked (if first then yes else no) ++ rest))

theorem takesBranch_of_meaning (h : s.dictionary.meaning test = .flagTest flag) :
    TakesBranch test s ((s.dictionary.flag? flag).getD false) := by
  intro setting nested frame first last rest hfirst hlast hlength
  have htest : (s.dictionary.meaning test).isTest = true := by
    rw [h]
    rfl
  have hname := ofName?_of_beginsLikeTest (Dictionary.beginsLikeTest_of_isTest htest)
  let t := s.past 1 []
  have hmeaning : (t.facing (first ++ .control last :: rest)).dictionary.meaning test =
      .flagTest flag := h
  have hcarry : carryOut setting test (.flagTest flag) (t.facing (first ++ .control last :: rest)) =
      beginConditional setting ((s.dictionary.flag? flag).getD false)
        (t.facing (first ++ .control last :: rest)) := rfl
  rw [round_cons rfl]
  show Scan.command setting nested frame test (t.facing (first ++ .control last :: rest)) = _
  rw [command_meaning hname, hmeaning, goingOn_congr hcarry]
  cases (s.dictionary.flag? flag).getD false with
  | true => rfl
  | false =>
    have hends : last = "fi" ∨ last = "else" ∧ true = true := by
      rcases List.mem_pair.mp hlast with rfl | rfl
      · exact .inr ⟨rfl, rfl⟩
      · exact .inl rfl
    have hskip : beginConditional setting false (t.facing (first ++ .control last :: rest)) =
        .ok () (t.past (first.length + 1) rest) :=
      skipBranch_balanced (s := t) hfirst nofun hends hlength
    unfold goingOn
    rw [bind_ok hskip, State.past_past]
    rfl

theorem picksArgument_of_chooses (hs : s.dictionary.HoldsFlags)
    (hname : Structural.ofName? command = none) (h : Chooses command asked (s.past 1 []) truth) :
    PicksArgument command asked s truth := by
  obtain ⟨kind, hkind, hchooses⟩ := h
  intro setting nested frame yes no tokens rest hwritten hclear
  have hchoice : applyEffect setting command (.choice kind) (s.past 1 (tokens ++ rest)) =
      .ok () ((s.past 1 []).beyond tokens (unmarked (if truth then yes else no) ++ rest)) :=
    hchooses yes no tokens rest hwritten hclear
  have hstate (ahead : List Token) :
      (s.past 1 []).beyond tokens ahead = s.beyond (.control command :: tokens) ahead := by
    unfold State.beyond State.past State.consumed
    rw [marks_cons (t := .control command) nofun, List.length_cons, Nat.add_assoc, Nat.add_comm 1]
  rw [round_effect hs hname hkind]
  unfold goingOn
  rw [bind_ok hchoice, hstate]
  rfl

/-- The condition that a flag is set, as it is written. -/
def flagCondition (flag : String) : List Token := .control "boolean" :: braced (charTokens flag)

theorem plainText_flag (hname : IsFlagName flag) : plainText (charTokens flag) = flag := by
  have hblank (c : Char) (hc : c ∈ flag.toList) : Text.isBlank c = false :=
    (Lexer.isPlain_iff.mp (Lexer.isPlain_of_isNameLetter (hname.letters c hc))).1
  exact (plainText_chars hblank).trans (String.ofList_toList ..)

theorem isGroup_flag (flag : String) : IsGroup (charTokens flag) :=
  isGroup_of_standsInGroup (standsInGroup_chars flag.toList)

theorem chooses_ifFlag (hname : IsFlagName flag)
    (htable : Effect.ofName? command = some (.choice .ifFlag)) :
    Chooses command (charTokens flag) s ((s.dictionary.flag? flag).getD false) := by
  let answer (d : Dictionary) (asked : List Token) : Bool := (d.flag? (plainText asked)).getD false
  have hkind : choice .ifFlag = asking answer := by
    unfold choice argumentText asking
    simp [answer]
  have hgroup := isGroup_flag flag
  have hchooses :=
    chooses_of_asking (s := s) htable hkind fun _ => not_holdsProofEnd hgroup.noEnd
  have hanswer : answer s.dictionary (unmarked (charTokens flag)) =
      (s.dictionary.flag? flag).getD false := by
    show (s.dictionary.flag? (plainText (unmarked (charTokens flag)))).getD false = _
    rw [unmarked_eq_self hgroup.noMarks, plainText_flag hname]
  rwa [hanswer] at hchooses

theorem evaluate_flagCondition (hname : IsFlagName flag) (d : Dictionary) :
    Condition.evaluate d (flagCondition flag) = (d.flag? flag).getD false := by
  have hoperand : WritesArguments [charTokens flag] (braced (charTokens flag)) := by
    have hwritten :=
      WritesArguments.cons (@WritesArgument.group [] _ nofun (isGroup_flag flag).nested) .nil
    rwa [List.append_nil] at hwritten
  have hrow : TestRow.Writes ⟨⟨0, .flag (charTokens flag)⟩, []⟩ (flagCondition flag) :=
    ⟨_, [], (List.append_nil _).symm, @WritesTest.test _ [] _ nofun hoperand, .nil nofun⟩
  rw [Condition.evaluate_written hrow]
  show (d.flag? (plainText (charTokens flag))).getD false = _
  rw [plainText_flag hname]

theorem chooses_flagCondition (hname : IsFlagName flag)
    (htable : Effect.ofName? command = some (.choice .ifThenElse)) :
    Chooses command (flagCondition flag) s ((s.dictionary.flag? flag).getD false) := by
  have hkind : choice .ifThenElse = asking Condition.evaluate := rfl
  have hgroup := isGroup_flag flag
  have hclear : ¬HoldsProofEnd (flagCondition flag) :=
    not_holdsProofEnd (by simpa [flagCondition, braced] using hgroup.noEnd)
  have hmarks : marks (flagCondition flag) = 0 := by
    unfold flagCondition
    rw [marks_cons (t := .control "boolean") nofun, marks_braced, hgroup.noMarks]
  have hchooses := chooses_of_asking (s := s) htable hkind fun _ => hclear
  rwa [unmarked_eq_self hmarks, evaluate_flagCondition hname] at hchooses

/-- **What asks for a flag** chooses by its value: the commands that pick an argument, and the test of
the flag if it does not set another one. -/
theorem questions_of_a_flag (hs : s.dictionary.HoldsFlags)
    (hvalue : s.dictionary.flag? flag = some value) :
    PicksArgument "ifbool" (charTokens flag) s value ∧
      PicksArgument "iftoggle" (charTokens flag) s value ∧
      PicksArgument "ifthenelse" (flagCondition flag) s value ∧
      ((flag = "alse" → s.dictionary.flag? "i" = none) → TakesBranch (testName flag) s value) := by
  have hsome : (s.dictionary.flag? flag).isSome = true := by
    rw [hvalue]
    rfl
  have hgetD : (s.dictionary.flag? flag).getD false = value := by
    rw [hvalue]
    rfl
  have hname := hs.flags flag hsome
  have hcommands : ("ifbool", .choice .ifFlag) ∈ flagCommands ∧
      ("iftoggle", .choice .ifFlag) ∈ flagCommands ∧
      ("ifthenelse", .choice .ifThenElse) ∈ flagCommands := by decide
  obtain ⟨hbool, hboolTable⟩ := ofName?_flagCommands hcommands.1
  obtain ⟨htoggle, htoggleTable⟩ := ofName?_flagCommands hcommands.2.1
  obtain ⟨hthen, hthenTable⟩ := ofName?_flagCommands hcommands.2.2
  rw [← hgetD]
  exact ⟨picksArgument_of_chooses hs hbool (chooses_ifFlag hname hboolTable),
    picksArgument_of_chooses hs htoggle (chooses_ifFlag hname htoggleTable),
    picksArgument_of_chooses hs hthen (chooses_flagCondition hname hthenTable),
    fun halone => takesBranch_of_meaning (hs.meaning_testName hsome halone)⟩

end Scan

end ProofProse
