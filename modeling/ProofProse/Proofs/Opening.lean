import ProofProse.Proofs.Renaming

/-! # What opens a conditional

A name begins a conditional when it means a test, or when it is a copy of a name that does
(`Dictionary.BeginsConditional`); a scan of it then comes to the test (`Scan.reaches_test`). Where a
branch is passed over, `Dictionary.opensConditional` tells what opens a conditional instead. The two
agree on a name unless the name is misjudged, and there are three ways to be
(`Dictionary.Misjudged`): as a copy, as the test of a flag that is defined anew, and as a name that
sets a flag. The proof goes through the places where the search for a meaning can end. -/

namespace ProofProse

open Relation

namespace Dictionary

variable {d : Dictionary} {copied : String → Prop} {name : String}

/-- A name begins a conditional: it is a test, or one of those names that are copies, and a copy of a
name that begins a conditional. -/
inductive BeginsConditional (d : Dictionary) (copied : String → Prop) : String → Prop
  | test {name : String} (h : (d.meaning name).isTest = true) : BeginsConditional d copied name
  | copy {name old : String} (hname : Structural.ofName? name = none) (hcopied : copied name)
      (hfind : d.find? name = some (.alias [.control old])) (h : BeginsConditional d copied old) :
      BeginsConditional d copied name

/-- Whether the name opens a conditional is told in another way where a branch is passed over. -/
inductive Misjudged (d : Dictionary) (copied : String → Prop) (name : String) : Prop
  /-- A copy of a name that begins a conditional is not counted, unless there is a flag that it would
  test. -/
  | missed {old : String} (hname : Structural.ofName? name = none) (hcopied : copied name)
      (hfind : d.find? name = some (.alias [.control old])) (h : d.BeginsConditional copied old)
      (hflag : d.testedFlag? name = none)
  /-- The test of a flag is counted when the source has defined it to be something else. -/
  | redefined {definition : Definition} {flag : String} (hfind : d.find? name = some definition)
      (hflag : d.testedFlag? name = some flag)
      (h : ∀ old, copied name → definition = .alias [.control old] →
        ¬d.BeginsConditional copied old)
  /-- A name that sets a flag is counted when it looks like a test. -/
  | setsFlag {flag : String} {value : Bool} (hfind : d.find? name = none)
      (hsetting : d.flagSetting? name = some (flag, value))
      (h : (d.testedFlag? name).isSome = true ∨ isBareTest name = true)

/-! ### Where the two agree -/

theorem opensConditional_of_find? {definition : Definition} (hfind : d.find? name = some definition) :
    d.opensConditional name = (d.testedFlag? name).isSome := by
  unfold opensConditional
  rw [hfind, Option.isNone_some, Bool.and_false, Bool.or_false]

theorem opensConditional_of_find?_none (hfind : d.find? name = none) :
    d.opensConditional name = ((d.testedFlag? name).isSome || isBareTest name) := by
  unfold opensConditional
  rw [hfind, Option.isNone_none, Bool.and_true]

/-- A name that is defined begins a conditional exactly if it is a copy of one that does. -/
theorem beginsConditional_iff_of_find? {definition : Definition}
    (hname : Structural.ofName? name = none) (hfind : d.find? name = some definition) :
    d.BeginsConditional copied name ↔
      copied name ∧ ∃ old, definition = .alias [.control old] ∧ d.BeginsConditional copied old := by
  constructor
  · intro h
    cases h with
    | test htest =>
      rw [(Means.defined hfind).meaning_eq] at htest
      cases htest
    | copy _ hcopied halias h =>
      exact ⟨hcopied, _, Option.some.inj (hfind.symm.trans halias), h⟩
  · rintro ⟨hcopied, old, rfl, h⟩
    exact .copy hname hcopied hfind h

/-- A name that is not defined begins a conditional exactly if it is a test. -/
theorem beginsConditional_iff_of_find?_none (hfind : d.find? name = none) :
    d.BeginsConditional copied name ↔ (d.meaning name).isTest = true := by
  refine ⟨fun h => ?_, .test⟩
  cases h with
  | test htest => exact htest
  | copy _ _ halias _ =>
    rw [hfind] at halias
    cases halias

theorem BeginsConditional.ofName? (h : d.BeginsConditional copied name) :
    Structural.ofName? name = none := by
  cases h with
  | test htest => exact ofName?_of_beginsLikeTest (beginsLikeTest_of_isTest htest)
  | copy hname _ _ _ => exact hname

theorem Misjudged.ofName? (h : d.Misjudged copied name) : Structural.ofName? name = none := by
  cases h with
  | missed hname _ _ _ _ => exact hname
  | redefined _ hflag _ => exact ofName?_of_beginsLikeTest (beginsLikeTest_of_testedFlag? hflag)
  | setsFlag _ _ h =>
    rcases h with hflag | hbare
    · obtain ⟨flag, hflag⟩ := Option.isSome_iff_exists.mp hflag
      exact ofName?_of_beginsLikeTest (beginsLikeTest_of_testedFlag? hflag)
    · exact ofName?_of_beginsLikeTest (beginsLikeTest_of_isBareTest hbare)

theorem agree_of_structural (d : Dictionary) (copied : String → Prop) {kind : Structural}
    (hname : Structural.ofName? name = some kind) :
    d.opensConditional name = false ∧ ¬d.BeginsConditional copied name ∧
      ¬d.Misjudged copied name := by
  have hnot : Structural.ofName? name ≠ none := by
    rw [hname]
    nofun
  refine ⟨Bool.eq_false_iff.mpr fun h => ?_, fun h => ?_, fun h => hnot h.ofName?⟩
  · exact hnot (ofName?_of_beginsLikeTest (beginsLikeTest_of_opensConditional h))
  · exact hnot h.ofName?

/-- A name that the source has defined is judged by the flag that it would test. -/
theorem agree_of_find? {definition : Definition} (hname : Structural.ofName? name = none)
    (hfind : d.find? name = some definition) :
    (d.opensConditional name = true ↔ d.BeginsConditional copied name) ↔
      ¬d.Misjudged copied name := by
  rw [opensConditional_of_find? hfind, beginsConditional_iff_of_find? hname hfind]
  constructor
  · intro hagree hjudged
    cases hjudged with
    | missed _ hcopied halias h hflag =>
      have hdefinition := Option.some.inj (hfind.symm.trans halias)
      have hsome := hagree.mpr ⟨hcopied, _, hdefinition, h⟩
      rw [hflag] at hsome
      cases hsome
    | @redefined given flag hgiven hflag h =>
      have hsome : (d.testedFlag? name).isSome = true := by rw [hflag]; rfl
      obtain ⟨hcopied, old, hdefinition, hbegins⟩ := hagree.mp hsome
      have hsame : given = definition := Option.some.inj (hgiven.symm.trans hfind)
      exact h old hcopied (hsame.trans hdefinition) hbegins
    | setsFlag hnone _ _ =>
      rw [hfind] at hnone
      cases hnone
  · intro hjudged
    constructor
    · intro hsome
      obtain ⟨flag, hflag⟩ := Option.isSome_iff_exists.mp hsome
      refine Classical.byContradiction fun hnot => hjudged (.redefined hfind hflag ?_)
      exact fun old hcopied hdefinition hbegins => hnot ⟨hcopied, old, hdefinition, hbegins⟩
    · rintro ⟨hcopied, old, rfl, hbegins⟩
      refine Option.isSome_iff_ne_none.mpr fun hflag => hjudged ?_
      exact .missed hname hcopied hfind hbegins hflag

/-- A name that the source has not defined is judged right, unless it sets a flag. -/
theorem agree_of_undefined (hfind : d.find? name = none) :
    (d.opensConditional name = true ↔ d.BeginsConditional copied name) ↔
      ¬d.Misjudged copied name := by
  have honly : d.Misjudged copied name → ∃ flag value, d.flagSetting? name = some (flag, value) ∧
      ((d.testedFlag? name).isSome = true ∨ isBareTest name = true) := by
    intro hjudged
    cases hjudged with
    | missed _ _ halias _ _ => rw [hfind] at halias; cases halias
    | redefined hgiven _ _ => rw [hfind] at hgiven; cases hgiven
    | setsFlag _ hsetting h => exact ⟨_, _, hsetting, h⟩
  rw [opensConditional_of_find?_none hfind, beginsConditional_iff_of_find?_none hfind]
  cases hsetting : d.flagSetting? name with
  | none =>
    rw [isTest_meaning hfind hsetting]
    refine ⟨fun _ hjudged => ?_, fun _ => Iff.rfl⟩
    obtain ⟨flag, value, hsome, -⟩ := honly hjudged
    rw [hsetting] at hsome
    cases hsome
  | some pair =>
    obtain ⟨flag, value⟩ := pair
    rw [(Means.flagSetting hfind hsetting).meaning_eq, Bool.or_eq_true]
    constructor
    · intro hagree hjudged
      obtain ⟨-, -, -, htest⟩ := honly hjudged
      cases hagree.mp htest
    · intro hjudged
      exact ⟨fun h => absurd (.setsFlag hfind hsetting h) hjudged, nofun⟩

/-- A name opens a conditional where a branch is passed over exactly if it begins one, unless it is
misjudged. -/
theorem agree_iff_not_misjudged (d : Dictionary) (copied : String → Prop) (name : String) :
    (d.opensConditional name = true ↔ d.BeginsConditional copied name) ↔
      ¬d.Misjudged copied name := by
  cases hname : Structural.ofName? name with
  | some kind =>
    obtain ⟨hopens, hbegins, hjudged⟩ := agree_of_structural d copied hname
    rw [hopens]
    exact ⟨fun _ => hjudged, fun _ => ⟨nofun, fun h => absurd h hbegins⟩⟩
  | none =>
    cases hfind : d.find? name with
    | some definition => exact agree_of_find? hname hfind
    | none => exact agree_of_undefined hfind

end Dictionary

/-! ### Scans of names that begin conditionals -/

namespace Scan

variable {setting : Setting} {nested : Frame → Scan Flow} {frame : Frame} {s t : State}
  {copied : String → Prop} {name : String} {rest : List Token}

theorem bareTest_begins (setting : Setting) (name : String) (s : State) :
    ∃ truth u, bareTest setting name s = beginConditional setting truth u := by
  by_cases htrue : name = "iftrue"
  · exact ⟨true, s, by rw [htrue]; rfl⟩
  by_cases hdefined : name = "ifdefined"
  · subst hdefined
    let t : State := { s with stream := s.stream.skipSpaces }
    have hspaces : onStream Stream.skipSpaces s = .ok () t := rfl
    have hpeek : peek t = .ok t.stream.peek? t := rfl
    unfold bareTest
    rw [if_neg (by decide), if_pos (by decide), bind_ok hspaces, bind_ok hpeek]
    cases hholds : t.stream.peek?.any (Token.isControl "hyperref") with
    | true =>
      let u : State := { t with stream := t.stream.skip 1 }
      have hskip : onStream (·.skip 1) t = .ok () u := rfl
      exact ⟨true, u, bind_ok hskip⟩
    | false => exact ⟨false, t, rfl⟩
  · refine ⟨false, s, ?_⟩
    unfold bareTest
    rw [if_neg (by simpa using htrue), if_neg (by simpa using hdefined)]

theorem round_test (h : (s.dictionary.meaning name).isTest = true)
    (hs : s.stream.ahead = .control name :: rest) :
    ∃ truth u, round setting nested frame s = goingOn (beginConditional setting truth) u := by
  let s' : State := { s with stream := ⟨rest, s.consumed + 1⟩ }
  have hname := ofName?_of_beginsLikeTest (Dictionary.beginsLikeTest_of_isTest h)
  have hround : round setting nested frame s =
      goingOn (carryOut setting name (s.dictionary.meaning name)) s' := by
    rw [round_cons hs]
    show command setting nested frame name s' = _
    rw [command_meaning hname]
  have hcarry : ∃ truth u, carryOut setting name (s.dictionary.meaning name) s' =
      beginConditional setting truth u := by
    cases hmeaning : s.dictionary.meaning name with
    | flagTest flag => exact ⟨_, s', rfl⟩
    | bareTest => exact bareTest_begins setting name s'
    | _ =>
      rw [hmeaning] at h
      cases h
  obtain ⟨truth, u, hcarry⟩ := hcarry
  exact ⟨truth, u, hround.trans (goingOn_congr hcarry)⟩

/-- A round that is the same in every scan leads from one state to another. -/
def Leads (s t : State) : Prop := ∀ setting nested frame, round setting nested frame s = .ok .goOn t

/-- **A name that begins a conditional** is replaced until a test is there, by induction on the copies
that it is of. -/
theorem reaches_test (h : s.dictionary.BeginsConditional copied name) :
    ∀ {t : State}, t.dictionary = s.dictionary → t.stream.ahead = .control name :: rest →
      ∃ test u, (s.dictionary.meaning test).isTest = true ∧ ReflTransGen Leads t u ∧
        u.dictionary = s.dictionary ∧ u.stream.ahead = .control test :: rest := by
  induction h with
  | @test name h => exact fun ht hahead => ⟨name, _, h, .refl, ht, hahead⟩
  | @copy name old hname hcopied hfind h ih =>
    intro t ht hahead
    by_cases hself : name = old
    · subst hself
      exact ih ht hahead
    · rw [← ht] at hfind
      obtain ⟨test, u, htest, hleads, hu⟩ :=
        ih (t := { t with stream := ⟨.control old :: rest, t.consumed + 1⟩ }) ht rfl
      have hstep : Leads t { t with stream := ⟨.control old :: rest, t.consumed + 1⟩ } :=
        fun setting nested frame => round_renames ⟨hname, hself, hfind⟩ hahead
      exact ⟨test, u, htest, hleads.head hstep, hu⟩

end Scan

/-! ### Names that are misjudged -/

namespace Dictionary

theorem contains_declareFlag (d : Dictionary) (flag : String) :
    (d.declareFlag flag).flags.contains flag = true := by
  show (d.flags.insertIfNew flag false).contains flag = true
  rw [Std.HashMap.contains_insertIfNew, beq_self_eq_true, Bool.true_or]

/-- The meaning of a test is given to a name that looks like the test of a flag. -/
theorem misjudged_copy : ∃ d : Dictionary, Changes {} d ∧
    d.BeginsConditional (· = "ifdraft") "ifdraft" ∧ d.opensConditional "ifdraft" = false := by
  let given : Dictionary := ({} : Dictionary).enter "ifdraft" (.defined (.alias [.control "iftrue"]))
  have hflags : ∀ flag, (given.freeze "iftrue").flags.contains flag = false :=
    fun _ => Std.HashMap.contains_empty
  have hrename : ({} : Dictionary).renameBuiltin "ifdraft" "iftrue" =
      .ok (given.freeze "iftrue") := by
    unfold renameBuiltin
    rw [if_neg (by decide), define_of_arity_zero _ _ rfl, isFrozen_empty, if_neg Bool.false_ne_true]
    rfl
  have hfind : (given.freeze "iftrue").find? "ifdraft" = some (.alias [.control "iftrue"]) := by
    rw [find?_freeze, if_neg (by decide), find?_enter, if_pos rfl]
  have hold : (given.freeze "iftrue").find? "iftrue" = none := by
    rw [find?_freeze, if_pos rfl]
  have hbare : isBareTest "iftrue" = true :=
    isBareTest_of_beginsLikeTest (by decide) (by decide +kernel)
  have htest : (given.freeze "iftrue").Means "iftrue" .bareTest :=
    .bareTest hold (flagSetting?_of_noFlags hflags) (testedFlag?_of_noFlags hflags) hbare
  refine ⟨given.freeze "iftrue", .single (.rename hrename), ?_, ?_⟩
  · refine .copy (ofName?_of_beginsLikeTest (by decide)) rfl hfind (.test ?_)
    rw [htest.meaning_eq]
    rfl
  · rw [opensConditional_of_find? hfind, testedFlag?_of_noFlags hflags]
    rfl

theorem misjudged_redefinition : ∃ d : Dictionary, Changes {} d ∧
    (∀ copied, ¬d.BeginsConditional copied "ifdraft") ∧ d.opensConditional "ifdraft" = true := by
  let flagged : Dictionary := ({} : Dictionary).declareFlag "draft"
  let given : Dictionary := flagged.enter "ifdraft" (.defined (.simple 0 [.char 'x']))
  have hdefine : flagged.define "ifdraft" (.simple 0 [.char 'x']) = .ok given := by
    rw [define_of_arity_zero _ _ rfl, if_neg]
    exact ne_true_of_eq_false (isFrozen_empty "ifdraft")
  have hfind : given.find? "ifdraft" = some (.simple 0 [.char 'x']) := by
    rw [find?_enter, if_pos rfl]
  have hname : Structural.ofName? "ifdraft" = none := ofName?_of_beginsLikeTest (by decide)
  refine ⟨given, .tail (.single (.declareFlag _ "draft")) (.define hdefine), fun copied h => ?_, ?_⟩
  · obtain ⟨-, old, halias, -⟩ := (beginsConditional_iff_of_find? hname hfind).mp h
    cases halias
  · have hhead : Text.dropHead? "if" "ifdraft" = some "draft" := by decide
    have hdeclared : given.flags.contains "draft" = true := contains_declareFlag {} "draft"
    rw [opensConditional_of_find? hfind, testedFlag?, hhead, Option.filter_some, if_pos hdeclared]
    rfl

theorem misjudged_setting : ∃ d : Dictionary, Changes {} d ∧
    (∀ copied, ¬d.BeginsConditional copied "ifxtrue") ∧ d.opensConditional "ifxtrue" = true := by
  let flagged : Dictionary := ({} : Dictionary).declareFlag "ifx"
  have hfind : flagged.find? "ifxtrue" = none := find?_empty "ifxtrue"
  have hsetting : flagged.flagSetting? "ifxtrue" = some ("ifx", true) := by
    have htail : Text.dropTail? "true" "ifxtrue" = some "ifx" := by decide
    have hdeclared : flagged.flags.contains "ifx" = true := contains_declareFlag {} "ifx"
    rw [flagSetting?, flagWithEnding?, htail, Option.filter_some, if_pos hdeclared]
  refine ⟨flagged, .single (.declareFlag _ "ifx"), fun copied h => ?_, ?_⟩
  · rw [beginsConditional_iff_of_find?_none hfind, (Means.flagSetting hfind hsetting).meaning_eq] at h
    cases h
  · rw [opensConditional_of_find?_none hfind,
      isBareTest_of_beginsLikeTest (by decide) (by decide +kernel), Bool.or_true]

end Dictionary

/-- **What opens a conditional.** A name is counted as opening a conditional where a branch is passed
over exactly if it begins one when it is scanned, unless it is misjudged. A name that begins one is
replaced, in every scan and frame, until a test is there whose round begins a conditional. -/
theorem opens_iff_begins_unless_misjudged (d : Dictionary) (copied : String → Prop) (name : String) :
    ((d.opensConditional name = true ↔ d.BeginsConditional copied name) ↔
      ¬d.Misjudged copied name) ∧
    (d.BeginsConditional copied name → ∀ (s : State) rest, s.dictionary = d →
      s.stream.ahead = .control name :: rest → ∃ test t, ReflTransGen Scan.Leads s t ∧
        t.dictionary = d ∧ t.stream.ahead = .control test :: rest ∧
        ∀ setting nested frame, ∃ truth u,
          Scan.round setting nested frame t =
            Scan.goingOn (Scan.beginConditional setting truth) u) := by
  refine ⟨Dictionary.agree_iff_not_misjudged d copied name, fun h s rest hs hahead => ?_⟩
  subst hs
  obtain ⟨test, t, htest, hleads, hdictionary, hahead⟩ := Scan.reaches_test h rfl hahead
  rw [← hdictionary] at htest
  exact ⟨test, t, hleads, hdictionary, hahead, fun _ _ _ => Scan.round_test htest hahead⟩

/-- In each of the three ways a name is misjudged in a dictionary that declarations lead to: a copy of
a test, the test of a flag that is defined to be something else, and a name that sets a flag. -/
theorem names_misjudged :
    (∃ d : Dictionary, Dictionary.Changes {} d ∧
      d.BeginsConditional (· = "ifdraft") "ifdraft" ∧ d.opensConditional "ifdraft" = false) ∧
    (∃ d : Dictionary, Dictionary.Changes {} d ∧
      (∀ copied, ¬d.BeginsConditional copied "ifdraft") ∧ d.opensConditional "ifdraft" = true) ∧
    ∃ d : Dictionary, Dictionary.Changes {} d ∧
      (∀ copied, ¬d.BeginsConditional copied "ifxtrue") ∧ d.opensConditional "ifxtrue" = true :=
  ⟨Dictionary.misjudged_copy, Dictionary.misjudged_redefinition, Dictionary.misjudged_setting⟩

end ProofProse
