import ProofProse.Proofs.Lookup
import ProofProse.Proofs.Scan

/-! # What a name means

A name that is not structural is looked up in a fixed order. `Dictionary.meaning` is where the search
ends, with all that was not found on the way (`Dictionary.means_meaning`), and a scan does what the
name means there (`Scan.plainCommand_meaning`). What is proved of commands is proved for each meaning.
Names that begin like a test are never structural (`ofName?_of_beginsLikeTest`). -/

namespace ProofProse

/-- What a name means that is not structural, in the order in which it is looked up. -/
inductive Meaning where
  /-- What the source has defined. -/
  | defined (definition : Definition)
  /-- The setting of a flag. -/
  | flagSetting (flag : String) (value : Bool)
  /-- The test of a flag. -/
  | flagTest (flag : String)
  /-- A bare test. -/
  | bareTest
  /-- A command with an effect of its own. -/
  | effect (effect : Effect)
  /-- Nothing. -/
  | nothing

/-- A test that a conditional begins with. -/
def Meaning.isTest : Meaning → Bool
  | flagTest _ => true
  | bareTest => true
  | _ => false

/-- What a name means that is not structural. -/
def Dictionary.meaning (d : Dictionary) (name : String) : Meaning :=
  match d.find? name with
  | some definition => .defined definition
  | none =>
    match d.flagSetting? name with
    | some (flag, value) => .flagSetting flag value
    | none =>
      match d.testedFlag? name with
      | some flag => .flagTest flag
      | none =>
        if isBareTest name then .bareTest
        else
          match Effect.ofName? name with
          | some effect => .effect effect
          | none => .nothing

/-! ### Names that begin like a test -/

/-- A name that begins like a test. -/
def beginsLikeTest (name : String) : Bool := "if".toList.isPrefixOf name.toList

theorem ofName?_of_beginsLikeTest {name : String} (h : beginsLikeTest name = true) :
    Structural.ofName? name = none := by
  have hall : ∀ other ∈ Structural.entries.map Prod.fst, beginsLikeTest other = false := by decide
  refine Structural.ofName?_eq_none_iff.mpr (Bool.eq_false_iff.mpr fun hmem => ?_)
  rw [hall name (List.contains_iff_mem.mp hmem)] at h
  cases h

theorem beginsLikeTest_of_isBareTest {name : String} (h : isBareTest name = true) :
    beginsLikeTest name = true :=
  (Bool.and_eq_true_iff.mp h).1

/-- A name that begins like a test and is not in the table is a bare test. -/
theorem isBareTest_of_beginsLikeTest {name : String} (h : beginsLikeTest name = true)
    (heffect : (Command.entries.map Prod.fst).contains name = false) : isBareTest name = true := by
  rw [← Effect.isSome_ofName?, Option.isSome_eq_false_iff] at heffect
  unfold isBareTest
  rw [heffect, Bool.and_true]
  exact h

namespace Dictionary

variable {d : Dictionary} {name flag : String}

theorem beginsLikeTest_of_testedFlag? (h : d.testedFlag? name = some flag) :
    beginsLikeTest name = true := by
  unfold testedFlag? at h
  have hhead := (Option.filter_eq_some_iff.mp h).1
  unfold Text.dropHead? at hhead
  split at hhead
  · next hname => exact hname
  · cases hhead

theorem beginsLikeTest_of_opensConditional (h : d.opensConditional name = true) :
    beginsLikeTest name = true := by
  unfold opensConditional at h
  rcases Bool.or_eq_true_iff.mp h with hflag | hbare
  · obtain ⟨flag, hflag⟩ := Option.isSome_iff_exists.mp hflag
    exact beginsLikeTest_of_testedFlag? hflag
  · exact beginsLikeTest_of_isBareTest (Bool.and_eq_true_iff.mp hbare).1

theorem opensConditional_eq_false (h : beginsLikeTest name = false) :
    d.opensConditional name = false := by
  refine Bool.eq_false_iff.mpr fun hopens => ?_
  rw [beginsLikeTest_of_opensConditional hopens] at h
  cases h

theorem flagSetting?_eq_none (htrue : Text.dropTail? "true" name = none)
    (hfalse : Text.dropTail? "false" name = none) : d.flagSetting? name = none := by
  unfold flagSetting? flagWithEnding?
  rw [htrue, hfalse]
  rfl

theorem testedFlag?_eq_none (h : Text.dropHead? "if" name = none) : d.testedFlag? name = none := by
  unfold testedFlag?
  rw [h]
  rfl

theorem testedFlag?_of_noFlags (h : ∀ flag, d.flags.contains flag = false) :
    d.testedFlag? name = none :=
  Option.filter_eq_none_iff.mpr fun flag _ => ne_true_of_eq_false (h flag)

theorem flagSetting?_of_noFlags (h : ∀ flag, d.flags.contains flag = false) :
    d.flagSetting? name = none := by
  have hfilter : ∀ flag? : Option String, flag?.filter d.flags.contains = none := fun _ =>
    Option.filter_eq_none_iff.mpr fun flag _ => ne_true_of_eq_false (h flag)
  unfold flagSetting? flagWithEnding?
  rw [hfilter, hfilter]
  rfl

/-! ### Meanings -/

/-- What a name means, with what was looked up before and not found. -/
inductive Means (d : Dictionary) (name : String) : Meaning → Prop
  | defined {definition : Definition} (hfind : d.find? name = some definition) :
      Means d name (.defined definition)
  | flagSetting {flag : String} {value : Bool} (hfind : d.find? name = none)
      (hsetting : d.flagSetting? name = some (flag, value)) : Means d name (.flagSetting flag value)
  | flagTest {flag : String} (hfind : d.find? name = none) (hsetting : d.flagSetting? name = none)
      (htested : d.testedFlag? name = some flag) : Means d name (.flagTest flag)
  | bareTest (hfind : d.find? name = none) (hsetting : d.flagSetting? name = none)
      (htested : d.testedFlag? name = none) (hbare : isBareTest name = true) :
      Means d name .bareTest
  | effect {effect : Effect} (hfind : d.find? name = none) (hsetting : d.flagSetting? name = none)
      (htested : d.testedFlag? name = none) (hbare : isBareTest name = false)
      (heffect : Effect.ofName? name = some effect) : Means d name (.effect effect)
  | nothing (hfind : d.find? name = none) (hsetting : d.flagSetting? name = none)
      (htested : d.testedFlag? name = none) (hbare : isBareTest name = false)
      (heffect : Effect.ofName? name = none) : Means d name .nothing

/-- **The search** ends with one of the meanings. -/
theorem means_meaning (d : Dictionary) (name : String) : d.Means name (d.meaning name) := by
  unfold meaning
  cases hfind : d.find? name with
  | some definition => exact .defined hfind
  | none =>
  cases hsetting : d.flagSetting? name with
  | some pair => exact .flagSetting hfind hsetting
  | none =>
  cases htested : d.testedFlag? name with
  | some flag => exact .flagTest hfind hsetting htested
  | none =>
  cases hbare : isBareTest name with
  | true => exact .bareTest hfind hsetting htested hbare
  | false =>
  cases heffect : Effect.ofName? name with
  | some effect => exact .effect hfind hsetting htested hbare heffect
  | none => exact .nothing hfind hsetting htested hbare heffect

theorem Means.meaning_eq {meaning : Meaning} (h : d.Means name meaning) :
    d.meaning name = meaning := by
  unfold Dictionary.meaning
  cases h with
  | defined hfind => rw [hfind]
  | flagSetting hfind hsetting => rw [hfind, hsetting]
  | flagTest hfind hsetting htested => rw [hfind, hsetting, htested]
  | bareTest hfind hsetting htested hbare => rw [hfind, hsetting, htested, if_pos hbare]
  | effect hfind hsetting htested hbare heffect =>
    rw [hfind, hsetting, htested, if_neg (ne_true_of_eq_false hbare), heffect]
  | nothing hfind hsetting htested hbare heffect =>
    rw [hfind, hsetting, htested, if_neg (ne_true_of_eq_false hbare), heffect]

/-- A name that is not defined and sets no flag is a test exactly if it tests a flag or is a bare
test. -/
theorem isTest_meaning (hfind : d.find? name = none) (hsetting : d.flagSetting? name = none) :
    (d.meaning name).isTest = ((d.testedFlag? name).isSome || isBareTest name) := by
  have hmeans := d.means_meaning name
  generalize d.meaning name = meaning at hmeans
  cases hmeans with
  | defined hsome =>
    rw [hfind] at hsome
    cases hsome
  | flagSetting _ hsome =>
    rw [hsetting] at hsome
    cases hsome
  | flagTest _ _ htested => rw [htested]; rfl
  | bareTest _ _ htested hbare => rw [htested, hbare]; rfl
  | effect _ _ htested hbare _ => rw [htested, hbare]; rfl
  | nothing _ _ htested hbare _ => rw [htested, hbare]; rfl

theorem beginsLikeTest_of_isTest (h : (d.meaning name).isTest = true) :
    beginsLikeTest name = true := by
  have hmeans := d.means_meaning name
  generalize d.meaning name = meaning at h hmeans
  cases hmeans with
  | flagTest _ _ htested => exact beginsLikeTest_of_testedFlag? htested
  | bareTest _ _ _ hbare => exact beginsLikeTest_of_isBareTest hbare
  | _ => cases h

end Dictionary

/-! ### Doing what a name means -/

theorem Frame.closedBy_eq_false {name : String} (frame : Frame)
    (hname : Structural.ofName? name = none) : frame.closedBy name = false := by
  have hparenthesis : name ≠ ")" := Structural.ne_of_ofName? hname (by decide)
  have hbracket : name ≠ "]" := Structural.ne_of_ofName? hname (by decide)
  cases frame with
  | inline => exact beq_eq_false_iff_ne.mpr hparenthesis
  | display => exact beq_eq_false_iff_ne.mpr hbracket
  | _ => rfl

namespace Scan

variable {setting : Setting} {nested : Frame → Scan Flow} {frame : Frame} {s : State}
  {name : String}

/-- Does what a name means. -/
def carryOut (setting : Setting) (name : String) : Meaning → Scan Unit
  | .defined definition => expand name definition
  | .flagSetting flag value => onDictionary fun dictionary => (dictionary.setFlag flag value).1
  | .flagTest flag => do beginConditional setting (((← get).dictionary.flag? flag).getD false)
  | .bareTest => bareTest setting name
  | .effect effect => applyEffect setting name effect
  | .nothing => pure ()

theorem plainCommand_meaning (setting : Setting) (name : String) (s : State) :
    plainCommand setting name s = carryOut setting name (s.dictionary.meaning name) s := by
  unfold plainCommand
  rw [bind_ok (m := get) (a := s) (t := s) rfl]
  have hmeans := s.dictionary.means_meaning name
  generalize s.dictionary.meaning name = meaning at hmeans
  cases hmeans with
  | defined hfind => rw [hfind]; rfl
  | flagSetting hfind hsetting => rw [hfind, hsetting]; rfl
  | flagTest hfind hsetting htested => rw [hfind, hsetting, htested]; rfl
  | bareTest hfind hsetting htested hbare => rw [hfind, hsetting, htested, if_pos hbare]; rfl
  | effect hfind hsetting htested hbare heffect =>
    rw [hfind, hsetting, htested, if_neg (ne_true_of_eq_false hbare), heffect]
    rfl
  | nothing hfind hsetting htested hbare heffect =>
    rw [hfind, hsetting, htested, if_neg (ne_true_of_eq_false hbare), heffect]
    rfl

/-- A command that is not structural looks its name up first, and then does what it means. -/
theorem plainCommand_eq (setting : Setting) (name : String) :
    plainCommand setting name =
      get >>= fun s => carryOut setting name (s.dictionary.meaning name) :=
  funext fun s => plainCommand_meaning setting name s

theorem goingOn_congr {body body' : Scan Unit} {t : State} (h : body s = body' t) :
    goingOn body s = goingOn body' t := by
  unfold goingOn
  cases hrun : body' t with
  | ok a u => rw [bind_ok (h.trans hrun), bind_ok hrun]
  | error i u => rw [bind_error (h.trans hrun), bind_error hrun]

theorem command_plain (hname : Structural.ofName? name = none) :
    command setting nested frame name = goingOn (plainCommand setting name) := by
  unfold command
  rw [frame.closedBy_eq_false hname, if_neg Bool.false_ne_true, hname]

/-- **A command** that is not structural does what its name means, in every frame. -/
theorem command_meaning (hname : Structural.ofName? name = none) (s : State) :
    command setting nested frame name s =
      goingOn (carryOut setting name (s.dictionary.meaning name)) s := by
  rw [command_plain hname]
  exact goingOn_congr (plainCommand_meaning setting name s)

end Scan

end ProofProse
