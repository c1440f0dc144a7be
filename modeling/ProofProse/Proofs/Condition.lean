import ProofProse.Proofs.Choice
import ProofProse.Proofs.Consuming

/-! # Conditions are joined from the left

A condition is written as a row of tests, each behind its negations, with a joint between two of
them and with spaces and characters anywhere in front of a command (`TestRow.Writes`). Its reading
keeps the value so far, the joint, and the negation in front of the next test. A negation or a joint
changes one of the three, and a test with its operands uses them up (`Condition.reading_test`). So
behind every test the value is that of the row up to it, joined from the left
(`Condition.reading_more`, by induction on the tests that follow). The command that asks for the
condition then leaves the chosen argument; only inside a proof, and only if the end of a proof
stands in one of its three arguments, it leaves none (`Scan.conditions_join_from_the_left`). -/

namespace ProofProse

variable {tokens rest content : List Token}

/-! ### Rows of tests -/

/-- What joins a test to the tests in front of it. -/
inductive Joint where
  | and
  | or
  deriving DecidableEq

/-- A test with its operands. -/
inductive Test where
  /-- Whether two texts are the same. -/
  | equal (left right : List Token)
  /-- Whether a flag is set. -/
  | flag (name : List Token)
  /-- Whether nothing is said of a name. -/
  | undefined (name : String)
  deriving DecidableEq

/-- A test with some negations in front of it. -/
structure SignedTest where
  negations : Nat
  test : Test
  deriving DecidableEq

/-- Tests in a row. -/
structure TestRow where
  first : SignedTest
  more : List (Joint × SignedTest)
  deriving DecidableEq

namespace Joint

/-- Joins a value to the value so far. -/
def join : Joint → Bool → Bool → Bool
  | and, value, next => value && next
  | or, value, next => value || next

/-- The commands that write a joint. -/
def commands : Joint → List String
  | and => ["and", "AND"]
  | or => ["or", "OR"]

end Joint

namespace Test

/-- What a test comes to. -/
def value (d : Dictionary) : Test → Bool
  | equal left right => plainText left == plainText right
  | flag name => (d.flag? (plainText name)).getD false
  | undefined name => !d.knows name

/-- The command that makes a test. -/
def command : Test → String
  | equal _ _ => "equal"
  | flag _ => "boolean"
  | undefined _ => "isundefined"

/-- The operands of a test. -/
def operands : Test → List (List Token)
  | equal left right => [left, right]
  | flag name => [name]
  | undefined name => [[.control name]]

end Test

/-- What a test comes to behind its negations. -/
def SignedTest.value (d : Dictionary) (t : SignedTest) : Bool :=
  Bool.not^[t.negations] (t.test.value d)

/-- What a row of tests comes to, joined from the left. -/
def TestRow.value (d : Dictionary) (row : TestRow) : Bool :=
  row.more.foldl (fun value next => next.1.join value (next.2.value d)) (row.first.value d)

/-- Spaces and characters, which say nothing in a condition. -/
def IsFiller (tokens : List Token) : Prop := ∀ t ∈ tokens, t = .space ∨ ∃ c, t = .char c

/-- How a test is written behind its negations. -/
inductive WritesTest (test : Test) : Nat → List Token → Prop
  | test {filler operands : List Token} (hfiller : IsFiller filler)
      (hoperands : WritesArguments test.operands operands) :
      WritesTest test 0 (filler ++ .control test.command :: operands)
  | negated {filler tokens : List Token} {name : String} {n : Nat} (hfiller : IsFiller filler)
      (hname : name ∈ ["not", "NOT"]) (h : WritesTest test n tokens) :
      WritesTest test (n + 1) (filler ++ .control name :: tokens)

/-- How the tests behind the first one are written, each behind a joint. -/
inductive WritesMore : List (Joint × SignedTest) → List Token → Prop
  | nil {filler : List Token} (hfiller : IsFiller filler) : WritesMore [] filler
  | cons {filler tokens rest : List Token} {name : String} {joint : Joint} {t : SignedTest}
      {more : List (Joint × SignedTest)} (hfiller : IsFiller filler) (hname : name ∈ joint.commands)
      (ht : WritesTest t.test t.negations tokens) (hmore : WritesMore more rest) :
      WritesMore ((joint, t) :: more) (filler ++ .control name :: (tokens ++ rest))

/-- How a row of tests is written. -/
def TestRow.Writes (row : TestRow) (condition : List Token) : Prop :=
  ∃ first more, condition = first ++ more ∧
    WritesTest row.first.test row.first.negations first ∧ WritesMore row.more more

/-! ### Groups of a list -/

theorem groupFrom_nested (h : WellNested content) (rest : List Token) :
    ∀ (depth : Nat) (before : List Token) (count : Nat),
      groupFrom depth before count (content ++ rest) =
        groupFrom depth (content.reverse ++ before) (count + content.length) rest := by
  induction h generalizing rest with
  | nil => exact fun _ _ _ => rfl
  | @token t behind ht _ ih =>
    intro depth before count
    have hstep : groupFrom depth before count (t :: behind ++ rest) =
        groupFrom depth (t :: before) (count + 1) (behind ++ rest) := by
      cases t with
      | openGroup => cases ht
      | closeGroup => cases ht
      | _ => rfl
    rw [hstep, ih, List.reverse_cons, List.append_assoc, List.length_cons, Nat.add_assoc,
      Nat.add_comm 1]
    rfl
  | @group inside behind _ _ ihinside ih =>
    intro depth before count
    have hopened : groupFrom depth before count
        (.openGroup :: (inside ++ .closeGroup :: behind) ++ rest) =
        groupFrom (depth + 1) (.openGroup :: before) (count + 1)
          (inside ++ .closeGroup :: (behind ++ rest)) := by
      rw [List.cons_append, List.append_assoc]
      rfl
    rw [hopened, ihinside]
    have hclosed : ∀ seen count, groupFrom (depth + 1) seen count (.closeGroup :: (behind ++ rest)) =
        groupFrom depth (.closeGroup :: seen) (count + 1) (behind ++ rest) := fun _ _ => rfl
    rw [hclosed, ih]
    congr 1
    · simp
    · simp
      omega

theorem readGroup_spaces {spaces : List Token} (hspaces : AllSpaces spaces) (tokens : List Token) :
    ∀ count : Nat,
      readGroup count (spaces ++ tokens) = readGroup (count + spaces.length) tokens := by
  induction spaces with
  | nil => exact fun _ => rfl
  | cons x spaces ih =>
    intro count
    obtain ⟨rfl, hmore⟩ := List.forall_mem_cons.mp hspaces
    rw [List.length_cons, ← Nat.add_assoc, Nat.add_right_comm, ← ih hmore]
    rfl

/-- **The reader of conditions** reads an argument as it is written. -/
theorem readGroup_written (h : WritesArgument content tokens) (rest : List Token) (count : Nat) :
    readGroup count (tokens ++ rest) = ⟨content, rest, count + tokens.length, 0⟩ := by
  cases h with
  | @group spaces _ hspaces hcontent =>
    rw [List.append_assoc, readGroup_spaces hspaces, braced_append]
    show groupFrom 0 [] (count + spaces.length + 1) (content ++ .closeGroup :: rest) = _
    rw [groupFrom_nested hcontent]
    show Reading.mk (content.reverse ++ []).reverse rest _ 0 = _
    rw [List.append_nil, List.reverse_reverse, List.length_append, length_braced]
    congr 1
    omega
  | @single spaces x hspaces hspace hopen hboundary =>
    rw [List.append_assoc, readGroup_spaces hspaces, List.length_append]
    cases x with
    | space => exact absurd rfl hspace
    | openGroup => exact absurd rfl hopen
    | _ => rfl

namespace Condition

variable {d : Dictionary} {c : Condition}

/-! ### Steps -/

theorem step_negation {name : String} (hname : name ∈ ["not", "NOT"]) (rest : List Token) :
    c.step d name rest = ({ c with negated := !c.negated }, rest) := by
  rcases List.mem_pair.mp hname with rfl | rfl <;> rfl

theorem step_joint {joint : Joint} {name : String} (hname : name ∈ joint.commands)
    (rest : List Token) : c.step d name rest = ({ c with conjunction := joint == .and }, rest) := by
  cases joint with
  | and => rcases List.mem_pair.mp hname with rfl | rfl <;> rfl
  | or => rcases List.mem_pair.mp hname with rfl | rfl <;> rfl

theorem step_test {test : Test} (h : WritesArguments test.operands tokens) (rest : List Token) :
    c.step d test.command (tokens ++ rest) = (c.join (test.value d), rest) := by
  cases test with
  | equal left right =>
    obtain ⟨first, _, hleft, hmore, rfl⟩ := h.split
    obtain ⟨second, _, hright, hnone, rfl⟩ := hmore.split
    obtain rfl := hnone.eq_nil
    rw [List.append_nil, List.append_assoc]
    unfold step Test.command
    dsimp only
    rw [readGroup_written hleft, readGroup_written hright]
    rfl
  | flag name =>
    obtain ⟨first, _, hname, hnone, rfl⟩ := h.split
    obtain rfl := hnone.eq_nil
    rw [List.append_nil]
    unfold step Test.command
    dsimp only
    rw [readGroup_written hname]
    rfl
  | undefined name =>
    obtain ⟨first, _, hname, hnone, rfl⟩ := h.split
    obtain rfl := hnone.eq_nil
    rw [List.append_nil]
    unfold step Test.command
    dsimp only
    rw [readGroup_written hname]
    rfl

theorem join_negated (test : Bool) : { c with negated := !c.negated }.join test = c.join !test := by
  unfold join
  rw [Bool.not_bne, Bool.bne_not]

theorem join_joint {value : Bool} (hvalue : c.value = some value) (hnegated : c.negated = false)
    (joint : Joint) (test : Bool) :
    { c with conjunction := joint == Joint.and }.join test =
      ⟨some (joint.join value test), joint == Joint.and, false⟩ := by
  unfold join
  rw [hvalue, hnegated]
  cases joint <;> cases test <;> rfl

/-! ### Readings -/

/-- A condition that is read on to its end. -/
def reading (d : Dictionary) (c : Condition) (tokens : List Token) : Condition :=
  readFrom d tokens.length c tokens

theorem reading_filler {filler : List Token} (h : IsFiller filler) (rest : List Token) :
    reading d c (filler ++ rest) = reading d c rest := by
  induction filler with
  | nil => rfl
  | cons t filler ih =>
    obtain ⟨ht, hfiller⟩ := List.forall_mem_cons.mp h
    rw [← ih hfiller]
    obtain rfl | ⟨x, rfl⟩ := ht <;> rfl

theorem reading_control (name : String) (rest : List Token) :
    reading d c (.control name :: rest) =
      reading d (c.step d name rest).1 (c.step d name rest).2 :=
  readFrom_of_le d _ _ _ _ (length_step_le d c name rest) (Nat.le_refl _)

/-- **A test is read** with its negations: what it comes to is joined. -/
theorem reading_test {test : Test} {n : Nat} (h : WritesTest test n tokens) (rest : List Token) :
    reading d c (tokens ++ rest) = reading d (c.join (Bool.not^[n] (test.value d))) rest := by
  induction h generalizing c with
  | test hfiller hoperands =>
    rw [List.append_assoc, reading_filler hfiller, List.cons_append, reading_control,
      step_test hoperands]
    rfl
  | negated hfiller hname _ ih =>
    rw [List.append_assoc, reading_filler hfiller, List.cons_append, reading_control,
      step_negation hname, ih, join_negated, Function.iterate_succ_apply']

/-- **The tests behind the first** are joined to the value so far, one after the other. -/
theorem reading_more {more : List (Joint × SignedTest)} (h : WritesMore more tokens) {value : Bool}
    (hvalue : c.value = some value) (hnegated : c.negated = false) :
    (reading d c tokens).value =
      some (more.foldl (fun value next => next.1.join value (next.2.value d)) value) := by
  induction h generalizing c value with
  | @nil filler hfiller =>
    rw [← List.append_nil filler, reading_filler hfiller]
    exact hvalue
  | cons hfiller hname ht _ ih =>
    rw [reading_filler hfiller, reading_control, step_joint hname, reading_test ht,
      join_joint hvalue hnegated]
    exact ih rfl rfl

/-- **A condition** comes to what its row of tests comes to. -/
theorem evaluate_written {row : TestRow} {condition : List Token} (h : row.Writes condition) :
    evaluate d condition = row.value d := by
  obtain ⟨first, more, rfl, hfirst, hmore⟩ := h
  show ((reading d {} (first ++ more)).value).getD false = _
  have hvalue : (({} : Condition).join (row.first.value d)).value = some (row.first.value d) :=
    congrArg some (Bool.bne_false _)
  rw [reading_test hfirst]
  exact congrArg (Option.getD · false) (reading_more hmore hvalue rfl)

end Condition

/-! ### The command -/

namespace Scan

/-- **Conditions are joined from the left.** With any dictionary the condition that writes a row of
tests comes to what the row does, and the command that asks for it leaves the chosen one of the two
arguments behind it in front of the rest, less the ends of files in it. Only inside a proof, if the
end of a proof stands in one of the three arguments, the command is a runaway argument. -/
theorem conditions_join_from_the_left (row : TestRow) :
    (∀ (d : Dictionary) (condition : List Token), row.Writes condition →
      Condition.evaluate d condition = row.value d) ∧
    ∀ (s : State) (condition yes no tokens rest : List Token), row.Writes (unmarked condition) →
      WritesArguments [condition, yes, no] tokens →
      ((s.inProof = true → ∀ content ∈ [condition, yes, no], ¬HoldsProofEnd content) →
        choice .ifThenElse (s.facing (tokens ++ rest)) =
          .ok () (s.beyond tokens
            (unmarked (if row.value s.dictionary then yes else no) ++ rest))) ∧
      (s.inProof = true → (∃ content ∈ [condition, yes, no], HoldsProofEnd content) →
        ∃ t, choice .ifThenElse (s.facing (tokens ++ rest)) = .error (.drop .runawayArgument) t) := by
  refine ⟨fun d condition hrow => Condition.evaluate_written hrow, ?_⟩
  intro s condition yes no tokens rest hrow hwritten
  have hasking : choice .ifThenElse = asking Condition.evaluate := rfl
  rw [hasking, ← Condition.evaluate_written hrow]
  exact ⟨fun hclear => asking_written hwritten hclear rest,
    fun hproof hends => asking_written_runaway hwritten hproof hends rest⟩

/-- Three tests in a row. Joined from the right they would hold. -/
def threeTests : TestRow :=
  ⟨⟨0, .equal [.char 'a'] [.char 'a']⟩,
    [(.or, ⟨1, .undefined "emph"⟩), (.and, ⟨2, .flag [.char 'f']⟩)]⟩

/-- How the three tests can be written. -/
def threeTestsWritten : List Token :=
  .control "equal" :: (braced [.char 'a'] ++ .space :: braced [.char 'a']) ++
    ([.space, .control "or", .control "not", .control "isundefined"] ++ braced [.control "emph"] ++
      ([.char '&', .control "AND", .control "NOT", .space, .control "not", .control "boolean",
        .char 'f', .space]))

theorem writes_threeTests : threeTests.Writes threeTestsWritten := by
  have hequal : WritesArguments (Test.equal [.char 'a'] [.char 'a']).operands
      (braced [.char 'a'] ++ .space :: braced [.char 'a']) :=
    .cons (@WritesArgument.group [] _ nofun (.token rfl .nil))
      (.cons (@WritesArgument.group [.space] _ (fun _ => List.mem_singleton.mp) (.token rfl .nil))
        .nil)
  have hundefined : WritesArguments (Test.undefined "emph").operands (braced [.control "emph"]) :=
    .cons (@WritesArgument.group [] _ nofun (.token rfl .nil)) .nil
  have hflag : WritesArguments (Test.flag [.char 'f']).operands [.char 'f'] :=
    .cons (@WritesArgument.single [] (.char 'f') nofun nofun nofun rfl) .nil
  have hspace : IsFiller [.space] := fun _ ht => .inl (List.mem_singleton.mp ht)
  have hchar : IsFiller [.char '&'] := fun _ ht => .inr ⟨_, List.mem_singleton.mp ht⟩
  have hfirst : WritesTest (.equal [.char 'a'] [.char 'a']) 0 _ :=
    @WritesTest.test _ [] _ nofun hequal
  have hsecond : WritesTest (.undefined "emph") 1 _ :=
    @WritesTest.negated _ [] _ "not" 0 nofun (by decide) (@WritesTest.test _ [] _ nofun hundefined)
  have hthird : WritesTest (.flag [.char 'f']) 2 _ :=
    @WritesTest.negated _ [] _ "NOT" 1 nofun (by decide)
      (@WritesTest.negated _ [.space] _ "not" 0 hspace (by decide)
        (@WritesTest.test _ [] _ nofun hflag))
  exact ⟨_, _, rfl, hfirst,
    @WritesMore.cons [.space] _ _ "or" .or ⟨1, _⟩ _ hspace (by decide) hsecond
      (@WritesMore.cons [.char '&'] _ _ "AND" .and ⟨2, _⟩ _ hchar (by decide) hthird (.nil hspace))⟩

/-- Inside a proof the second of two arguments is chosen. -/
theorem second_of_two_chosen :
    let s : State := { State.start "main.tex" [] with proofDepth := 1 }
    let tokens := braced threeTestsWritten ++ (braced [.char 'A'] ++ [.space, .char 'B'])
    threeTests.Writes (unmarked threeTestsWritten) ∧
      WritesArguments [threeTestsWritten, [.char 'A'], [.char 'B']] tokens ∧
      (∀ content ∈ [threeTestsWritten, [.char 'A'], [.char 'B']], ¬HoldsProofEnd content) ∧
      choice .ifThenElse (s.facing (tokens ++ [.char 'y'])) =
        .ok () (s.beyond tokens [.char 'B', .char 'y']) := by
  intro s tokens
  have hrow : threeTests.Writes (unmarked threeTestsWritten) := writes_threeTests
  have hequal : WellNested (braced [.char 'a']) := .braced (.token rfl .nil)
  have hundefined : WellNested (braced [.control "emph"]) := .braced (.token rfl .nil)
  have hnested : WellNested threeTestsWritten :=
    .append (.token rfl (hequal.append (.token rfl hequal)))
      (.append (.append (wellNested_of_noBraces (by decide)) hundefined)
        (wellNested_of_noBraces (by decide)))
  have hwritten : WritesArguments [threeTestsWritten, [.char 'A'], [.char 'B']] tokens :=
    .cons (@WritesArgument.group [] _ nofun hnested)
      (.cons (@WritesArgument.group [] _ nofun (.token rfl .nil))
        (.cons (@WritesArgument.single [.space] (.char 'B') (fun _ => List.mem_singleton.mp) nofun
          nofun rfl) .nil))
  have hclear : ∀ content ∈ [threeTestsWritten, [.char 'A'], [.char 'B']],
      ¬HoldsProofEnd content := by
    intro content hcontent
    refine not_holdsProofEnd ?_
    revert content
    decide
  have hvalue : threeTests.value s.dictionary = false := by
    have hflag : s.dictionary.flag? (plainText [.char 'f']) = none := Std.HashMap.getElem?_empty
    have hlast : threeTests.value s.dictionary =
        ((plainText [.char 'a'] == plainText [.char 'a'] || !!s.dictionary.knows "emph") &&
          !!(s.dictionary.flag? (plainText [.char 'f'])).getD false) := rfl
    rw [hlast, hflag]
    exact Bool.and_false _
  have hchosen := ((conditions_join_from_the_left threeTests).2 s threeTestsWritten [.char 'A']
    [.char 'B'] tokens [.char 'y'] hrow hwritten).1 fun _ => hclear
  rw [hvalue] at hchosen
  exact ⟨hrow, hwritten, hclear, hchosen⟩

/-- An end of a proof stands in a condition, and none of the two arguments is left. -/
theorem end_of_proof_in_a_condition :
    ¬∀ (s : State) (row : TestRow) (condition yes no tokens rest : List Token),
      row.Writes condition → WritesArguments [condition, yes, no] tokens →
      ∃ t, choice .ifThenElse (s.facing (tokens ++ rest)) = .ok () t ∧
        t.stream.ahead = (if row.value s.dictionary then yes else no) ++ rest := by
  intro h
  let s : State := { State.start "main.tex" [] with proofDepth := 1 }
  let ends : List Token := .control "end" :: braced (charTokens "proof")
  let condition : List Token := .control "equal" :: (braced ends ++ braced [.char 'x'])
  have hends : WellNested ends := .token rfl (.braced (wellNested_of_noBraces (by decide)))
  have hrow : TestRow.Writes ⟨⟨0, .equal ends [.char 'x']⟩, []⟩ condition :=
    ⟨_, [], (List.append_nil _).symm, @WritesTest.test _ [] _ nofun
      (.cons (@WritesArgument.group [] _ nofun hends)
        (.cons (@WritesArgument.group [] _ nofun (.token rfl .nil)) .nil)), .nil nofun⟩
  have hwritten : WritesArguments [condition, [.char 'A'], [.char 'B']] _ :=
    .cons (@WritesArgument.group [] _ nofun
        (.token rfl (hends.braced.append (.braced (.token rfl .nil)))))
      (.cons (@WritesArgument.group [] _ nofun (.token rfl .nil))
        (.cons (@WritesArgument.group [] _ nofun (.token rfl .nil)) .nil))
  obtain ⟨t, hchosen, -⟩ := h s _ condition _ _ _ [] hrow hwritten
  cases hchosen

end Scan

end ProofProse
