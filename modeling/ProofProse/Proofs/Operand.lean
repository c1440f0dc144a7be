import ProofProse.Proofs.Branch
import ProofProse.Proofs.Consuming
import ProofProse.Proofs.Limits

/-! # Operands of bare tests

A bare test is decided without a look at its operands, and these stand in front of the branch that is
passed over. An operand is no end of a branch and no naming command, so it is gone through like any
other name (`branchFrom_operands`, by induction on the operands): one that opens a conditional, as
far as the dictionary tells, is counted as one. If none does, the first branch ends with its own
`else`. If some do, no `else` of the test is found, its `fi` closes what an operand has opened, and
the search goes on behind it (`skipBranch_opened`). -/

namespace ProofProse

/-- The operands of a test. -/
structure Operands (names : List String) : Prop where
  /-- None ends a branch. -/
  noEnd : ∀ name ∈ names, name ≠ "fi" ∧ name ≠ "else"
  /-- None is followed by a name that it defines. -/
  noNaming : ∀ name ∈ names, namingCommands.contains name = false

/-- What stands behind a test: its operands and its branches. -/
def behindTest (names : List String) (first second rest : List Token) : List Token :=
  names.map Token.control ++ (first ++ .control "else" :: (second ++ .control "fi" :: rest))

section Operands

variable {opens : String → Bool} {limit depth count fileEnds : Nat} {names : List String}
  {first second rest : List Token}

theorem Operands.tail {name : String} (h : Operands (name :: names)) : Operands names :=
  ⟨fun n hn => h.noEnd n (List.mem_cons_of_mem _ hn),
    fun n hn => h.noNaming n (List.mem_cons_of_mem _ hn)⟩

theorem branchFrom_operand {name : String} (h : Operands (name :: names)) (hcount : count ≤ limit) :
    branchFrom limit opens true false depth count fileEnds (.control name :: rest) =
      branchFrom limit opens true false (depth + if opens name then 1 else 0) (count + 1) fileEnds
        rest := by
  obtain ⟨hfi, helse⟩ := h.noEnd name List.mem_cons_self
  have hnaming := h.noNaming name List.mem_cons_self
  have hend : ¬(name == "else" && depth == 0 && true) = true := by simp [helse]
  rw [branchFrom_control hcount, if_neg (by simpa using hfi), if_neg hend,
    if_neg (ne_true_of_eq_false hnaming)]
  split
  · rfl
  · rfl

/-- **Operands of a test** are gone through, and those that open a conditional are counted. -/
theorem branchFrom_operands : ∀ {names : List String} {depth count : Nat}, Operands names →
    count + names.length ≤ limit →
    branchFrom limit opens true false depth count fileEnds (names.map .control ++ rest) =
      branchFrom limit opens true false (depth + names.countP opens) (count + names.length) fileEnds
        rest := by
  intro names
  induction names with
  | nil => exact fun _ _ => rfl
  | cons name names ih =>
    intro depth count h hcount
    rw [List.length_cons] at hcount ⊢
    rw [List.map_cons, List.cons_append, branchFrom_operand h (by omega), ih h.tail (by omega),
      List.countP_cons]
    congr 1 <;> omega

/-- Where no operand opens a conditional, the first branch ends with the `else` behind it. -/
theorem readBranch_operands (hopens : ∀ name, opens name = true → beginsLikeTest name = true)
    (hnames : Operands names) (hnone : ∀ name ∈ names, opens name = false)
    (hfirst : Balanced opens false first) (hlimit : names.length + first.length ≤ limit) :
    readBranch limit opens true (behindTest names first second rest) =
      ⟨.found, second ++ .control "fi" :: rest, names.length + first.length + 1, 0⟩ := by
  have hcount : names.countP opens = 0 := by
    rw [List.countP_eq_zero]
    exact fun name hname => ne_true_of_eq_false (hnone name hname)
  unfold readBranch behindTest
  rw [branchFrom_operands hnames (by omega), hcount,
    branchFrom_balanced hopens hfirst (fun h => nomatch h) (by omega), branchFrom_else (by omega),
    Nat.zero_add]

/-- Where an operand opens a conditional, the search for the end of the first branch passes both
branches and the `fi` behind them. -/
theorem rest_of_opened (hopens : ∀ name, opens name = true → beginsLikeTest name = true)
    (hnames : Operands names) (hsome : ∃ name ∈ names, opens name = true)
    (hfirst : Balanced opens false first) (hsecond : Balanced opens true second)
    (hfound : (readBranch limit opens true (behindTest names first second rest)).result = .found) :
    (readBranch limit opens true (behindTest names first second rest)).rest <:+ rest := by
  -- The limit was not passed, so a limit wide enough for all tokens gives the same reading.
  let wide := max limit (behindTest names first second rest).length
  have hlength : (behindTest names first second rest).length =
      names.length + first.length + second.length + rest.length + 2 := by
    simp only [behindTest, List.length_append, List.length_map, List.length_cons]
    omega
  have hwide : names.length + first.length + second.length + 2 ≤ wide := by omega
  have hsame : readBranch wide opens true (behindTest names first second rest) =
      readBranch limit opens true (behindTest names first second rest) := by
    rcases branchFrom_of_le (Nat.le_max_left limit _) opens true
      (behindTest names first second rest) false 0 0 0 with hlong | hsame
    · unfold readBranch at hfound
      rw [hfound] at hlong
      cases hlong
    · exact hsame
  obtain ⟨depth, hdepth⟩ : ∃ depth, names.countP opens = depth + 1 :=
    Nat.exists_eq_succ_of_ne_zero (Nat.pos_iff_ne_zero.mp (List.countP_pos_iff.mpr hsome))
  have hplain : (Token.control "else").IsPlain opens :=
    ⟨by decide, by decide, Bool.eq_false_iff.mpr fun h => nomatch hopens "else" h⟩
  have helse : ∀ count rest, count ≤ wide →
      branchFrom wide opens true false (depth + 1) count 0 (.control "else" :: rest) =
        branchFrom wide opens true false (depth + 1) (count + 1) 0 rest := fun _ _ hcount =>
    branchFrom_plain hplain (fun _ => rfl) (fun _ h => absurd h (Nat.succ_ne_zero depth)) hcount
  have hread : readBranch wide opens true (behindTest names first second rest) =
      branchFrom wide opens true false depth
        (names.length + first.length + 1 + second.length + 1) 0 rest := by
    unfold readBranch behindTest
    rw [branchFrom_operands hnames (by omega), Nat.zero_add, hdepth,
      branchFrom_balanced hopens hfirst (fun h => nomatch h) (by omega), helse _ _ (by omega),
      branchFrom_balanced hopens hsecond (fun _ h => absurd h (Nat.succ_ne_zero depth)) (by omega),
      branchFrom_inner_fi (by omega), Nat.zero_add]
  rw [← hsame, hread]
  exact (passes_branchFrom wide opens true rest false depth _ 0).suffix

end Operands

/-! ### Tests that do not look at their operands -/

namespace Dictionary

variable {d : Dictionary} {name flag : String}

/-- A test by what it is called and what it is about. The source has not defined the test, and has no
flag that makes it one that holds. -/
inductive TestsOperands (d : Dictionary) : String → List String → Prop
  | same (a b : String) (hfind : d.find? "ifx" = none) (hflag : d.flag? "x" ≠ some true) :
      TestsOperands d "ifx" [a, b]
  | defined (a : String) (hfind : d.find? "ifdefined" = none)
      (hflag : d.flag? "defined" ≠ some true) (ha : a ≠ "hyperref") :
      TestsOperands d "ifdefined" [a]

/-- A bare test that is not defined is a bare test, or the test of a flag that fails. -/
theorem bareTest_or_fails (hfind : d.find? name = none) (hsetting : d.flagSetting? name = none)
    (hhead : Text.dropHead? "if" name = some flag) (hflag : d.flag? flag ≠ some true)
    (hbare : isBareTest name = true) : d.meaning name = .bareTest ∨ d.Fails name := by
  cases htested : d.testedFlag? name with
  | none => exact .inl (Means.bareTest hfind hsetting htested hbare).meaning_eq
  | some tested =>
    have htested' := htested
    unfold testedFlag? at htested'
    rw [hhead] at htested'
    obtain rfl : flag = tested := Option.some.inj (Option.filter_eq_some_iff.mp htested').1
    exact .inr (.flag (Means.flagTest hfind hsetting htested).meaning_eq hflag)

end Dictionary

namespace Scan

open State

variable {setting : Setting} {s t : State} {test : String} {names : List String}
  {first second rest : List Token}

theorem carryOut_testsOperands (h : s.dictionary.TestsOperands test names)
    (hs : s.stream.ahead = names.map Token.control ++ rest) :
    carryOut setting test (s.dictionary.meaning test) s = skipBranch setting true s := by
  have hbare : ∀ name, beginsLikeTest name = true →
      (Command.entries.map Prod.fst).contains name = false → isBareTest name = true :=
    fun _ => isBareTest_of_beginsLikeTest
  cases h with
  | same a b hfind hflag =>
    refine carryOut_fails ?_
    rcases Dictionary.bareTest_or_fails hfind (Dictionary.flagSetting?_eq_none (by decide) (by decide))
      rfl hflag (hbare "ifx" (by decide) (by decide +kernel)) with hmeaning | hfails
    · exact .bare hmeaning (by decide) (by decide)
    · exact hfails
  | defined a hfind hflag ha =>
    rcases Dictionary.bareTest_or_fails hfind (Dictionary.flagSetting?_eq_none (by decide) (by decide))
      rfl hflag (hbare "ifdefined" (by decide) (by decide +kernel)) with hmeaning | hfails
    · -- The operand is no space, and not the command that is always taken to be there.
      have hspaces : onStream Stream.skipSpaces s = .ok () s := by
        refine onStream_ok (Stream.skipWhile_of_head fun t ht => ?_)
        rw [hs] at ht
        cases ht
        rfl
      have hpeek : peek s = .ok (some (.control a)) s := by
        unfold peek Stream.peek?
        rw [hs]
        rfl
      have hholds : (some (Token.control a)).any (Token.isControl "hyperref") = false :=
        beq_eq_false_iff_ne.mpr ha
      rw [hmeaning]
      show bareTest setting "ifdefined" s = _
      unfold bareTest
      rw [if_neg (by decide), if_pos (by decide), bind_ok hspaces, bind_ok hpeek, hholds]
      rfl
    · exact carryOut_fails hfails

theorem command_testsOperands {nested : Frame → Scan Flow} {frame : Frame}
    (h : s.dictionary.TestsOperands test names) :
    command setting nested frame test (s.facing (behindTest names first second rest)) =
      goingOn (skipBranch setting true) (s.facing (behindTest names first second rest)) := by
  have hname : Structural.ofName? test = none := by
    cases h with
    | same => exact ofName?_of_beginsLikeTest (by decide)
    | defined => exact ofName?_of_beginsLikeTest (by decide)
  rw [command_meaning hname]
  exact goingOn_congr (carryOut_testsOperands (s := s.facing _) h rfl)

theorem skipBranch_operands (hnames : Operands names)
    (hnone : ∀ name ∈ names, s.dictionary.opensConditional name = false)
    (hfirst : Balanced s.dictionary.opensConditional false first)
    (hlimit : names.length + first.length ≤ setting.options.conditionalLimit) :
    skipBranch setting true (s.facing (behindTest names first second rest)) =
      .ok () (s.past (names.length + first.length + 1) (second ++ .control "fi" :: rest)) := by
  let read : State → List Token → Reading RegionEnd := fun s =>
    readBranch setting.options.conditionalLimit s.dictionary.opensConditional true
  unfold skipBranch
  exact bind_ok (take_of_eq read (s.facing (behindTest names first second rest))
    (readBranch_operands (fun _ => Dictionary.beginsLikeTest_of_opensConditional) hnames hnone hfirst
      hlimit))

theorem skipBranch_opened (hnames : Operands names)
    (hsome : ∃ name ∈ names, s.dictionary.opensConditional name = true)
    (hfirst : Balanced s.dictionary.opensConditional false first)
    (hsecond : Balanced s.dictionary.opensConditional true second)
    (h : skipBranch setting true (s.facing (behindTest names first second rest)) = .ok () t) :
    t.stream.ahead <:+ rest := by
  let read : State → List Token → Reading RegionEnd := fun s =>
    readBranch setting.options.conditionalLimit s.dictionary.opensConditional true
  let reading := read s (behindTest names first second rest)
  have hrun : take read (s.facing (behindTest names first second rest)) = .ok reading.result _ :=
    take_of_eq read _ rfl
  unfold skipBranch at h
  rw [bind_ok hrun] at h
  cases hfound : reading.result with
  | found =>
    rw [hfound] at h
    cases h
    exact rest_of_opened (fun _ => Dictionary.beginsLikeTest_of_opensConditional) hnames hsome hfirst
      hsecond hfound
  | tooLong => rw [hfound] at h; cases h
  | ended => rw [hfound] at h; cases h

/-- **Operands of bare tests.** Both tests leave their second branch, for any balanced branches within
the limit, exactly where no operand opens a conditional as far as the dictionary tells. The first
branch is then gone with its `else`, and nothing but the stream changes. Where an operand does open
one, both branches are gone with their `fi`, and something is left of what stands behind at most. -/
theorem operands_of_bare_tests (setting : Setting) (nested : Frame → Scan Flow) (frame : Frame)
    (s : State) (rest : List Token) (htest : s.dictionary.TestsOperands test names)
    (hnames : Operands names) (hfirst : Balanced s.dictionary.opensConditional false first)
    (hsecond : Balanced s.dictionary.opensConditional true second)
    (hlimit : names.length + first.length ≤ setting.options.conditionalLimit) :
    ((∃ t, command setting nested frame test (s.facing (behindTest names first second rest)) =
          .ok .goOn t ∧ t.stream.ahead = second ++ .control "fi" :: rest) ↔
        ∀ name ∈ names, s.dictionary.opensConditional name = false) ∧
      ((∀ name ∈ names, s.dictionary.opensConditional name = false) →
        command setting nested frame test (s.facing (behindTest names first second rest)) =
          .ok .goOn
            (s.past (names.length + first.length + 1) (second ++ .control "fi" :: rest))) ∧
      ((∃ name ∈ names, s.dictionary.opensConditional name = true) → ∀ flow t,
        command setting nested frame test (s.facing (behindTest names first second rest)) =
          .ok flow t → t.stream.ahead <:+ rest) := by
  rw [command_testsOperands htest]
  have hends : (∀ name ∈ names, s.dictionary.opensConditional name = false) →
      goingOn (skipBranch setting true) (s.facing (behindTest names first second rest)) =
        .ok .goOn (s.past (names.length + first.length + 1) (second ++ .control "fi" :: rest)) :=
    fun hnone => bind_ok (skipBranch_operands hnames hnone hfirst hlimit)
  have hloses : (∃ name ∈ names, s.dictionary.opensConditional name = true) → ∀ flow t,
      goingOn (skipBranch setting true) (s.facing (behindTest names first second rest)) =
        .ok flow t → t.stream.ahead <:+ rest := by
    intro hsome flow t h
    unfold goingOn at h
    cases hskip : skipBranch setting true (s.facing (behindTest names first second rest)) with
    | error interrupt u => rw [bind_error hskip] at h; cases h
    | ok a u =>
      rw [bind_ok hskip] at h
      cases h
      exact skipBranch_opened hnames hsome hfirst hsecond hskip
  refine ⟨⟨?_, fun hnone => ⟨_, hends hnone, rfl⟩⟩, hends, hloses⟩
  rintro ⟨t, hrun, hahead⟩ name hmem
  refine Bool.eq_false_iff.mpr fun hopens => ?_
  have hlength := (hloses ⟨name, hmem, hopens⟩ _ t hrun).length_le
  rw [hahead, List.length_append, List.length_cons] at hlength
  omega

theorem flag?_start {flag : String} :
    (State.start "main.tex" []).dictionary.flag? flag ≠ some true := by
  have hnone : (State.start "main.tex" []).dictionary.flag? flag = none :=
    Std.HashMap.getElem?_empty
  rw [hnone]
  exact nofun

/-- The search for the end of the first branch runs out of tokens where an operand looks like a test
itself. -/
theorem word_taken_for_a_test :
    ∃ t, command ⟨.standard, .empty⟩ (fun _ => return .close) .file "ifx"
      ((State.start "main.tex" []).facing
        (behindTest ["ifpdf", "a"] [.char 'X'] [.char 'Y'] [.char 'R'])) =
        .error (.fatal (.unexpectedEnd "conditional")) t := by
  let opens := (State.start "main.tex" []).dictionary.opensConditional
  have htest : opens "ifpdf" = true :=
    (opens_of_isBareTest (isBareTest_of_beginsLikeTest (by decide) (by decide +kernel))).1
  have ha : opens "a" = false := Dictionary.opensConditional_eq_false (by decide)
  have helse : opens "else" = false := Dictionary.opensConditional_eq_false (by decide)
  have hread : readBranch Options.standard.conditionalLimit opens true
      (behindTest ["ifpdf", "a"] [.char 'X'] [.char 'Y'] [.char 'R']) = ⟨.ended, [], 7, 0⟩ := by
    simp [readBranch, behindTest, branchFrom, namingCommands, Options.standard, htest, ha, helse]
  let read : State → List Token → Reading RegionEnd := fun s =>
    readBranch Options.standard.conditionalLimit s.dictionary.opensConditional true
  obtain ⟨t, hskip⟩ : ∃ t, skipBranch ⟨.standard, .empty⟩ true ((State.start "main.tex" []).facing
      (behindTest ["ifpdf", "a"] [.char 'X'] [.char 'Y'] [.char 'R'])) =
        .error (.fatal (.unexpectedEnd "conditional")) t := by
    have htake := take_of_eq read ((State.start "main.tex" []).facing
      (behindTest ["ifpdf", "a"] [.char 'X'] [.char 'Y'] [.char 'R'])) hread
    unfold skipBranch
    rw [bind_ok htake]
    exact ⟨_, rfl⟩
  exact ⟨t, (command_testsOperands
    (.same "ifpdf" "a" (Dictionary.find?_empty "ifx") flag?_start)).trans (bind_error hskip)⟩

/-- Words without a meaning of their own are operands like any other; a word that looks like a test is
taken for one. -/
theorem operands_of_the_tests :
    command ⟨.standard, .empty⟩ (fun _ => return .close) .file "ifx"
        ((State.start "main.tex" []).facing
          (behindTest ["a", "fi@"] [.char 'X'] [.char 'Y'] [.char 'R'])) =
      .ok .goOn ((State.start "main.tex" []).past 4 [.char 'Y', .control "fi", .char 'R']) ∧
    ¬∃ t, command ⟨.standard, .empty⟩ (fun _ => return .close) .file "ifdefined"
        ((State.start "main.tex" []).facing
          (behindTest ["ifpdf"] [.char 'X'] [.char 'Y'] [.char 'R'])) = .ok .goOn t ∧
      t.stream.ahead = [.char 'Y', .control "fi", .char 'R'] := by
  have hnames : ∀ name ∈ ["a", "fi@"],
      (State.start "main.tex" []).dictionary.opensConditional name = false := by
    intro name hname
    have hall : ∀ name ∈ ["a", "fi@"], beginsLikeTest name = false := by decide
    exact Dictionary.opensConditional_eq_false (hall name hname)
  have hbranch : ∀ c elses,
      Balanced (State.start "main.tex" []).dictionary.opensConditional elses [.char c] :=
    fun _ _ => .token trivial nofun .nil
  have hsame := operands_of_bare_tests ⟨.standard, .empty⟩ (fun _ => return .close) .file
    (State.start "main.tex" []) [.char 'R']
    (.same "a" "fi@" (Dictionary.find?_empty "ifx") flag?_start) ⟨by decide, by decide⟩
    (hbranch 'X' false) (hbranch 'Y' true) (by decide)
  have hdefined := operands_of_bare_tests ⟨.standard, .empty⟩ (fun _ => return .close) .file
    (State.start "main.tex" []) [.char 'R']
    (.defined "ifpdf" (Dictionary.find?_empty "ifdefined") flag?_start (by decide))
    ⟨by decide, by decide⟩ (hbranch 'X' false) (hbranch 'Y' true) (by decide)
  refine ⟨hsame.2.1 hnames, fun hleft => ?_⟩
  have hopens := hdefined.1.mp hleft "ifpdf" List.mem_cons_self
  rw [(opens_of_isBareTest (isBareTest_of_beginsLikeTest (by decide) (by decide +kernel))).1] at hopens
  cases hopens

end Scan

end ProofProse
