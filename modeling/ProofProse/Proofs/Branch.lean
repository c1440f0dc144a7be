import ProofProse.Proofs.Renaming

/-! # Branches that are passed over

A stretch of tokens is balanced when every conditional that opens in it is closed in it, where a name
that is being defined does not count (`Balanced`). Passing over a branch goes through a balanced
stretch without ending in it, at any depth of conditionals (`branchFrom_balanced`, by induction on the
stretch). So it ends with the `else` or `fi` right behind: the `else` of a conditional whose test is
false, the `fi` behind a branch that was taken (`Scan.branches_end_at_their_match`). -/

namespace ProofProse

/-! ### Balanced stretches -/

/-- A token that opens and ends no conditional, does not name what is defined, and is not the end of a
file. -/
def Token.IsPlain (opens : String → Bool) : Token → Prop
  | .control name => name ≠ "fi" ∧ namingCommands.contains name = false ∧ opens name = false
  | .endOfInput => False
  | _ => True

/-- A stretch in which conditionals are closed. An `else` outside the conditionals in it is allowed
with `elses` only. -/
inductive Balanced (opens : String → Bool) : (elses : Bool) → List Token → Prop
  | nil {elses : Bool} : Balanced opens elses []
  /-- A token by itself. -/
  | token {elses : Bool} {t : Token} {rest : List Token} (ht : t.IsPlain opens)
      (helse : t = .control "else" → elses = true) (hrest : Balanced opens elses rest) :
      Balanced opens elses (t :: rest)
  /-- A naming command with the name behind it, whatever that is. -/
  | naming {elses : Bool} {name : String} {t : Token} {rest : List Token}
      (hname : namingCommands.contains name = true) (ht : t ≠ .endOfInput)
      (hrest : Balanced opens elses rest) : Balanced opens elses (.control name :: t :: rest)
  /-- A conditional with all that stands in it. -/
  | conditional {elses : Bool} {name : String} {inside rest : List Token} (hname : opens name = true)
      (hinside : Balanced opens true inside) (hrest : Balanced opens elses rest) :
      Balanced opens elses (.control name :: (inside ++ .control "fi" :: rest))

section Branches

variable {opens : String → Bool} {limit depth count fileEnds : Nat} {atElse elses : Bool}
  {name : String} {t : Token} {stretch rest : List Token}

/-! ### One token of a branch -/

theorem branchFrom_control (hcount : count ≤ limit) :
    branchFrom limit opens atElse false depth count fileEnds (.control name :: rest) =
      if name == "fi" then
        match depth with
        | 0 => ⟨.found, rest, count + 1, fileEnds⟩
        | depth + 1 => branchFrom limit opens atElse false depth (count + 1) fileEnds rest
      else if name == "else" && depth == 0 && atElse then ⟨.found, rest, count + 1, fileEnds⟩
      else if namingCommands.contains name then
        branchFrom limit opens atElse true depth (count + 1) fileEnds rest
      else if opens name then
        branchFrom limit opens atElse false (depth + 1) (count + 1) fileEnds rest
      else branchFrom limit opens atElse false depth (count + 1) fileEnds rest := by
  rw [branchFrom.eq_def]
  dsimp only
  exact (if_neg Bool.false_ne_true).trans ((if_neg (Nat.not_lt.mpr hcount)).trans rfl)

theorem branchFrom_other (hcontrol : ∀ name, t ≠ .control name) (hend : t ≠ .endOfInput)
    (hcount : count ≤ limit) :
    branchFrom limit opens atElse false depth count fileEnds (t :: rest) =
      branchFrom limit opens atElse false depth (count + 1) fileEnds rest := by
  rw [branchFrom.eq_def]
  dsimp only
  rw [if_neg Bool.false_ne_true, if_neg (Nat.not_lt.mpr hcount)]
  split
  · exact absurd rfl hend
  · next name => exact absurd rfl (hcontrol name)
  · rfl

theorem branchFrom_fi (hcount : count ≤ limit) :
    branchFrom limit opens atElse false 0 count fileEnds (.control "fi" :: rest) =
      ⟨.found, rest, count + 1, fileEnds⟩ :=
  branchFrom_control hcount

theorem branchFrom_inner_fi (hcount : count ≤ limit) :
    branchFrom limit opens atElse false (depth + 1) count fileEnds (.control "fi" :: rest) =
      branchFrom limit opens atElse false depth (count + 1) fileEnds rest :=
  branchFrom_control hcount

theorem branchFrom_else (hcount : count ≤ limit) :
    branchFrom limit opens true false 0 count fileEnds (.control "else" :: rest) =
      ⟨.found, rest, count + 1, fileEnds⟩ :=
  branchFrom_control hcount

theorem branchFrom_naming (hname : namingCommands.contains name = true) (hcount : count ≤ limit) :
    branchFrom limit opens atElse false depth count fileEnds (.control name :: t :: rest) =
      branchFrom limit opens atElse false depth (count + 2) fileEnds rest := by
  have hfi : ¬(name == "fi") = true := by
    intro h
    rw [eq_of_beq h] at hname
    exact absurd hname (by decide)
  have helse : ¬(name == "else" && depth == 0 && atElse) = true := by
    simp only [Bool.and_eq_true, beq_iff_eq]
    rintro ⟨⟨rfl, -⟩, -⟩
    exact absurd hname (by decide)
  rw [branchFrom_control hcount, if_neg hfi, if_neg helse, if_pos hname]
  rfl

theorem branchFrom_opener (hopens : opens name = true) (htest : beginsLikeTest name = true)
    (hcount : count ≤ limit) :
    branchFrom limit opens atElse false depth count fileEnds (.control name :: rest) =
      branchFrom limit opens atElse false (depth + 1) (count + 1) fileEnds rest := by
  have hne : ∀ other, beginsLikeTest other = false → name ≠ other := by
    rintro other hother rfl
    rw [htest] at hother
    cases hother
  have hfi : ¬(name == "fi") = true := by
    rw [beq_iff_eq]
    exact hne "fi" (by decide)
  have helse : ¬(name == "else" && depth == 0 && atElse) = true := by
    simp only [Bool.and_eq_true, beq_iff_eq]
    rintro ⟨⟨h, -⟩, -⟩
    exact hne "else" (by decide) h
  have hnaming : ¬namingCommands.contains name = true := by
    intro h
    have hall : ∀ other ∈ namingCommands, beginsLikeTest other = false := by decide
    exact hne name (hall name (List.contains_iff_mem.mp h)) rfl
  rw [branchFrom_control hcount, if_neg hfi, if_neg helse, if_neg hnaming, if_pos hopens]

theorem branchFrom_plain (ht : t.IsPlain opens) (helse : t = .control "else" → elses = true)
    (hdepth : elses = true → depth = 0 → atElse = false) (hcount : count ≤ limit) :
    branchFrom limit opens atElse false depth count fileEnds (t :: rest) =
      branchFrom limit opens atElse false depth (count + 1) fileEnds rest := by
  cases t with
  | control name =>
    obtain ⟨hfi, hnaming, hopens⟩ := ht
    have hend : ¬(name == "else" && depth == 0 && atElse) = true := by
      simp only [Bool.and_eq_true, beq_iff_eq]
      rintro ⟨⟨rfl, hzero⟩, htrue⟩
      rw [hdepth (helse rfl) hzero] at htrue
      cases htrue
    rw [branchFrom_control hcount, if_neg (by simpa using hfi), if_neg hend,
      if_neg (ne_true_of_eq_false hnaming), if_neg (ne_true_of_eq_false hopens)]
  | endOfInput => exact ht.elim
  | _ => exact branchFrom_other (by simp) (by simp) hcount

/-! ### Balanced stretches of a branch -/

/-- **A balanced stretch** is gone through. Inside a conditional, and where the branch does not end
at its `else`, there may be any `else` in it. -/
theorem branchFrom_balanced (hopens : ∀ name, opens name = true → beginsLikeTest name = true)
    (h : Balanced opens elses stretch) : ∀ {depth count : Nat} {rest : List Token},
    (elses = true → depth = 0 → atElse = false) → count + stretch.length ≤ limit →
      branchFrom limit opens atElse false depth count fileEnds (stretch ++ rest) =
        branchFrom limit opens atElse false depth (count + stretch.length) fileEnds rest := by
  induction h with
  | nil => exact fun _ _ => rfl
  | @token elses t stretch ht helse hrest ih =>
    intro depth count rest hdepth hcount
    rw [List.length_cons] at hcount
    rw [List.cons_append, branchFrom_plain ht helse hdepth (by omega), ih hdepth (by omega),
      List.length_cons]
    congr 1
    omega
  | @naming elses name t stretch hname ht hrest ih =>
    intro depth count rest hdepth hcount
    rw [List.length_cons, List.length_cons] at hcount
    rw [List.cons_append, List.cons_append, branchFrom_naming hname (by omega),
      ih hdepth (by omega), List.length_cons, List.length_cons]
    congr 1
    omega
  | @conditional elses name inside stretch hname hinside hrest ihinside ih =>
    intro depth count rest hdepth hcount
    have hlength : (Token.control name :: (inside ++ .control "fi" :: stretch)).length =
        inside.length + stretch.length + 2 := by
      rw [List.length_cons, List.length_append, List.length_cons]
      omega
    rw [hlength] at hcount ⊢
    -- One conditional deeper the inside is gone through, and its end leads back.
    rw [List.cons_append, List.append_assoc, branchFrom_opener hname (hopens name hname) (by omega),
      ihinside (fun _ hzero => absurd hzero (Nat.succ_ne_zero depth)) (by omega), List.cons_append,
      branchFrom_inner_fi (by omega), ih hdepth (by omega)]
    congr 1
    omega

end Branches

/-! ### Tests -/

/-- A test that does not hold: of a flag that is not set, or a bare test other than the two that can
hold. -/
inductive Dictionary.Fails (d : Dictionary) (name : String) : Prop
  | flag {flag : String} (hmeaning : d.meaning name = .flagTest flag)
      (hvalue : d.flag? flag ≠ some true)
  | bare (hmeaning : d.meaning name = .bareTest) (htrue : name ≠ "iftrue")
      (hdefined : name ≠ "ifdefined")

theorem Dictionary.Fails.ofName? {d : Dictionary} {name : String} (h : d.Fails name) :
    Structural.ofName? name = none := by
  have htest : (d.meaning name).isTest = true := by
    rcases h with ⟨hmeaning, -⟩ | ⟨hmeaning, -, -⟩ <;> rw [hmeaning] <;> rfl
  exact ofName?_of_beginsLikeTest (beginsLikeTest_of_isTest htest)

namespace Scan

open State

variable {setting : Setting} {s : State} {atElse elses : Bool} {name : String}
  {stretch rest : List Token}

theorem carryOut_fails (h : s.dictionary.Fails name) :
    carryOut setting name (s.dictionary.meaning name) s = skipBranch setting true s := by
  rcases h with ⟨hmeaning, hvalue⟩ | ⟨hmeaning, htrue, hdefined⟩
  · rename_i flag
    have hfalse : (s.dictionary.flag? flag).getD false = false := by
      cases hflag : s.dictionary.flag? flag with
      | none => rfl
      | some value =>
        cases value with
        | false => rfl
        | true => exact absurd hflag hvalue
    rw [hmeaning]
    show beginConditional setting ((s.dictionary.flag? flag).getD false) s = _
    rw [hfalse]
    rfl
  · rw [hmeaning]
    show bareTest setting name s = _
    unfold bareTest
    rw [if_neg (by simpa using htrue), if_neg (by simpa using hdefined)]
    rfl

/-- **A branch that is balanced** is passed over together with its end, and nothing but the stream
changes. -/
theorem skipBranch_balanced {last : String}
    (h : Balanced s.dictionary.opensConditional elses stretch)
    (helses : elses = true → atElse = false) (hlast : last = "fi" ∨ last = "else" ∧ atElse = true)
    (hlength : stretch.length ≤ setting.options.conditionalLimit) :
    skipBranch setting atElse (s.facing (stretch ++ .control last :: rest)) =
      .ok () (s.past (stretch.length + 1) rest) := by
  have hread : readBranch setting.options.conditionalLimit s.dictionary.opensConditional atElse
      (stretch ++ .control last :: rest) = ⟨.found, rest, stretch.length + 1, 0⟩ := by
    unfold readBranch
    rw [branchFrom_balanced (fun _ => Dictionary.beginsLikeTest_of_opensConditional) h
      (fun htrue _ => helses htrue) (by omega), Nat.zero_add]
    rcases hlast with rfl | ⟨rfl, rfl⟩
    · exact branchFrom_fi hlength
    · exact branchFrom_else hlength
  let read : State → List Token → Reading RegionEnd := fun s =>
    readBranch setting.options.conditionalLimit s.dictionary.opensConditional atElse
  unfold skipBranch
  exact bind_ok (take_of_eq read (s.facing (stretch ++ .control last :: rest)) hread)

/-- **Branches end at their match.** Let two stretches be balanced, the first without an `else` of
its own. Behind a test that fails the first one is passed over up to the `else` or `fi` behind it, and
the second one is left to be read; the `else` behind a branch that was taken passes over the second
one and its `fi`. Only the stream changes: what has been defined, the files being read, and all else
stay, and the tokens passed over are counted once. -/
theorem branches_end_at_their_match (setting : Setting) (s : State) {first second : List Token}
    (rest : List Token) (hfirst : Balanced s.dictionary.opensConditional false first)
    (hsecond : Balanced s.dictionary.opensConditional true second)
    (hfirstLength : first.length ≤ setting.options.conditionalLimit)
    (hsecondLength : second.length ≤ setting.options.conditionalLimit) :
    (∀ last, last = "else" ∨ last = "fi" →
      skipBranch setting true (s.facing (first ++ .control last :: rest)) =
        .ok () (s.past (first.length + 1) rest)) ∧
    skipBranch setting false (s.facing (second ++ .control "fi" :: rest)) =
      .ok () (s.past (second.length + 1) rest) ∧
    beginConditional setting false
        (s.facing (first ++ .control "else" :: (second ++ .control "fi" :: rest))) =
      .ok () (s.past (first.length + 1) (second ++ .control "fi" :: rest)) ∧
    ∀ nested frame,
      (∀ name, s.dictionary.Fails name →
        round setting nested frame (s.facing (.control name ::
            (first ++ .control "else" :: (second ++ .control "fi" :: rest)))) =
          .ok .goOn (s.past (first.length + 2) (second ++ .control "fi" :: rest))) ∧
      round setting nested frame (s.facing (.control "else" :: (second ++ .control "fi" :: rest))) =
        .ok .goOn (s.past (second.length + 2) rest) := by
  have htrue : ∀ (t : State) last rest, t.dictionary = s.dictionary →
      last = "else" ∨ last = "fi" →
      skipBranch setting true (t.facing (first ++ .control last :: rest)) =
        .ok () (t.past (first.length + 1) rest) := by
    intro t last rest ht hlast
    rw [← ht] at hfirst
    refine skipBranch_balanced hfirst nofun ?_ hfirstLength
    rcases hlast with rfl | rfl
    · exact .inr ⟨rfl, rfl⟩
    · exact .inl rfl
  have hfalse : ∀ t : State, t.dictionary = s.dictionary →
      skipBranch setting false (t.facing (second ++ .control "fi" :: rest)) =
        .ok () (t.past (second.length + 1) rest) := by
    intro t ht
    rw [← ht] at hsecond
    exact skipBranch_balanced hsecond (fun _ => rfl) (.inl rfl) hsecondLength
  refine ⟨fun last hlast => htrue s last rest rfl hlast, hfalse s rfl, htrue s "else" _ rfl (.inl rfl),
    fun nested frame => ⟨fun name hname => ?_, ?_⟩⟩
  · -- The round takes the test, and then passes over the first branch.
    have hskip := htrue (s.past 1 []) "else" (second ++ .control "fi" :: rest) rfl (.inl rfl)
    have hfails : ((s.past 1 []).facing
        (first ++ .control "else" :: (second ++ .control "fi" :: rest))).dictionary.Fails name := hname
    rw [past_past] at hskip
    rw [round_cons rfl]
    show command setting nested frame name _ = _
    rw [command_meaning hname.ofName?]
    exact bind_ok ((carryOut_fails hfails).trans hskip)
  · -- The round takes the `else`, and then passes over the second branch.
    have hskip := hfalse (s.past 1 []) rfl
    have helse : Structural.ofName? "else" = some .endBranch := Structural.ofName?_of_mem (by decide)
    have hclosed : frame.closedBy "else" = false := by cases frame <;> rfl
    rw [past_past] at hskip
    rw [round_cons rfl]
    show command setting nested frame "else" _ = _
    unfold command
    rw [hclosed, if_neg Bool.false_ne_true, helse]
    exact bind_ok hskip

theorem opens_of_isBareTest (hbare : isBareTest name = true) :
    (State.start "main.tex" []).dictionary.opensConditional name = true ∧
      (State.start "main.tex" []).dictionary.meaning name = .bareTest := by
  have hflags : ∀ flag, (State.start "main.tex" []).dictionary.flags.contains flag = false :=
    fun _ => Std.HashMap.contains_empty
  have htested : (State.start "main.tex" []).dictionary.testedFlag? name = none :=
    Dictionary.testedFlag?_of_noFlags hflags
  have hfind : (State.start "main.tex" []).dictionary.find? name = none :=
    Dictionary.find?_empty name
  constructor
  · unfold Dictionary.opensConditional
    rw [hfind, hbare, htested]
    rfl
  · have hsetting : (State.start "main.tex" []).dictionary.flagSetting? name = none :=
      Dictionary.flagSetting?_of_noFlags hflags
    exact (Dictionary.Means.bareTest hfind hsetting htested hbare).meaning_eq

/-- The first branch holds a name that is being defined and a conditional with an `else` of its own;
the second holds one more `else`. -/
theorem branches_of_a_false_test :
    round ⟨{}, .empty⟩ (fun _ => return .close) .file ((State.start "main.tex" []).facing
        [.control "iffalse", .control "newif", .control "ifx", .control "ifnum", .control "else",
          .control "fi", .control "else", .char 'b', .control "else", .control "fi", .char 'c']) =
      .ok .goOn ((State.start "main.tex" []).past 7
        [.char 'b', .control "else", .control "fi", .char 'c']) := by
  let opens := (State.start "main.tex" []).dictionary.opensConditional
  have hfalse : isBareTest "iffalse" = true :=
    isBareTest_of_beginsLikeTest (by decide) (by decide +kernel)
  have hnumber : isBareTest "ifnum" = true :=
    isBareTest_of_beginsLikeTest (by decide) (by decide +kernel)
  have helse : (Token.control "else").IsPlain opens :=
    ⟨by decide, by decide, Dictionary.opensConditional_eq_false (by decide)⟩
  have hfirst : Balanced opens false
      [.control "newif", .control "ifx", .control "ifnum", .control "else", .control "fi"] :=
    .naming (by decide) (by decide) (.conditional (opens_of_isBareTest hnumber).1
      (.token helse (fun _ => rfl) .nil) .nil)
  have hsecond : Balanced opens true [.char 'b', .control "else"] :=
    .token trivial nofun (.token helse (fun _ => rfl) .nil)
  have hfails : (State.start "main.tex" []).dictionary.Fails "iffalse" :=
    .bare (opens_of_isBareTest hfalse).2 (by decide) (by decide)
  have hall := branches_end_at_their_match ⟨{}, .empty⟩ (State.start "main.tex" []) [.char 'c']
    hfirst hsecond (by decide) (by decide)
  exact (hall.2.2.2 _ _).1 "iffalse" hfails

end Scan

end ProofProse
