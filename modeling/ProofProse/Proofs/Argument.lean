import Mathlib.Logic.Relation
import ProofProse.Proofs.Balance
import ProofProse.Proofs.Edge
import ProofProse.Proofs.Tape

/-! # Arguments end in balance

The reading of a group or of an argument in brackets goes on up to the first place where it is ended,
or, inside a proof, where the proof is (`Guarded`). The reader keeps count of what is open, and so
comes to this place whatever the tokens are (`Reader.comes_to`); what it answers there is said once for
each way to stop. Then an argument is what stands before the place, without the ends of files, and with
it no brace is taken that has no partner among the tokens taken (`arguments_keep_balance`). -/

namespace ProofProse

variable {guarded : Bool} {tokens inside left before ahead behind rest : List Token}

/-! ### What stops a reading -/

/-- The command that ends a proof is ahead: the group behind it holds the name of a proof, as a look
ahead finds it. -/
def EndsProof (ahead : List Token) : Prop :=
  ∃ behind name span, ahead = .control "end" :: behind ∧
    groupName? behind = some (name, span) ∧ isProofName name = true

/-- A reading that is ended where `ends` says so is stopped there, and inside a proof where this
ends. -/
def Guarded (guarded : Bool) (ends : List Token → List Token → Prop) (before ahead : List Token) :
    Prop :=
  ends before ahead ∨ guarded = true ∧ EndsProof ahead

theorem closesProof_iff {name : String} :
    closesProof name rest = true ↔ EndsProof (.control name :: rest) := by
  unfold closesProof
  rw [Bool.and_eq_true, beq_iff_eq]
  constructor
  · rintro ⟨rfl, h⟩
    split at h
    · next environment span hname => exact ⟨rest, environment, span, rfl, hname, h⟩
    · cases h
  · rintro ⟨behind, environment, span, hahead, hname, hproof⟩
    cases hahead
    rw [hname]
    exact ⟨rfl, hproof⟩

/-- A reading that is stopped at a token that is no such command has come to its end. -/
theorem Guarded.ends {ends : List Token → List Token → Prop} {t : Token}
    (h : Guarded guarded ends before (t :: rest)) (ht : t ≠ .control "end") :
    ends before (t :: rest) := by
  rcases h with h | ⟨-, behind, name, span, hahead, -⟩
  · exact h
  · exact absurd (List.cons.inj hahead).1 ht

theorem not_closesProof_of_goesOn {ends : List Token → List Token → Prop} {name : String}
    (h : ¬Guarded guarded ends before (.control name :: rest)) :
    ¬(guarded && closesProof name rest) = true := by
  rw [Bool.and_eq_true, closesProof_iff]
  exact fun hstop => h (.inr hstop)

/-! ### Reading to the first stop -/

/-- A reader that keeps `tracks` at every token that does not stop it comes to the first token that
does, with all tokens before it read. -/
theorem Reader.comes_to {Level : Type} {level : Level} (read : Level → Reader)
    (tracks : List Token → Level → Prop) {stops : List Token → List Token → Prop}
    (hstep : ∀ before level t rest, tracks before level → ¬stops before (t :: rest) →
      ∃ next, tracks (before ++ [t]) next ∧ ∀ content count fileEnds,
        read level content count fileEnds (t :: rest) =
          read next (unmarked [t] ++ content) (count + 1) (fileEnds + marks [t]) rest)
    (h : FirstStop stops tokens inside left) (hlevel : tracks [] level) :
    ∃ last, tracks inside last ∧ read level [] 0 0 tokens =
      read last (unmarked inside).reverse inside.length (marks inside) left := by
  refine h.run_eq (fun before level rest =>
    read level (unmarked before).reverse before.length (marks before) rest) tracks ?_ hlevel
  intro before level t rest hbefore hgoesOn
  obtain ⟨next, hnext, hread⟩ := hstep before level t rest hbefore hgoesOn
  have hunmarked : unmarked [t] ++ (unmarked before).reverse = (unmarked (before ++ [t])).reverse := by
    rw [unmarked_append, List.reverse_append]
    unfold unmarked
    cases hmark : t != .endOfInput <;> simp [hmark]
  exact ⟨next, hnext, by rw [hread, hunmarked, ← marks_append, List.length_append]; rfl⟩

/-- A group is read on, with so many groups open in it as the tokens before have opened. -/
theorem balancedFrom_step (before : List Token) (depth : Nat) (t : Token) (rest : List Token)
    (hdepth : (depth : Int) = braceBalance before)
    (hgoesOn : ¬Guarded guarded EndsGroup before (t :: rest)) :
    ∃ next : Nat, (next : Int) = braceBalance (before ++ [t]) ∧ ∀ content count fileEnds,
      balancedFrom guarded depth content count fileEnds (t :: rest) =
        balancedFrom guarded next (unmarked [t] ++ content) (count + 1) (fileEnds + marks [t])
          rest := by
  have hbalance : braceBalance (before ++ [t]) = depth + t.depthChange := by
    rw [braceBalance_append, hdepth, braceBalance_cons, braceBalance_nil, Int.add_zero]
  rw [hbalance]
  cases t with
  | openGroup => exact ⟨depth + 1, rfl, fun _ _ _ => rfl⟩
  | closeGroup =>
    cases depth with
    | zero => exact absurd (.inl ⟨hdepth.symm, rfl⟩) hgoesOn
    | succ depth => exact ⟨depth, by rw [depthChange_closeGroup]; omega, fun _ _ _ => rfl⟩
  | control name =>
    refine ⟨depth, (Int.add_zero _).symm, fun content count fileEnds => ?_⟩
    show (if guarded && closesProof name rest then _ else _) = _
    rw [if_neg (not_closesProof_of_goesOn hgoesOn)]
    rfl
  | _ => exact ⟨depth, (Int.add_zero _).symm, fun _ _ _ => rfl⟩

/-- What is open in an argument in brackets behind some tokens of it. -/
structure OpenInBrackets (before : List Token) (level : Nat × Nat) : Prop where
  brackets : (level.1 : Int) = bracketBalance before
  braces : (level.2 : Int) = braceBalance before

theorem OpenInBrackets.concat {level next : Nat × Nat} {t : Token} (h : OpenInBrackets before level)
    (hbraces : (next.2 : Int) = level.2 + t.depthChange)
    (hbrackets : (next.1 : Int) = level.1 + if level.2 = 0 then t.bracketChange else 0) :
    OpenInBrackets (before ++ [t]) next := by
  refine ⟨?_, ?_⟩
  · simp only [hbrackets, bracketBalance_concat, ← h.brackets, ← h.braces, Int.natCast_eq_zero]
  · rw [hbraces, braceBalance_append, ← h.braces, braceBalance_cons, braceBalance_nil, Int.add_zero]

/-- A character in brackets is gone through, unless it is the bracket that ends them. -/
theorem bracketedFrom_char (before : List Token) (level : Nat × Nat) (c : Char) (rest : List Token)
    (hlevel : OpenInBrackets before level)
    (hgoesOn : ¬Guarded guarded EndsBrackets before (.char c :: rest)) :
    ∃ next : Nat × Nat, OpenInBrackets (before ++ [.char c]) next ∧ ∀ content count fileEnds,
      bracketedFrom guarded level.1 level.2 content count fileEnds (.char c :: rest) =
        bracketedFrom guarded next.1 next.2 (.char c :: content) (count + 1) fileEnds rest := by
  obtain ⟨brackets, braces⟩ := level
  by_cases hopen : c = '[' ∧ braces = 0
  · obtain ⟨rfl, rfl⟩ := hopen
    exact ⟨(brackets + 1, 0), hlevel.concat rfl rfl, fun _ _ _ => rfl⟩
  by_cases hclose : c = ']' ∧ braces = 0
  · obtain ⟨rfl, rfl⟩ := hclose
    cases brackets with
    | zero =>
      exact absurd (.inl (.inr ⟨⟨hlevel.braces.symm, hlevel.brackets.symm⟩, rfl⟩)) hgoesOn
    | succ brackets =>
      have hbrackets : (brackets : Int) = (brackets + 1 : Nat) + (-1 : Int) := by omega
      exact ⟨(brackets, 0), hlevel.concat rfl hbrackets, fun _ _ _ => rfl⟩
  have hchange : (if braces = 0 then (Token.char c).bracketChange else 0) = 0 := by
    split
    · next hzero =>
      exact bracketChange_char (fun h => hopen ⟨h, hzero⟩) fun h => hclose ⟨h, hzero⟩
    · rfl
  refine ⟨(brackets, braces), hlevel.concat (Int.add_zero _).symm ?_, fun content count fileEnds => ?_⟩
  · rw [hchange, Int.add_zero]
  · have hopen' : ¬(c == '[' && braces == 0) = true := by simpa using hopen
    have hclose' : ¬(c == ']' && braces == 0) = true := by simpa using hclose
    show (if c == '[' && braces == 0 then _ else if c == ']' && braces == 0 then _ else _) = _
    rw [if_neg hopen', if_neg hclose']

/-- An argument in brackets is read on, with so many brackets and groups open in it as the tokens
before have opened. -/
theorem bracketedFrom_step (before : List Token) (level : Nat × Nat) (t : Token) (rest : List Token)
    (hlevel : OpenInBrackets before level)
    (hgoesOn : ¬Guarded guarded EndsBrackets before (t :: rest)) :
    ∃ next : Nat × Nat, OpenInBrackets (before ++ [t]) next ∧ ∀ content count fileEnds,
      bracketedFrom guarded level.1 level.2 content count fileEnds (t :: rest) =
        bracketedFrom guarded next.1 next.2 (unmarked [t] ++ content) (count + 1)
          (fileEnds + marks [t]) rest := by
  have hsame : t.depthChange = 0 → t.bracketChange = 0 → OpenInBrackets (before ++ [t]) level := by
    intro hbraces hbrackets
    refine hlevel.concat ?_ ?_
    · rw [hbraces, Int.add_zero]
    · rw [hbrackets, ite_self, Int.add_zero]
  obtain ⟨brackets, braces⟩ := level
  cases t with
  | openGroup =>
    refine ⟨(brackets, braces + 1), hlevel.concat rfl ?_, fun _ _ _ => rfl⟩
    exact (ite_self _).symm ▸ (Int.add_zero _).symm
  | closeGroup =>
    cases braces with
    | zero => exact absurd (.inl (.inl ⟨hlevel.braces.symm, rfl⟩)) hgoesOn
    | succ braces =>
      have hbraces : (braces : Int) = (braces + 1 : Nat) + (-1 : Int) := by omega
      exact ⟨(brackets, braces), hlevel.concat hbraces (Int.add_zero _).symm, fun _ _ _ => rfl⟩
  | control name =>
    refine ⟨(brackets, braces), hsame rfl rfl, fun content count fileEnds => ?_⟩
    show (if guarded && closesProof name rest then _ else _) = _
    rw [if_neg (not_closesProof_of_goesOn hgoesOn)]
    rfl
  | char c => exact bracketedFrom_char before (brackets, braces) c rest hlevel hgoesOn
  | _ => exact ⟨(brackets, braces), hsame rfl rfl, fun _ _ _ => rfl⟩

/-! ### What a reading comes to -/

section Readings

theorem readBalanced_eq (h : FirstStop (Guarded guarded EndsGroup) tokens inside left) :
    ∃ depth : Nat, (depth : Int) = braceBalance inside ∧ readBalanced guarded tokens =
      balancedFrom guarded depth (unmarked inside).reverse inside.length (marks inside) left :=
  Reader.comes_to (balancedFrom guarded)
    (fun before (depth : Nat) => (depth : Int) = braceBalance before) balancedFrom_step h rfl

theorem readBalanced_closed
    (h : FirstStop (Guarded guarded EndsGroup) tokens inside (.closeGroup :: behind)) :
    readBalanced guarded tokens =
      ⟨.closed (unmarked inside), behind, inside.length + 1, marks inside⟩ := by
  obtain ⟨depth, hdepth, hread⟩ := readBalanced_eq h
  obtain ⟨hzero, -⟩ := (h.stop nofun).ends nofun
  obtain rfl : depth = 0 := Int.natCast_eq_zero.mp (hdepth.trans hzero)
  rw [hread, balancedFrom, List.reverse_reverse]

theorem readBalanced_runaway (h : FirstStop (Guarded true EndsGroup) tokens inside left)
    (hproof : EndsProof left) :
    readBalanced true tokens = ⟨.runaway, left, inside.length + 1, marks inside⟩ := by
  obtain ⟨depth, -, hread⟩ := readBalanced_eq h
  have hcloses := hproof
  obtain ⟨behind, name, span, rfl, -⟩ := hproof
  rw [hread, balancedFrom, closesProof_iff.mpr hcloses]
  rfl

theorem readBalanced_ended (h : FirstStop (Guarded guarded EndsGroup) tokens inside []) :
    readBalanced guarded tokens = ⟨.ended, [], inside.length, marks inside⟩ := by
  obtain ⟨depth, -, hread⟩ := readBalanced_eq h
  exact hread

theorem readBracketed_eq (h : FirstStop (Guarded guarded EndsBrackets) tokens inside left) :
    ∃ level, OpenInBrackets inside level ∧ readBracketed guarded tokens =
      bracketedFrom guarded level.1 level.2 (unmarked inside).reverse inside.length (marks inside)
        left :=
  Reader.comes_to (fun level : Nat × Nat => bracketedFrom guarded level.1 level.2) OpenInBrackets
    bracketedFrom_step h (⟨rfl, rfl⟩ : OpenInBrackets [] (0, 0))

theorem readBracketed_closed
    (h : FirstStop (Guarded guarded EndsBrackets) tokens inside (.char ']' :: behind)) :
    readBracketed guarded tokens =
      ⟨.closed (unmarked inside), behind, inside.length + 1, marks inside⟩ := by
  obtain ⟨⟨brackets, braces⟩, hlevel, hread⟩ := readBracketed_eq h
  obtain ⟨-, hhead⟩ | ⟨⟨hbraces, hbrackets⟩, -⟩ := (h.stop nofun).ends nofun
  · cases hhead
  · obtain rfl : brackets = 0 := Int.natCast_eq_zero.mp (hlevel.brackets.trans hbrackets)
    obtain rfl : braces = 0 := Int.natCast_eq_zero.mp (hlevel.braces.trans hbraces)
    rw [hread]
    show Reading.mk (Argument.closed (unmarked inside).reverse.reverse) _ _ _ = _
    rw [List.reverse_reverse]

theorem readBracketed_enclosed
    (h : FirstStop (Guarded guarded EndsBrackets) tokens inside (.closeGroup :: behind)) :
    readBracketed guarded tokens =
      ⟨.closed (unmarked inside), .closeGroup :: behind, inside.length + 1, marks inside⟩ := by
  obtain ⟨⟨brackets, braces⟩, hlevel, hread⟩ := readBracketed_eq h
  obtain ⟨hbraces, -⟩ | ⟨-, hhead⟩ := (h.stop nofun).ends nofun
  · obtain rfl : braces = 0 := Int.natCast_eq_zero.mp (hlevel.braces.trans hbraces)
    rw [hread, bracketedFrom, List.reverse_reverse]
  · cases hhead

theorem readBracketed_runaway (h : FirstStop (Guarded true EndsBrackets) tokens inside left)
    (hproof : EndsProof left) :
    readBracketed true tokens = ⟨.runaway, left, inside.length + 1, marks inside⟩ := by
  obtain ⟨level, -, hread⟩ := readBracketed_eq h
  have hcloses := hproof
  obtain ⟨behind, name, span, rfl, -⟩ := hproof
  rw [hread, bracketedFrom, closesProof_iff.mpr hcloses]
  rfl

theorem readBracketed_ended (h : FirstStop (Guarded guarded EndsBrackets) tokens inside []) :
    readBracketed guarded tokens = ⟨.ended, [], inside.length, marks inside⟩ := by
  obtain ⟨level, -, hread⟩ := readBracketed_eq h
  exact hread

/-- How the reading of a group ends. -/
inductive GroupEnd (guarded : Bool) (tokens : List Token) : Prop
  | closed {inside behind : List Token}
      (h : FirstStop (Guarded guarded EndsGroup) tokens inside (.closeGroup :: behind))
      (hread : readBalanced guarded tokens =
        ⟨.closed (unmarked inside), behind, inside.length + 1, marks inside⟩)
  | runaway {inside left : List Token} (hguarded : guarded = true)
      (h : FirstStop (Guarded true EndsGroup) tokens inside left) (hproof : EndsProof left)
      (hread : readBalanced guarded tokens = ⟨.runaway, left, inside.length + 1, marks inside⟩)
  | ended {inside : List Token} (h : FirstStop (Guarded guarded EndsGroup) tokens inside [])
      (hread : readBalanced guarded tokens = ⟨.ended, [], inside.length, marks inside⟩)

theorem groupEnd (guarded : Bool) (tokens : List Token) : GroupEnd guarded tokens := by
  obtain ⟨inside, left, h⟩ := exists_firstStop (Guarded guarded EndsGroup) tokens
  cases left with
  | nil => exact .ended h (readBalanced_ended h)
  | cons x behind =>
    obtain ⟨-, hx⟩ | ⟨rfl, hproof⟩ := h.stop nofun
    · obtain rfl : x = .closeGroup := Option.some.inj hx
      exact .closed h (readBalanced_closed h)
    · exact .runaway rfl h hproof (readBalanced_runaway h hproof)

/-- How the reading of an argument in brackets ends. -/
inductive BracketsEnd (guarded : Bool) (tokens : List Token) : Prop
  | closed {inside behind : List Token}
      (h : FirstStop (Guarded guarded EndsBrackets) tokens inside (.char ']' :: behind))
      (hread : readBracketed guarded tokens =
        ⟨.closed (unmarked inside), behind, inside.length + 1, marks inside⟩)
  | enclosed {inside behind : List Token}
      (h : FirstStop (Guarded guarded EndsBrackets) tokens inside (.closeGroup :: behind))
      (hread : readBracketed guarded tokens =
        ⟨.closed (unmarked inside), .closeGroup :: behind, inside.length + 1, marks inside⟩)
  | runaway {inside left : List Token} (hguarded : guarded = true)
      (h : FirstStop (Guarded true EndsBrackets) tokens inside left) (hproof : EndsProof left)
      (hread : readBracketed guarded tokens = ⟨.runaway, left, inside.length + 1, marks inside⟩)
  | ended {inside : List Token} (h : FirstStop (Guarded guarded EndsBrackets) tokens inside [])
      (hread : readBracketed guarded tokens = ⟨.ended, [], inside.length, marks inside⟩)

theorem bracketsEnd (guarded : Bool) (tokens : List Token) : BracketsEnd guarded tokens := by
  obtain ⟨inside, left, h⟩ := exists_firstStop (Guarded guarded EndsBrackets) tokens
  cases left with
  | nil => exact .ended h (readBracketed_ended h)
  | cons x behind =>
    obtain (⟨-, hx⟩ | ⟨-, hx⟩) | ⟨rfl, hproof⟩ := h.stop nofun
    · obtain rfl : x = .closeGroup := Option.some.inj hx
      exact .enclosed h (readBracketed_enclosed h)
    · obtain rfl : x = .char ']' := Option.some.inj hx
      exact .closed h (readBracketed_closed h)
    · exact .runaway rfl h hproof (readBracketed_runaway h hproof)

end Readings

/-! ### Spaces before an argument -/

theorem passWhile_spaces {spaces : List Token} {x : Token} (hspaces : AllSpaces spaces)
    (hx : x ≠ .space) (count : Nat) :
    passWhile Token.isSpace count (spaces ++ x :: rest) = ⟨x :: rest, count + spaces.length⟩ := by
  have hbehind : ∀ y ∈ (x :: rest).head?, y.isSpace = false := by
    rintro y ⟨⟩
    exact isSpace_eq_false hx
  exact Stream.skipWhile_append hspaces.isSpace hbehind

theorem AllSpaces.wellNested {spaces : List Token} (h : AllSpaces spaces) : WellNested spaces :=
  wellNested_of_noBraces fun x hx => by rw [h x hx]; rfl

/-! ### What is read as an argument -/

/-- What is read off the tokens ahead as an argument, in braces, in brackets or by itself, and what is
left ahead. -/
inductive ReadsArgument (guarded : Bool) : List Token → List Token → List Token → Prop
  /-- The group of the argument ends with its brace. -/
  | group {spaces tokens inside rest : List Token} (hspaces : AllSpaces spaces)
      (h : FirstStop (Guarded guarded EndsGroup) tokens inside (.closeGroup :: rest)) :
      ReadsArgument guarded (spaces ++ .openGroup :: tokens) (unmarked inside) rest
  /-- A single token is the argument. -/
  | single {spaces rest : List Token} {x : Token} (hspaces : AllSpaces spaces)
      (hbrace : x.isBrace = false) (hend : x ≠ .control "end") :
      ReadsArgument guarded (spaces ++ x :: rest) [x] rest
  /-- The argument is empty, as something stands ahead that cannot be one. -/
  | nothing {spaces rest : List Token} (hspaces : AllSpaces spaces) :
      ReadsArgument guarded (spaces ++ rest) [] rest
  /-- The brackets of the argument end. -/
  | brackets {spaces tokens inside rest : List Token} (hspaces : AllSpaces spaces)
      (h : FirstStop (Guarded guarded EndsBrackets) tokens inside (.char ']' :: rest)) :
      ReadsArgument guarded (spaces ++ .char '[' :: tokens) (unmarked inside) rest
  /-- The argument in brackets ends with the group around it. -/
  | enclosed {spaces tokens inside behind : List Token} (hspaces : AllSpaces spaces)
      (h : FirstStop (Guarded guarded EndsBrackets) tokens inside (.closeGroup :: behind)) :
      ReadsArgument guarded (spaces ++ .char '[' :: tokens) (unmarked inside) (.closeGroup :: behind)

/-- What is gone through before the end of a group around it, with no group open, is well nested. -/
theorem FirstStop.wellNested {ends : List Token → List Token → Prop}
    (h : FirstStop (Guarded guarded ends) tokens inside left)
    (hends : ∀ before ahead, EndsGroup before ahead → ends before ahead)
    (hzero : braceBalance inside = 0) : WellNested inside := by
  have hnonneg := h.nonneg fun before ahead hgroup => .inl (hends before ahead hgroup)
  exact InBalance.wellNested ⟨hnonneg, hzero⟩

theorem EndsBrackets.braceBalance (h : EndsBrackets before ahead) : braceBalance before = 0 := by
  rcases h with ⟨hzero, -⟩ | ⟨⟨hzero, -⟩, -⟩
  · exact hzero
  · exact hzero

/-- What is read as an argument is well nested, and so is all that is taken with it. -/
theorem ReadsArgument.wellNested {content : List Token}
    (h : ReadsArgument guarded ahead content rest) :
    WellNested content ∧ ∃ taken, ahead = taken ++ rest ∧ WellNested taken := by
  have hsingle : ∀ {x : Token}, x.isBrace = false → WellNested [x] := fun hx => .token hx .nil
  cases h with
  | @group spaces tokens inside _ hspaces h =>
    have hinside : WellNested inside :=
      h.wellNested (fun _ _ => id) ((h.stop nofun).ends nofun).1
    have htaken : WellNested (spaces ++ .openGroup :: (inside ++ .closeGroup :: [])) :=
      hspaces.wellNested.append (.group hinside .nil)
    exact ⟨hinside.unmarked, _, by simp [h.split], htaken⟩
  | @single spaces _ x hspaces hbrace hend =>
    exact ⟨hsingle hbrace, spaces ++ [x], by simp, hspaces.wellNested.append (hsingle hbrace)⟩
  | @nothing spaces _ hspaces => exact ⟨.nil, spaces, rfl, hspaces.wellNested⟩
  | @brackets spaces tokens inside _ hspaces h =>
    have hzero := EndsBrackets.braceBalance ((h.stop nofun).ends nofun)
    have hinside : WellNested inside := h.wellNested (fun _ _ => .inl) hzero
    have htaken : WellNested (spaces ++ ([.char '['] ++ (inside ++ [.char ']']))) :=
      hspaces.wellNested.append ((hsingle rfl).append (hinside.append (hsingle rfl)))
    exact ⟨hinside.unmarked, _, by simp [h.split], htaken⟩
  | @enclosed spaces tokens inside behind hspaces h =>
    have hzero := EndsBrackets.braceBalance ((h.stop nofun).ends nofun)
    have hinside : WellNested inside := h.wellNested (fun _ _ => .inl) hzero
    have htaken : WellNested (spaces ++ ([.char '['] ++ inside)) :=
      hspaces.wellNested.append ((hsingle rfl).append hinside)
    exact ⟨hinside.unmarked, _, by simp [h.split], htaken⟩

/-! ### Arguments of the scan -/

/-- The state behind a reading that begins `passed` tokens ahead. -/
def State.behindReading {α : Type} (s : State) (passed : Nat) (reading : Reading α) : State :=
  { s with
    stream := ⟨reading.rest, s.consumed + passed + reading.count⟩
    includes := s.includes.leave reading.fileEnds }

namespace Scan

variable {s t : State} {spaces content : List Token}

theorem argument_ofGroup (hspaces : AllSpaces spaces)
    (hs : s.stream.ahead = spaces ++ .openGroup :: tokens) :
    argument s = finishArgument "argument" (readBalanced s.inProof tokens).result
      (s.behindReading (spaces.length + 1) (readBalanced s.inProof tokens)) := by
  have hskip : s.stream.skipSpaces = ⟨.openGroup :: tokens, s.consumed + spaces.length⟩ := by
    unfold Stream.skipSpaces Stream.skipWhile
    rw [hs]
    exact passWhile_spaces hspaces (by simp) _
  rw [argument_cons (congrArg Stream.ahead hskip), if_pos rfl, hskip]
  rfl

theorem argument_other {x : Token} (hspaces : AllSpaces spaces)
    (hs : s.stream.ahead = spaces ++ x :: rest) (hx : x ≠ .space) (hopen : x ≠ .openGroup) :
    ∃ stream : Stream,
      argument s = .ok (if isBoundary x then [] else [x]) { s with stream := stream } ∧
      stream.ahead = if isBoundary x then x :: rest else rest := by
  have hskip : s.stream.skipSpaces = ⟨x :: rest, s.consumed + spaces.length⟩ := by
    unfold Stream.skipSpaces Stream.skipWhile
    rw [hs]
    exact passWhile_spaces hspaces hx _
  rw [argument_cons (congrArg Stream.ahead hskip), if_neg hopen]
  split
  · exact ⟨_, rfl, rfl⟩
  · exact ⟨_, rfl, rfl⟩

theorem argument_ended (hs : AllSpaces s.stream.ahead) :
    ∃ t, argument s = .error (s.endInterrupt "argument") t := by
  have hskip : s.stream.skipSpaces.ahead = [] := by
    have hdrop : (s.stream.ahead ++ []).dropWhile Token.isSpace = [].dropWhile Token.isSpace :=
      List.dropWhile_append_of_pos hs.isSpace
    rw [List.append_nil] at hdrop
    unfold Stream.skipSpaces Stream.skipWhile
    rw [Stream.passWhile_eq, hdrop]
    rfl
  have hspaces : onStream Stream.skipSpaces s = .ok () { s with stream := s.stream.skipSpaces } := rfl
  unfold argument
  exact ⟨_, (bind_ok hspaces).trans (bind_ok (next_nil hskip))⟩

theorem optionalArgument_ofBrackets (hspaces : AllSpaces spaces)
    (hs : s.stream.ahead = spaces ++ .char '[' :: tokens) :
    optionalArgument s =
      (some <$> finishArgument "optional argument" (readBracketed s.inProof tokens).result :
        Scan (Option (List Token)))
        (s.behindReading (spaces.length + 1) (readBracketed s.inProof tokens)) := by
  have hpast : s.stream.pastSpaces? = some (spaces.length, .char '[') := by
    unfold Stream.pastSpaces?
    rw [hs, pastSpacesFrom?_spaces hspaces (by simp), Nat.zero_add]
  have hskip : onStream (·.skip (spaces.length + 1)) s =
      .ok () { s with stream := ⟨tokens, s.consumed + (spaces.length + 1)⟩ } := by
    show EStateM.Result.ok () { s with stream := passTokens _ s.consumed s.stream.ahead } = _
    rw [Stream.passTokens_eq, hs, List.take_length_add_append, List.drop_length_add_append,
      List.length_append]
    rfl
  unfold optionalArgument
  rw [bind_ok (m := get) (a := s) (t := s) rfl, hpast]
  refine (bind_ok hskip).trans ((bind_ok (take_ok _ _)).trans ?_)
  rfl

/-- What stands behind spaces where an argument is read. -/
inductive ArgumentStart (s : State) : Prop
  | group {spaces tokens : List Token} (hspaces : AllSpaces spaces)
      (hs : s.stream.ahead = spaces ++ .openGroup :: tokens)
  | other {spaces rest : List Token} {x : Token} (hspaces : AllSpaces spaces)
      (hs : s.stream.ahead = spaces ++ x :: rest) (hx : x ≠ .space) (hopen : x ≠ .openGroup)
  | ended (hs : AllSpaces s.stream.ahead)

theorem argumentStart (s : State) : ArgumentStart s := by
  obtain ⟨spaces, rest, hs, hspaces, hhead⟩ := exists_spaces s.stream.ahead
  cases rest with
  | nil =>
    rw [List.append_nil] at hs
    exact .ended (hs ▸ hspaces)
  | cons x rest =>
    by_cases hopen : x = .openGroup
    · subst hopen
      exact .group hspaces hs
    · exact .other hspaces hs (fun hx => hhead (congrArg some hx)) hopen

/-- The same for an argument in brackets. -/
inductive OptionStart (s : State) : Prop
  | brackets {spaces tokens : List Token} (hspaces : AllSpaces spaces)
      (hs : s.stream.ahead = spaces ++ .char '[' :: tokens)
  | none (hnone : NoOption s.stream.ahead)

theorem optionStart (s : State) : OptionStart s := by
  obtain ⟨spaces, rest, hs, hspaces, hhead⟩ := exists_spaces s.stream.ahead
  by_cases hopen : rest.head? = some (.char '[')
  · obtain ⟨tokens, rfl⟩ := List.head?_eq_some_iff.mp hopen
    exact .brackets hspaces hs
  refine .none fun offset => ?_
  rw [hs]
  cases rest with
  | nil =>
    rw [List.append_nil, pastSpacesFrom?_allSpaces hspaces]
    exact nofun
  | cons x rest =>
    rw [pastSpacesFrom?_spaces hspaces fun h => hhead (congrArg some h)]
    rintro ⟨⟩
    exact hopen rfl

/-- A token that is no boundary and opens no group can be an argument by itself. -/
theorem isBrace_of_argument {x : Token} (hopen : x ≠ .openGroup) (hboundary : isBoundary x = false) :
    x.isBrace = false ∧ x ≠ .control "end" := by
  constructor
  · cases x with
    | openGroup => exact absurd rfl hopen
    | closeGroup => cases hboundary
    | _ => rfl
  · rintro rfl
    cases hboundary

theorem argument_ok (h : argument s = .ok content t) :
    ReadsArgument s.inProof s.stream.ahead content t.stream.ahead := by
  cases argumentStart s with
  | ended hs =>
    obtain ⟨u, herror⟩ := argument_ended hs
    cases herror.symm.trans h
  | @group spaces tokens hspaces hs =>
    rw [argument_ofGroup hspaces hs] at h
    cases groupEnd s.inProof tokens with
    | closed hfirst hread =>
      rw [hread] at h
      cases h
      rw [hs]
      exact .group hspaces hfirst
    | runaway _ _ _ hread => rw [hread] at h; cases h
    | ended _ hread => rw [hread] at h; cases h
  | @other spaces rest x hspaces hs hx hopen =>
    obtain ⟨stream, hok, hstream⟩ := argument_other hspaces hs hx hopen
    rw [hok] at h
    cases h
    rw [hs, show State.stream _ = stream from rfl, hstream]
    cases hboundary : isBoundary x with
    | true => exact .nothing hspaces
    | false =>
      obtain ⟨hbrace, hend⟩ := isBrace_of_argument hopen hboundary
      exact .single hspaces hbrace hend

theorem optionalArgument_some (h : optionalArgument s = .ok (some content) t) :
    ReadsArgument s.inProof s.stream.ahead content t.stream.ahead := by
  cases optionStart s with
  | none hnone =>
    rw [optionalArgument_none hnone] at h
    cases h
  | @brackets spaces tokens hspaces hs =>
    rw [optionalArgument_ofBrackets hspaces hs] at h
    cases bracketsEnd s.inProof tokens with
    | closed hfirst hread =>
      rw [hread] at h
      cases h
      rw [hs]
      exact .brackets hspaces hfirst
    | enclosed hfirst hread =>
      rw [hread] at h
      cases h
      rw [hs]
      exact .enclosed hspaces hfirst
    | runaway _ _ _ hread => rw [hread] at h; cases h
    | ended _ hread => rw [hread] at h; cases h

theorem optionalArgument_eq_none (h : optionalArgument s = .ok none t) : t = s := by
  cases optionStart s with
  | none hnone =>
    rw [optionalArgument_none hnone] at h
    cases h
    rfl
  | @brackets spaces tokens hspaces hs =>
    rw [optionalArgument_ofBrackets hspaces hs] at h
    cases hread : (readBracketed s.inProof tokens).result with
    | closed content => rw [hread] at h; cases h
    | runaway => rw [hread] at h; cases h
    | ended => rw [hread] at h; cases h

/-! ### Rows of arguments -/

/-- An argument is read, or one in brackets if there is one. -/
inductive ReadsOne (s t : State) : Prop
  | argument {content : List Token} (h : argument s = .ok content t)
  | optional {content? : Option (List Token)} (h : optionalArgument s = .ok content? t)

theorem ReadsOne.inBalance (h : ReadsOne s t) :
    ∃ taken, s.stream.ahead = taken ++ t.stream.ahead ∧ InBalance taken := by
  cases h with
  | argument h =>
    obtain ⟨-, taken, htaken, hnested⟩ := (argument_ok h).wellNested
    exact ⟨taken, htaken, hnested.inBalance⟩
  | @optional content? h =>
    cases content? with
    | none =>
      rw [optionalArgument_eq_none h]
      exact ⟨[], rfl, inBalance_nil⟩
    | some content =>
      obtain ⟨-, taken, htaken, hnested⟩ := (optionalArgument_some h).wellNested
      exact ⟨taken, htaken, hnested.inBalance⟩

/-- **Arguments keep braces in balance.** An argument that is returned, in braces, in brackets or by
itself, keeps its braces in balance, and so do the tokens that are taken off the stream for it. Where
there is no argument in brackets nothing is read. So after any row of arguments the tokens taken are
in balance: no brace has been taken without its partner. -/
theorem arguments_keep_balance (s t : State) :
    (∀ content, argument s = .ok content t ∨ optionalArgument s = .ok (some content) t →
      InBalance content ∧ ∃ taken, s.stream.ahead = taken ++ t.stream.ahead ∧ InBalance taken) ∧
    (optionalArgument s = .ok none t → t = s) ∧
    (Relation.ReflTransGen ReadsOne s t →
      ∃ taken, s.stream.ahead = taken ++ t.stream.ahead ∧ InBalance taken) := by
  refine ⟨fun content h => ?_, optionalArgument_eq_none, fun h => ?_⟩
  · have hreads := h.elim argument_ok optionalArgument_some
    obtain ⟨hcontent, taken, htaken, hnested⟩ := hreads.wellNested
    exact ⟨hcontent.inBalance, taken, htaken, hnested.inBalance⟩
  · induction h with
    | refl => exact ⟨[], rfl, inBalance_nil⟩
    | tail _ hone ih =>
      obtain ⟨xs, hxs, hbalance⟩ := ih
      obtain ⟨ys, hys, hbalance'⟩ := hone.inBalance
      exact ⟨xs ++ ys, by rw [hxs, hys, List.append_assoc], hbalance.append hbalance'⟩

/-- A group with a group in it, and brackets around a group that holds a bracket. -/
theorem group_and_brackets_taken :
    let s : State := .start "main.tex" [.space, .openGroup, .char 'x', .openGroup, .closeGroup,
      .closeGroup, .char '[', .openGroup, .char ']', .closeGroup, .char ']', .closeGroup]
    ∃ t u, argument s = .ok [.char 'x', .openGroup, .closeGroup] t ∧
      optionalArgument t = .ok (some [.openGroup, .char ']', .closeGroup]) u ∧
      InBalance [.openGroup, .char ']', .closeGroup] ∧
      ∃ taken, s.stream.ahead = taken ++ u.stream.ahead ∧ u.stream.ahead = [.closeGroup] ∧
        InBalance taken := by
  intro s
  have hargument : argument s = .ok [.char 'x', .openGroup, .closeGroup] (after argument s) := rfl
  have hoptional : optionalArgument (after argument s) =
      .ok (some [.openGroup, .char ']', .closeGroup]) (after optionalArgument (after argument s)) :=
    rfl
  have hrow : Relation.ReflTransGen ReadsOne s (after optionalArgument (after argument s)) :=
    .tail (.single (.argument hargument)) (.optional hoptional)
  obtain ⟨taken, htaken, hbalance⟩ := (arguments_keep_balance _ _).2.2 hrow
  have hcontent := ((arguments_keep_balance _ _).1 _ (.inr hoptional)).1
  exact ⟨_, _, hargument, hoptional, hcontent, taken, htaken, rfl, hbalance⟩

end Scan

end ProofProse
