import ProofProse.Proofs.Taking

/-! # Groups in groups

Some tokens are well nested when every brace that opens a group in them is closed in them, and no
other brace is (`WellNested`). A reader of a group goes through well nested tokens without ending in
them, however deep it is in groups (`balancedFrom_nested`, by induction on the tokens); so it ends
with the brace right behind, and an argument is what stands between its braces (`argument_nested`).
For an argument in brackets the brackets outside the braces are balanced as well (`Bracketed`). The
ends of files in an argument are dropped, and the files are left. -/

namespace ProofProse

/-! ### Braces and brackets -/

/-- Every brace of some tokens belongs to a group in them. -/
inductive WellNested : List Token → Prop
  | nil : WellNested []
  /-- A token that is no brace. -/
  | token {t : Token} {rest : List Token} (ht : t.isBrace = false) (hrest : WellNested rest) :
      WellNested (t :: rest)
  /-- A group. -/
  | group {inside rest : List Token} (hinside : WellNested inside) (hrest : WellNested rest) :
      WellNested (.openGroup :: (inside ++ .closeGroup :: rest))

/-- Every brace of some tokens belongs to a group in them, and every bracket outside of the groups to
a pair of brackets. -/
inductive Bracketed : List Token → Prop
  | nil : Bracketed []
  /-- A token that is no brace and no bracket. -/
  | token {t : Token} {rest : List Token} (ht : t.isBrace = false) (hopen : t ≠ .char '[')
      (hclose : t ≠ .char ']') (hrest : Bracketed rest) : Bracketed (t :: rest)
  /-- A group, with any brackets in it. -/
  | group {inside rest : List Token} (hinside : WellNested inside) (hrest : Bracketed rest) :
      Bracketed (.openGroup :: (inside ++ .closeGroup :: rest))
  /-- A pair of brackets. -/
  | brackets {inside rest : List Token} (hinside : Bracketed inside) (hrest : Bracketed rest) :
      Bracketed (.char '[' :: (inside ++ .char ']' :: rest))

/-- Some tokens without the ends of files among them. -/
def unmarked (tokens : List Token) : List Token := tokens.filter (· != .endOfInput)

section Tokens

variable {t : Token} {tokens rest : List Token}

theorem WellNested.append (h : WellNested tokens) (hrest : WellNested rest) :
    WellNested (tokens ++ rest) := by
  induction h with
  | nil => exact hrest
  | token ht _ ih => exact .token ht ih
  | group hinside _ _ ih =>
    rw [List.cons_append, List.append_assoc]
    exact .group hinside ih

theorem wellNested_of_noBraces (h : ∀ t ∈ tokens, t.isBrace = false) : WellNested tokens := by
  induction tokens with
  | nil => exact .nil
  | cons t tokens ih =>
    exact .token (h t List.mem_cons_self) (ih fun x hx => h x (List.mem_cons_of_mem t hx))

theorem WellNested.bracketed (h : WellNested tokens)
    (hnone : .char '[' ∉ tokens ∧ .char ']' ∉ tokens) : Bracketed tokens := by
  induction h with
  | nil => exact .nil
  | token ht _ ih =>
    obtain ⟨hopen, hclose⟩ := hnone
    rw [List.mem_cons, not_or] at hopen hclose
    exact .token ht (Ne.symm hopen.1) (Ne.symm hclose.1) (ih ⟨hopen.2, hclose.2⟩)
  | group hinside _ _ ih =>
    refine .group hinside (ih ⟨fun h => hnone.1 ?_, fun h => hnone.2 ?_⟩)
    · exact List.mem_cons_of_mem _ (List.mem_append_right _ (List.mem_cons_of_mem _ h))
    · exact List.mem_cons_of_mem _ (List.mem_append_right _ (List.mem_cons_of_mem _ h))

@[simp] theorem unmarked_nil : unmarked [] = [] := rfl

@[simp] theorem unmarked_append (xs ys : List Token) :
    unmarked (xs ++ ys) = unmarked xs ++ unmarked ys :=
  List.filter_append xs ys

theorem unmarked_cons (ht : t.IsContent) : unmarked (t :: rest) = t :: unmarked rest :=
  List.filter_cons_of_pos (bne_iff_ne.mpr ht)

theorem unmarked_eq_self (h : marks tokens = 0) : unmarked tokens = tokens :=
  List.filter_eq_self.mpr fun t ht => bne_iff_ne.mpr (marks_eq_zero.mp h t ht)

end Tokens

/-! ### Reading through tokens

The readers of groups hold what they have read last token first, with how many tokens they have taken
and how many files have ended. -/

/-- A reader of an argument, in the middle of it. -/
abbrev Reader := List Token → Nat → Nat → List Token → Reading Argument

/-- A reader goes through some tokens without ending in them. -/
def Reader.GoesThrough (read : Reader) (tokens : List Token) : Prop :=
  ∀ content count fileEnds behind, read content count fileEnds (tokens ++ behind) =
    read ((unmarked tokens).reverse ++ content) (count + tokens.length) (fileEnds + marks tokens)
      behind

namespace Reader

variable {read inner : Reader} {first last : Token} {xs ys inside : List Token}

theorem goesThrough_nil : read.GoesThrough [] := fun _ _ _ _ => rfl

theorem GoesThrough.append (hx : read.GoesThrough xs) (hy : read.GoesThrough ys) :
    read.GoesThrough (xs ++ ys) := by
  intro content count fileEnds behind
  rw [List.append_assoc, hx, hy, unmarked_append, List.reverse_append, marks_append, List.length_append,
    List.append_assoc, Nat.add_assoc, Nat.add_assoc]

/-- A reader goes through what stands between two tokens by another one that it changes to and back. -/
theorem GoesThrough.enclosed (h : inner.GoesThrough inside) (hfirst : first.IsContent)
    (hlast : last.IsContent)
    (hopen : ∀ content count fileEnds rest, read content count fileEnds (first :: rest) =
      inner (first :: content) (count + 1) fileEnds rest)
    (hclose : ∀ content count fileEnds rest, inner content count fileEnds (last :: rest) =
      read (last :: content) (count + 1) fileEnds rest) :
    read.GoesThrough (first :: (inside ++ [last])) := by
  intro content count fileEnds behind
  have hunmarked : (unmarked (first :: (inside ++ [last]))).reverse ++ content =
      last :: ((unmarked inside).reverse ++ first :: content) := by
    rw [unmarked_cons hfirst, unmarked_append, unmarked_cons hlast]
    simp
  have hmarks : marks (first :: (inside ++ [last])) = marks inside := by
    rw [marks_cons hfirst, marks_append, marks_cons hlast, marks_nil, Nat.add_zero]
  have hlength : count + (first :: (inside ++ [last])).length = count + 1 + inside.length + 1 := by
    rw [List.length_cons, List.length_append, List.length_singleton]
    omega
  rw [hunmarked, hmarks, hlength, List.cons_append, hopen, List.append_assoc, h]
  exact hclose _ _ _ _

end Reader

open Reader

section Readers

variable {guarded : Bool} {brackets braces : Nat} {t : Token} {tokens rest : List Token}

theorem closesProof_eq_false {name : String} (h : name ≠ "end") : closesProof name rest = false := by
  unfold closesProof
  rw [beq_eq_false_iff_ne.mpr h, Bool.false_and]

theorem goesThrough_token_balancedFrom (ht : t.isBrace = false) (hend : t ≠ .control "end") :
    GoesThrough (balancedFrom guarded braces) [t] := by
  intro content count fileEnds behind
  cases t with
  | openGroup => cases ht
  | closeGroup => cases ht
  | control name =>
    have hname : name ≠ "end" := fun h => hend (congrArg Token.control h)
    show (if guarded && closesProof name behind then _ else _) = _
    rw [closesProof_eq_false hname, Bool.and_false, if_neg Bool.false_ne_true]
    rfl
  | _ => rfl

theorem goesThrough_token_bracketedFrom (ht : t.isBrace = false) (hend : t ≠ .control "end")
    (hopen : braces = 0 → t ≠ .char '[') (hclose : braces = 0 → t ≠ .char ']') :
    GoesThrough (bracketedFrom guarded brackets braces) [t] := by
  intro content count fileEnds behind
  cases t with
  | openGroup => cases ht
  | closeGroup => cases ht
  | control name =>
    have hname : name ≠ "end" := fun h => hend (congrArg Token.control h)
    show (if guarded && closesProof name behind then _ else _) = _
    rw [closesProof_eq_false hname, Bool.and_false, if_neg Bool.false_ne_true]
    rfl
  | char c =>
    have hopen' : ¬(c == '[' && braces == 0) = true := by
      rw [Bool.and_eq_true, beq_iff_eq, beq_iff_eq]
      rintro ⟨rfl, hzero⟩
      exact hopen hzero rfl
    have hclose' : ¬(c == ']' && braces == 0) = true := by
      rw [Bool.and_eq_true, beq_iff_eq, beq_iff_eq]
      rintro ⟨rfl, hzero⟩
      exact hclose hzero rfl
    show (if c == '[' && braces == 0 then _ else if c == ']' && braces == 0 then _ else _) = _
    rw [if_neg hopen', if_neg hclose']
    rfl
  | _ => rfl

/-- **Well nested tokens** are gone through by a reader, at any depth of braces, that goes through
single tokens and counts braces. -/
theorem goesThrough_nested (read : Nat → Reader)
    (htoken : ∀ depth t, t.isBrace = false → t ≠ .control "end" → (read depth).GoesThrough [t])
    (hopen : ∀ depth content count fileEnds rest,
      read depth content count fileEnds (.openGroup :: rest) =
        read (depth + 1) (.openGroup :: content) (count + 1) fileEnds rest)
    (hclose : ∀ depth content count fileEnds rest,
      read (depth + 1) content count fileEnds (.closeGroup :: rest) =
        read depth (.closeGroup :: content) (count + 1) fileEnds rest)
    (h : WellNested tokens) (hend : .control "end" ∉ tokens) :
    ∀ depth, (read depth).GoesThrough tokens := by
  induction h with
  | nil => exact fun _ => goesThrough_nil
  | @token t rest ht hrest ih =>
    intro depth
    rw [List.mem_cons, not_or] at hend
    exact (htoken depth t ht (Ne.symm hend.1)).append (ih hend.2 depth)
  | @group inside rest hinside hrest ihinside ih =>
    intro depth
    have hends : .control "end" ∉ inside ∧ .control "end" ∉ rest := by simpa using hend
    have hgroup : (read depth).GoesThrough (.openGroup :: (inside ++ [.closeGroup])) :=
      (ihinside hends.1 (depth + 1)).enclosed (by simp) (by simp) (hopen depth) (hclose depth)
    have hall := hgroup.append (ih hends.2 depth)
    rwa [List.cons_append, List.append_assoc] at hall

theorem goesThrough_balancedFrom (h : WellNested tokens) (hend : .control "end" ∉ tokens) :
    GoesThrough (balancedFrom guarded braces) tokens :=
  goesThrough_nested (balancedFrom guarded) (fun _ _ => goesThrough_token_balancedFrom)
    (fun _ _ _ _ _ => rfl) (fun _ _ _ _ _ => rfl) h hend braces

theorem goesThrough_bracketedFrom_inner (h : WellNested tokens) (hend : .control "end" ∉ tokens) :
    GoesThrough (bracketedFrom guarded brackets (braces + 1)) tokens :=
  goesThrough_nested (fun braces => bracketedFrom guarded brackets (braces + 1))
    (fun _ _ ht hend => goesThrough_token_bracketedFrom ht hend nofun nofun)
    (fun _ _ _ _ _ => rfl) (fun _ _ _ _ _ => rfl) h hend braces

/-- **Bracketed tokens** are gone through at any depth of brackets. -/
theorem goesThrough_bracketedFrom (h : Bracketed tokens) (hend : .control "end" ∉ tokens) :
    ∀ brackets, GoesThrough (bracketedFrom guarded brackets 0) tokens := by
  induction h with
  | nil => exact fun _ => goesThrough_nil
  | @token t rest ht hopen hclose hrest ih =>
    intro brackets
    rw [List.mem_cons, not_or] at hend
    exact (goesThrough_token_bracketedFrom ht (Ne.symm hend.1) (fun _ => hopen)
      (fun _ => hclose)).append (ih hend.2 brackets)
  | @group inside rest hinside hrest ih =>
    intro brackets
    have hends : .control "end" ∉ inside ∧ .control "end" ∉ rest := by simpa using hend
    have hgroup : GoesThrough (bracketedFrom guarded brackets 0)
        (.openGroup :: (inside ++ [.closeGroup])) :=
      (goesThrough_bracketedFrom_inner hinside hends.1).enclosed (by simp) (by simp)
        (fun _ _ _ _ => rfl) (fun _ _ _ _ => rfl)
    have hall := hgroup.append (ih hends.2 brackets)
    rwa [List.cons_append, List.append_assoc] at hall
  | @brackets inside rest hinside hrest ihinside ih =>
    intro brackets
    have hends : .control "end" ∉ inside ∧ .control "end" ∉ rest := by simpa using hend
    have hpair : GoesThrough (bracketedFrom guarded brackets 0)
        (.char '[' :: (inside ++ [.char ']'])) :=
      (ihinside hends.1 (brackets + 1)).enclosed (by simp) (by simp)
        (fun _ _ _ _ => rfl) (fun _ _ _ _ => rfl)
    have hall := hpair.append (ih hends.2 brackets)
    rwa [List.cons_append, List.append_assoc] at hall

end Readers

/-! ### Arguments -/

namespace Scan

variable {s : State} {tokens behind : List Token}

theorem balanced_nested (context : String) (h : WellNested tokens)
    (hend : .control "end" ∉ tokens) (hs : s.stream.ahead = tokens ++ .closeGroup :: behind) :
    balanced context s =
      .ok (unmarked tokens) { s with
        stream := ⟨behind, s.consumed + (tokens.length + 1)⟩
        includes := s.includes.leave (marks tokens) } := by
  have hread : readBalanced s.inProof s.stream.ahead =
      ⟨.closed (unmarked tokens), behind, tokens.length + 1, marks tokens⟩ := by
    unfold readBalanced
    rw [hs, goesThrough_balancedFrom h hend, List.append_nil, Nat.zero_add, Nat.zero_add]
    unfold balancedFrom
    rw [List.reverse_reverse]
  unfold balanced
  exact bind_ok (take_of_eq (fun s => readBalanced s.inProof) s hread)

/-- A group is read as an argument without the ends of files in it, which are left. -/
theorem argument_nested (h : WellNested tokens) (hend : .control "end" ∉ tokens)
    (hs : s.stream.ahead = .openGroup :: (tokens ++ .closeGroup :: behind)) :
    argument s =
      .ok (unmarked tokens) { s with
        stream := ⟨behind, s.consumed + (tokens.length + 2)⟩
        includes := s.includes.leave (marks tokens) } := by
  have hspaces : onStream Stream.skipSpaces s = .ok () s := by
    refine onStream_ok (Stream.skipWhile_of_head fun x hx => ?_)
    rw [hs, List.head?_cons, Option.mem_some_iff] at hx
    rw [← hx]
    rfl
  have hcount : s.consumed + (tokens.length + 2) = s.consumed + 1 + (tokens.length + 1) := by omega
  unfold argument
  rw [bind_ok hspaces, bind_ok (next_cons hs), hcount]
  exact balanced_nested "argument" h hend rfl

/-! ### Arguments in brackets -/

/-- There is no argument in brackets at the front of some tokens. -/
def NoOption (tokens : List Token) : Prop :=
  ∀ offset, pastSpacesFrom? 0 tokens ≠ some (offset, .char '[')

theorem optionalArgument_none (h : NoOption s.stream.ahead) : optionalArgument s = .ok none s := by
  have hpast : ∀ offset, s.stream.pastSpaces? ≠ some (offset, .char '[') := h
  unfold optionalArgument
  rw [bind_ok (m := get) (a := s) (t := s) rfl]
  generalize s.stream.pastSpaces? = past? at hpast
  split
  · exact absurd rfl (hpast _)
  · rfl

theorem optionalArgument_bracketed (h : Bracketed tokens) (hend : .control "end" ∉ tokens)
    (hs : s.stream.ahead = .char '[' :: (tokens ++ .char ']' :: behind)) :
    optionalArgument s =
      .ok (some (unmarked tokens)) { s with
        stream := ⟨behind, s.consumed + (tokens.length + 2)⟩
        includes := s.includes.leave (marks tokens) } := by
  have hpast : s.stream.pastSpaces? = some (0, .char '[') := by
    unfold Stream.pastSpaces?
    rw [hs]
    rfl
  have hskip : onStream (·.skip 1) s =
      .ok () { s with stream := ⟨tokens ++ .char ']' :: behind, s.consumed + 1⟩ } := by
    show EStateM.Result.ok () { s with stream := passTokens 1 s.consumed s.stream.ahead } = _
    rw [hs]
    rfl
  have hread : readBracketed s.inProof (tokens ++ .char ']' :: behind) =
      ⟨.closed (unmarked tokens), behind, tokens.length + 1, marks tokens⟩ := by
    unfold readBracketed
    rw [goesThrough_bracketedFrom h hend, List.append_nil, Nat.zero_add, Nat.zero_add]
    show Reading.mk (Argument.closed (unmarked tokens).reverse.reverse) _ _ _ = _
    rw [List.reverse_reverse]
  have htake := take_of_eq (fun s => readBracketed s.inProof)
    { s with stream := ⟨tokens ++ .char ']' :: behind, s.consumed + 1⟩ } hread
  have hcount : s.consumed + (tokens.length + 2) = s.consumed + 1 + (tokens.length + 1) := by omega
  unfold optionalArgument
  rw [bind_ok (m := get) (a := s) (t := s) rfl, hpast, hcount]
  exact (bind_ok hskip).trans ((bind_ok htake).trans rfl)

end Scan

end ProofProse
