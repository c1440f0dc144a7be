import Mathlib.Data.List.Induction
import ProofProse.Proofs.Nested

/-! # Braces in balance

Some tokens keep their braces in balance when no front of them closes more groups than it opens, and
all of them together close as many as they open (`InBalance`). They are the well nested ones
(`inBalance_iff_wellNested`).

A reading goes on to the first place where something stops it, which is told from the tokens before
the place and those from it on (`FirstStop`); how it gets there is a matter of one token
(`FirstStop.run_eq`). A group is ended by the first brace that has no partner
(`EndsGroup`); before that place no front closes more groups than it opens
(`FirstStop.nonneg`, by induction on the front). An argument in brackets is ended by this brace as
well, or by the first bracket outside of all groups that has no partner (`EndsBrackets`). -/

namespace ProofProse

variable {t : Token} {tokens inside left before rest : List Token}
  {stops : List Token → List Token → Prop}

/-! ### Counting braces and brackets -/

@[simp] theorem braceBalance_nil : braceBalance [] = 0 := rfl

@[simp] theorem braceBalance_cons (t : Token) (rest : List Token) :
    braceBalance (t :: rest) = t.depthChange + braceBalance rest := rfl

@[simp] theorem braceBalance_append (xs ys : List Token) :
    braceBalance (xs ++ ys) = braceBalance xs + braceBalance ys := by
  induction xs with
  | nil => simp
  | cons t xs ih => rw [List.cons_append, braceBalance_cons, ih, braceBalance_cons, Int.add_assoc]

@[simp] theorem depthChange_openGroup : Token.depthChange .openGroup = 1 := rfl

@[simp] theorem depthChange_closeGroup : Token.depthChange .closeGroup = -1 := rfl

theorem depthChange_eq_zero (ht : t.isBrace = false) : t.depthChange = 0 := by
  cases t with
  | openGroup => cases ht
  | closeGroup => cases ht
  | _ => rfl

theorem depthChange_nonneg (ht : t ≠ .closeGroup) : 0 ≤ t.depthChange := by
  cases t with
  | closeGroup => exact absurd rfl ht
  | openGroup => exact Int.zero_le_ofNat 1
  | _ => exact Int.le_refl 0

/-- What a token adds to the number of open brackets. -/
def Token.bracketChange : Token → Int
  | .char c => if c = '[' then 1 else if c = ']' then -1 else 0
  | _ => 0

theorem bracketChange_char {c : Char} (hopen : c ≠ '[') (hclose : c ≠ ']') :
    Token.bracketChange (.char c) = 0 :=
  (if_neg hopen).trans (if_neg hclose)

/-- Opening less closing brackets outside of groups, with `depth` groups open before the tokens. -/
def bracketBalanceFrom (depth : Int) : List Token → Int
  | [] => 0
  | t :: rest =>
    (if depth = 0 then t.bracketChange else 0) + bracketBalanceFrom (depth + t.depthChange) rest

/-- Opening less closing brackets outside of groups. -/
def bracketBalance (tokens : List Token) : Int := bracketBalanceFrom 0 tokens

theorem bracketBalanceFrom_append (depth : Int) (xs ys : List Token) :
    bracketBalanceFrom depth (xs ++ ys) =
      bracketBalanceFrom depth xs + bracketBalanceFrom (depth + braceBalance xs) ys := by
  induction xs generalizing depth with
  | nil => simp [bracketBalanceFrom]
  | cons t xs ih =>
    rw [List.cons_append, bracketBalanceFrom, bracketBalanceFrom, ih, braceBalance_cons,
      Int.add_assoc, Int.add_assoc]

theorem bracketBalance_concat (tokens : List Token) (t : Token) :
    bracketBalance (tokens ++ [t]) =
      bracketBalance tokens + if braceBalance tokens = 0 then t.bracketChange else 0 := by
  unfold bracketBalance
  rw [bracketBalanceFrom_append, Int.zero_add, bracketBalanceFrom, bracketBalanceFrom, Int.add_zero]

/-! ### The first place that stops a reading -/

/-- `left` begins at the first place of some tokens where `stops` holds of the tokens before it, which
are `inside`, and those from it on. It is empty if there is no such place. -/
structure FirstStop (stops : List Token → List Token → Prop) (tokens inside left : List Token) :
    Prop where
  split : tokens = inside ++ left
  goesOn : ∀ before t behind, inside = before ++ t :: behind → ¬stops before (t :: (behind ++ left))
  stop : left ≠ [] → stops inside left

theorem exists_firstStop (stops : List Token → List Token → Prop) (tokens : List Token) :
    ∃ inside left, FirstStop stops tokens inside left := by
  induction tokens generalizing stops with
  | nil => exact ⟨[], [], rfl, fun _ _ _ h => by simp at h, fun h => absurd rfl h⟩
  | cons t rest ih =>
    by_cases hstop : stops [] (t :: rest)
    · exact ⟨[], t :: rest, rfl, fun _ _ _ h => by simp at h, fun _ => hstop⟩
    · obtain ⟨inside, left, hsplit, hgoesOn, hleft⟩ := ih fun before => stops (t :: before)
      refine ⟨t :: inside, left, congrArg (t :: ·) hsplit, fun before x behind h => ?_, hleft⟩
      cases before with
      | nil =>
        obtain ⟨rfl, rfl⟩ := List.cons.inj h
        rwa [← hsplit]
      | cons y before =>
        obtain ⟨rfl, hinside⟩ := List.cons.inj h
        exact hgoesOn before x behind hinside

/-- A run that keeps `tracks` at every token that does not stop it comes to the first one that does. By
induction from the end of the tokens before it: the run over a front goes on at the token behind. -/
theorem FirstStop.run_eq {Level Result : Type} {level : Level}
    (run : List Token → Level → List Token → Result) (tracks : List Token → Level → Prop)
    (hstep : ∀ before level t rest, tracks before level → ¬stops before (t :: rest) →
      ∃ next, tracks (before ++ [t]) next ∧
        run before level (t :: rest) = run (before ++ [t]) next rest)
    (h : FirstStop stops tokens inside left) (hlevel : tracks [] level) :
    ∃ last, tracks inside last ∧ run [] level tokens = run inside last left := by
  obtain ⟨rfl, hgoesOn, -⟩ := h
  induction inside using List.reverseRecOn generalizing left with
  | nil => exact ⟨level, hlevel, rfl⟩
  | append_singleton front t ih =>
    have hfront : ∀ before x behind, front = before ++ x :: behind →
        ¬stops before (x :: (behind ++ t :: left)) := by
      rintro before x behind rfl
      have hnot := hgoesOn before x (behind ++ [t]) (by simp)
      rwa [List.append_assoc] at hnot
    obtain ⟨last, hlast, hrun⟩ := ih hfront
    obtain ⟨next, hnext, hread⟩ := hstep front last t left hlast (hgoesOn front t [] rfl)
    exact ⟨next, hnext, by rw [List.append_assoc, List.singleton_append, hrun, hread]⟩

/-- The brace at the front of `ahead` closes the group that the tokens before it stand in. -/
def EndsGroup (before ahead : List Token) : Prop :=
  braceBalance before = 0 ∧ ahead.head? = some .closeGroup

/-- An argument in brackets that holds the tokens before is ended: by a bracket outside of all groups
that has no partner, or by the brace of a group around it. -/
def EndsBrackets (before ahead : List Token) : Prop :=
  EndsGroup before ahead ∨
    (braceBalance before = 0 ∧ bracketBalance before = 0) ∧ ahead.head? = some (.char ']')

/-- As long as a group is not ended, no front closes more groups than it opens. -/
theorem FirstStop.nonneg (h : FirstStop stops tokens inside left)
    (hends : ∀ before ahead, EndsGroup before ahead → stops before ahead) :
    ∀ front, front <+: inside → 0 ≤ braceBalance front := by
  intro front
  induction front using List.reverseRecOn with
  | nil => exact fun _ => Int.le_refl 0
  | append_singleton front t ih =>
    rintro ⟨behind, rfl⟩
    have hfront : 0 ≤ braceBalance front := ih ⟨t :: behind, by simp⟩
    rw [braceBalance_append, braceBalance_cons, braceBalance_nil, Int.add_zero]
    by_cases ht : t = .closeGroup
    · have hgoesOn := h.goesOn front t behind (by simp)
      have hopen : braceBalance front ≠ 0 := fun hzero =>
        hgoesOn (hends _ _ ⟨hzero, by rw [ht]; rfl⟩)
      rw [ht, depthChange_closeGroup]
      omega
    · exact Int.add_nonneg hfront (depthChange_nonneg ht)

/-! ### Tokens that keep their braces in balance -/

/-- No front of some tokens closes more groups than it opens, and all of them close as many as they
open. -/
structure InBalance (tokens : List Token) : Prop where
  front : ∀ front, front <+: tokens → 0 ≤ braceBalance front
  whole : braceBalance tokens = 0

theorem inBalance_nil : InBalance [] where
  front front h := by rw [List.prefix_nil.mp h]; exact Int.le_refl 0
  whole := rfl

theorem inBalance_singleton (ht : t.isBrace = false) : InBalance [t] where
  front front h := by
    rcases List.prefix_cons_iff.mp h with rfl | ⟨rest, rfl, hrest⟩
    · exact Int.le_refl 0
    · rw [List.prefix_nil.mp hrest, braceBalance_cons, depthChange_eq_zero ht]
      exact Int.le_refl 0
  whole := by rw [braceBalance_cons, depthChange_eq_zero ht]; rfl

theorem InBalance.append {xs ys : List Token} (hx : InBalance xs) (hy : InBalance ys) :
    InBalance (xs ++ ys) where
  front front h := by
    rcases List.prefix_or_prefix_of_prefix h (List.prefix_append xs ys) with hfront | ⟨behind, rfl⟩
    · exact hx.front front hfront
    · rw [braceBalance_append, hx.whole, Int.zero_add]
      exact hy.front behind ((List.prefix_append_right_inj xs).mp h)
  whole := by rw [braceBalance_append, hx.whole, hy.whole, Int.add_zero]

theorem InBalance.braced (h : InBalance inside) :
    InBalance (.openGroup :: (inside ++ [.closeGroup])) where
  front front hfront := by
    rcases List.prefix_cons_iff.mp hfront with rfl | ⟨behind, rfl, hbehind⟩
    · exact Int.le_refl 0
    rw [braceBalance_cons, depthChange_openGroup]
    rcases List.prefix_concat_iff.mp hbehind with rfl | hbehind
    · rw [braceBalance_append, h.whole]
      exact Int.le_refl 0
    · have hinside := h.front behind hbehind
      omega
  whole := by rw [braceBalance_cons, braceBalance_append, h.whole]; rfl

theorem InBalance.of_prefix {front : List Token} (h : InBalance tokens) (hfront : front <+: tokens)
    (hzero : braceBalance front = 0) : InBalance front :=
  ⟨fun first hfirst => h.front first (hfirst.trans hfront), hzero⟩

theorem InBalance.of_append {xs ys : List Token} (h : InBalance (xs ++ ys))
    (hzero : braceBalance xs = 0) : InBalance ys where
  front front hfront := by
    have hwhole := h.front (xs ++ front) ((List.prefix_append_right_inj xs).mpr hfront)
    rwa [braceBalance_append, hzero, Int.zero_add] at hwhole
  whole := by
    have hwhole := h.whole
    rwa [braceBalance_append, hzero, Int.zero_add] at hwhole

theorem WellNested.inBalance (h : WellNested tokens) : InBalance tokens := by
  induction h with
  | nil => exact inBalance_nil
  | token ht _ ih => exact (inBalance_singleton ht).append ih
  | group _ _ ihinside ih =>
    have hgroup := ihinside.braced.append ih
    rwa [List.cons_append, List.append_assoc] at hgroup

/-- What stands in a group that begins some tokens in balance ends with its brace. -/
theorem InBalance.exists_group (h : InBalance (.openGroup :: rest)) :
    ∃ inside behind, rest = inside ++ .closeGroup :: behind ∧ InBalance inside ∧
      InBalance behind := by
  obtain ⟨inside, left, hfirst⟩ := exists_firstStop EndsGroup rest
  have hnonneg := hfirst.nonneg fun _ _ => id
  obtain ⟨rfl, -, hstop⟩ := hfirst
  cases left with
  | nil =>
    have hopen := hnonneg inside (List.prefix_refl inside)
    have hwhole := h.whole
    rw [List.append_nil, braceBalance_cons, depthChange_openGroup] at hwhole
    omega
  | cons t behind =>
    obtain ⟨hzero, hhead⟩ := hstop nofun
    obtain rfl : t = .closeGroup := Option.some.inj hhead
    have hgroup : InBalance (.openGroup :: (inside ++ [.closeGroup])) :=
      InBalance.braced ⟨hnonneg, hzero⟩
    refine ⟨inside, behind, rfl, ⟨hnonneg, hzero⟩, InBalance.of_append ?_ hgroup.whole⟩
    rwa [List.cons_append, List.append_assoc]

theorem InBalance.wellNested (h : InBalance tokens) : WellNested tokens := by
  induction hlength : tokens.length using Nat.strongRecOn generalizing tokens with
  | ind n ih =>
  subst hlength
  cases tokens with
  | nil => exact .nil
  | cons t rest =>
    by_cases ht : t.isBrace = false
    · have hzero : braceBalance [t] = 0 := (inBalance_singleton ht).whole
      have hsplit : InBalance ([t] ++ rest) := h
      have hrest := hsplit.of_append hzero
      exact .token ht (ih _ (Nat.lt_succ_self _) hrest rfl)
    cases t with
    | openGroup =>
      obtain ⟨inside, behind, rfl, hinside, hbehind⟩ := h.exists_group
      have hlength : (Token.openGroup :: (inside ++ .closeGroup :: behind)).length =
          inside.length + behind.length + 2 := by simp; omega
      exact .group (ih _ (by omega) hinside rfl) (ih _ (by omega) hbehind rfl)
    | closeGroup =>
      have hfront : (0 : Int) ≤ -1 := h.front [.closeGroup] ⟨rest, rfl⟩
      omega
    | _ => exact absurd rfl ht

/-- The tokens that keep their braces in balance are the well nested ones. -/
theorem inBalance_iff_wellNested : InBalance tokens ↔ WellNested tokens :=
  ⟨InBalance.wellNested, WellNested.inBalance⟩

theorem WellNested.unmarked (h : WellNested tokens) : WellNested (unmarked tokens) := by
  induction h with
  | nil => exact .nil
  | @token t rest ht _ ih =>
    by_cases hmark : t = .endOfInput
    · rw [hmark]
      exact ih
    · rw [unmarked_cons hmark]
      exact .token ht ih
  | group _ _ ihinside ih =>
    rw [unmarked_cons (by simp), unmarked_append, unmarked_cons (by simp)]
    exact .group ihinside ih

end ProofProse
