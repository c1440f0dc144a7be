import ProofProse.Proofs.Balance
import ProofProse.Proofs.Computation

/-! # Arguments before a delimiter

The argument of a parameter with a delimiter is the shortest well nested stretch of tokens that the
delimiter follows, if it is not too long (`ShortestMatch`). The reader stops at the first place outside
of all groups where the delimiter is ahead, and before that only where the group around it ends or the
tokens are too many (`EndsDelimited`). So it finds the shortest match (`shortestMatch_iff`), and where
there is none all tokens go back (`delimited_takes_shortest_match`). The braces of a match that is one
group are left out (`unbraced_stripBraces`); such a group is told by its depth, which is never zero
before the last brace (`staysOpen_iff`, by induction on the tokens). -/

namespace ProofProse

variable {t last : Token} {delimiter tokens inside left before ahead behind rest taken : List Token}
  {depth : Nat}

/-! ### Leaving out the braces of a group -/

/-- What is left of well nested tokens: of a group what stands in it, and of all others all. -/
inductive Unbraced : List Token → List Token → Prop
  | group {inside : List Token} (hinside : WellNested inside) :
      Unbraced (.openGroup :: (inside ++ [.closeGroup])) inside
  | whole {taken : List Token}
      (h : ∀ inside, WellNested inside → taken ≠ .openGroup :: (inside ++ [.closeGroup])) :
      Unbraced taken taken

theorem Unbraced.eq_inside {content : List Token}
    (h : Unbraced (.openGroup :: (inside ++ [.closeGroup])) content) (hinside : WellNested inside) :
    content = inside := by
  generalize htaken : Token.openGroup :: (inside ++ [.closeGroup]) = taken at h
  cases h with
  | group _ => exact (List.append_cancel_right (List.cons.inj htaken).2).symm
  | whole hnone => exact absurd htaken.symm (hnone inside hinside)

theorem staysOpen_cons (hrest : rest ≠ []) (depth : Nat) (t : Token) :
    staysOpen (depth + 1) (t :: rest) =
      match t with
      | .openGroup => staysOpen (depth + 2) rest
      | .closeGroup => decide (0 < depth) && staysOpen depth rest
      | _ => staysOpen (depth + 1) rest := by
  obtain ⟨x, xs, rfl⟩ := List.exists_cons_of_ne_nil hrest
  cases t <;> simp [staysOpen]

theorem forall_front_cons {d : Int} :
    (∀ front, front <+: t :: tokens → 0 ≤ d + braceBalance front) ↔
      0 ≤ d ∧ ∀ front, front <+: tokens → 0 ≤ d + t.depthChange + braceBalance front := by
  constructor
  · intro h
    refine ⟨by simpa using h [] List.nil_prefix, fun front hfront => ?_⟩
    have hcons := h (t :: front) (List.cons_prefix_cons.mpr ⟨rfl, hfront⟩)
    rwa [braceBalance_cons, ← Int.add_assoc] at hcons
  · rintro ⟨hd, h⟩ front hfront
    rcases List.prefix_cons_iff.mp hfront with rfl | ⟨more, rfl, hmore⟩
    · simpa using hd
    · rw [braceBalance_cons, ← Int.add_assoc]
      exact h more hmore

/-- The groups open before some tokens stay open over them, whatever the last token is. -/
theorem staysOpen_iff : ∀ (depth : Nat), staysOpen (depth + 1) (tokens ++ [last]) = true ↔
    ∀ front, front <+: tokens → 0 ≤ (depth : Int) + braceBalance front := by
  induction tokens with
  | nil =>
    intro depth
    refine ⟨fun _ front hfront => ?_, fun _ => rfl⟩
    rw [List.prefix_nil.mp hfront, braceBalance_nil, Int.add_zero]
    exact Int.natCast_nonneg depth
  | cons t tokens ih =>
    intro depth
    rw [List.cons_append, staysOpen_cons (by simp), forall_front_cons]
    have hdepth : (0 : Int) ≤ depth := Int.natCast_nonneg depth
    cases t with
    | openGroup =>
      exact (ih (depth + 1)).trans (and_iff_right hdepth).symm
    | closeGroup =>
      cases depth with
      | zero =>
        refine ⟨nofun, fun h => ?_⟩
        have hclosed := h.2 [] List.nil_prefix
        simp at hclosed
      | succ depth =>
        have hone : ((depth + 1 : Nat) : Int) + Token.depthChange .closeGroup = depth := by
          rw [depthChange_closeGroup]
          omega
        rw [hone, and_iff_right hdepth, decide_eq_true (Nat.succ_pos depth), Bool.true_and]
        exact ih depth
    | _ => exact (ih depth).trans (by rw [and_iff_right hdepth, depthChange_eq_zero rfl, Int.add_zero])

/-- Tokens between braces are well nested if the whole is in balance and the groups stay open up to the
last brace. -/
theorem staysOpen_braces (hwhole : braceBalance inside = 0) :
    staysOpen 0 (.openGroup :: (inside ++ [.closeGroup])) = true ↔ WellNested inside := by
  have hopen : staysOpen 0 (.openGroup :: (inside ++ [.closeGroup])) =
      staysOpen (0 + 1) (inside ++ [.closeGroup]) := by
    obtain ⟨x, xs, hcons⟩ := List.exists_cons_of_ne_nil (l := inside ++ [.closeGroup]) (by simp)
    rw [hcons]
    rfl
  rw [hopen, staysOpen_iff, ← inBalance_iff_wellNested]
  constructor
  · intro h
    exact ⟨fun front hfront => by simpa using h front hfront, hwhole⟩
  · intro h front hfront
    simpa using h.front front hfront

theorem stripBraces_group (hinside : WellNested inside) :
    stripBraces (.openGroup :: (inside ++ [.closeGroup])) = inside := by
  have hopen := (staysOpen_braces hinside.inBalance.whole).mpr hinside
  unfold stripBraces
  dsimp only
  rw [List.getLast?_concat, hopen, if_pos (by decide), List.dropLast_concat]

theorem stripBraces_whole (htaken : WellNested taken)
    (h : ∀ inside, WellNested inside → taken ≠ .openGroup :: (inside ++ [.closeGroup])) :
    stripBraces taken = taken := by
  unfold stripBraces
  split
  · next rest =>
    rw [if_neg]
    rw [Bool.and_eq_true, decide_eq_true_eq, not_and]
    intro hlast hopen
    obtain ⟨inside, rfl⟩ := List.getLast?_eq_some_iff.mp hlast
    have hwhole := htaken.inBalance.whole
    rw [braceBalance_cons, braceBalance_append, depthChange_openGroup] at hwhole
    have hinside : braceBalance inside = 0 := by
      have hclose : braceBalance [.closeGroup] = -1 := rfl
      omega
    exact h inside ((staysOpen_braces hinside).mp hopen) rfl
  · rfl

/-- Of well nested tokens exactly the braces of one group are left out. -/
theorem unbraced_stripBraces (h : WellNested taken) : Unbraced taken (stripBraces taken) := by
  by_cases hgroup : ∃ inside, WellNested inside ∧ taken = .openGroup :: (inside ++ [.closeGroup])
  · obtain ⟨inside, hinside, rfl⟩ := hgroup
    rw [stripBraces_group hinside]
    exact .group hinside
  · have hnone : ∀ inside, WellNested inside → taken ≠ .openGroup :: (inside ++ [.closeGroup]) :=
      fun inside hinside heq => hgroup ⟨inside, hinside, heq⟩
    rw [stripBraces_whole h hnone]
    exact .whole hnone

/-! ### Looking for the delimiter -/

/-- The delimiter is ahead, outside of all groups. -/
def Delimits (delimiter before ahead : List Token) : Prop :=
  braceBalance before = 0 ∧ delimiter <+: ahead

theorem delimits_iff (hdepth : (depth : Int) = braceBalance before) :
    (depth == 0 && delimiter.isPrefixOf ahead) = true ↔ Delimits delimiter before ahead := by
  rw [Bool.and_eq_true, beq_iff_eq, List.isPrefixOf_iff_prefix, Delimits, ← hdepth,
    Int.natCast_eq_zero]

/-- The reading of an argument stops: at its delimiter, when it holds too many tokens, or with the
group around it. -/
def EndsDelimited (delimiter before ahead : List Token) : Prop :=
  Delimits delimiter before ahead ∨ delimitedLimit < before.length ∨ EndsGroup before ahead

/-- The shortest well nested tokens at the front that the delimiter follows. -/
structure ShortestMatch (delimiter tokens taken behind : List Token) : Prop where
  split : tokens = taken ++ (delimiter ++ behind)
  nested : WellNested taken
  inTime : taken.length ≤ delimitedLimit + 1
  shortest : ∀ front more, taken = front ++ more → more ≠ [] → WellNested front →
    ¬delimiter <+: more ++ (delimiter ++ behind)

theorem shortestMatch_iff : ShortestMatch delimiter tokens taken behind ↔
    FirstStop (EndsDelimited delimiter) tokens taken (delimiter ++ behind) ∧
      braceBalance taken = 0 := by
  constructor
  · rintro ⟨hsplit, hnested, htime, hshortest⟩
    have hbalance := hnested.inBalance
    refine ⟨⟨hsplit, ?_, fun _ => .inl ⟨hbalance.whole, List.prefix_append _ _⟩⟩, hbalance.whole⟩
    rintro before t more rfl (⟨hzero, hdelimiter⟩ | hlong | ⟨hzero, hclose⟩)
    · have hfront := hbalance.of_prefix ⟨t :: more, rfl⟩ hzero
      exact hshortest before (t :: more) rfl nofun hfront.wellNested hdelimiter
    · simp at htime
      omega
    · obtain rfl : t = .closeGroup := Option.some.inj hclose
      have hfront := hbalance.front (before ++ [.closeGroup]) ⟨more, by simp⟩
      rw [braceBalance_append, hzero] at hfront
      exact absurd hfront (by decide)
  · rintro ⟨hfirst, hzero⟩
    have hnonneg := hfirst.nonneg fun _ _ hends => .inr (.inr hends)
    obtain ⟨hsplit, hgoesOn, -⟩ := hfirst
    refine ⟨hsplit, InBalance.wellNested ⟨hnonneg, hzero⟩, ?_, ?_⟩
    · rcases List.eq_nil_or_concat taken with rfl | ⟨front, t, rfl⟩
      · exact Nat.zero_le _
      · have hshort : ¬delimitedLimit < front.length := fun hlong =>
          hgoesOn front t [] (by simp) (.inr (.inl hlong))
        simp
        omega
    · intro front more htaken hmore hfront hdelimiter
      obtain ⟨t, more, rfl⟩ := List.exists_cons_of_ne_nil hmore
      exact hgoesOn front t more htaken (.inl ⟨hfront.inBalance.whole, hdelimiter⟩)

/-- What stands in a group is the argument if the delimiter follows the group. -/
theorem shortestMatch_group (hinside : WellNested inside) (htime : inside.length < delimitedLimit)
    (hdelimiter : delimiter ≠ []) (hopen : delimiter.head? ≠ some .openGroup) (behind : List Token) :
    ShortestMatch delimiter (.openGroup :: (inside ++ .closeGroup :: (delimiter ++ behind)))
      (.openGroup :: (inside ++ [.closeGroup])) behind where
  split := by simp
  nested := .group hinside .nil
  inTime := by simp; omega
  shortest := by
    intro front more hsplit hmore hfront hprefix
    cases front with
    | nil =>
      rw [← List.nil_append more, ← hsplit] at hprefix
      obtain ⟨x, xs, rfl⟩ := List.exists_cons_of_ne_nil hdelimiter
      obtain ⟨rfl, -⟩ := List.cons_prefix_cons.mp hprefix
      exact hopen rfl
    | cons x front =>
      obtain ⟨rfl, hgroup⟩ := List.cons.inj hsplit
      have hzero := hfront.inBalance.whole
      rw [braceBalance_cons, depthChange_openGroup] at hzero
      rcases List.prefix_concat_iff.mp ⟨more, hgroup.symm⟩ with rfl | hinner
      · exact hmore (List.append_cancel_left (hgroup.symm.trans (List.append_nil _).symm))
      · have hnonneg := hinside.inBalance.front front hinner
        omega

/-- The reader goes on at a token that does not stop it, with so many groups open as the tokens before
have opened. -/
theorem delimitedFrom_step (before : List Token) (depth : Nat) (t : Token) (rest : List Token)
    (hdepth : (depth : Int) = braceBalance before)
    (hgoesOn : ¬EndsDelimited delimiter before (t :: rest)) :
    ∃ next : Nat, (next : Int) = braceBalance (before ++ [t]) ∧
      delimitedFrom delimiter depth before.reverse before.length (t :: rest) =
        delimitedFrom delimiter next (before ++ [t]).reverse (before ++ [t]).length rest := by
  have hbalance : braceBalance (before ++ [t]) = depth + t.depthChange := by
    rw [braceBalance_append, hdepth, braceBalance_cons, braceBalance_nil, Int.add_zero]
  have hfound : ¬(depth == 0 && delimiter.isPrefixOf (t :: rest)) = true := fun h =>
    hgoesOn (.inl ((delimits_iff hdepth).mp h))
  have hshort : ¬before.length > delimitedLimit := fun hlong => hgoesOn (.inr (.inl hlong))
  have hlength : (before ++ [t]).length = before.length + 1 := List.length_append
  rw [hbalance, List.reverse_concat, hlength]
  cases t with
  | openGroup => exact ⟨depth + 1, rfl, (if_neg hfound).trans (if_neg hshort)⟩
  | closeGroup =>
    cases depth with
    | zero => exact absurd (.inr (.inr ⟨hdepth.symm, rfl⟩)) hgoesOn
    | succ depth =>
      refine ⟨depth, ?_, (if_neg hfound).trans (if_neg hshort)⟩
      rw [depthChange_closeGroup]
      omega
  | _ => exact ⟨depth, (Int.add_zero _).symm, (if_neg hfound).trans (if_neg hshort)⟩

theorem readDelimited_eq (h : FirstStop (EndsDelimited delimiter) tokens inside left) :
    ∃ depth : Nat, (depth : Int) = braceBalance inside ∧ readDelimited delimiter tokens =
      delimitedFrom delimiter depth inside.reverse inside.length left :=
  h.run_eq (fun before depth rest => delimitedFrom delimiter depth before.reverse before.length rest)
    (fun before (depth : Nat) => (depth : Int) = braceBalance before) delimitedFrom_step rfl

theorem ShortestMatch.readDelimited_eq (h : ShortestMatch delimiter tokens taken behind)
    (hdelimiter : delimiter ≠ []) :
    readDelimited delimiter tokens =
      ⟨.found (stripBraces taken), behind, taken.length + delimiter.length, 0⟩ := by
  obtain ⟨hfirst, hzero⟩ := shortestMatch_iff.mp h
  obtain ⟨depth, hdepth, hread⟩ := ProofProse.readDelimited_eq hfirst
  have hfound := (delimits_iff hdepth).mpr ⟨hzero, List.prefix_append delimiter behind⟩
  have hdrop : (delimiter ++ behind).drop delimiter.length = behind := List.drop_left
  obtain ⟨t, rest, hahead⟩ :=
    List.exists_cons_of_ne_nil (List.append_ne_nil_of_left_ne_nil hdelimiter behind)
  rw [hahead] at hread hfound hdrop
  rw [hread.trans (if_pos hfound), hdrop, List.reverse_reverse]

theorem readDelimited_kept (h : FirstStop (EndsDelimited delimiter) tokens inside left)
    (hnot : ¬Delimits delimiter inside left) :
    ∃ result count, readDelimited delimiter tokens = ⟨result, tokens, count, 0⟩ ∧
      (result = .lost ∨ result = .ended) := by
  obtain ⟨depth, hdepth, hread⟩ := ProofProse.readDelimited_eq h
  cases left with
  | nil =>
    have hback : inside.reverse.reverse = tokens := by
      rw [List.reverse_reverse, h.split, List.append_nil]
    rw [hread, delimitedFrom, hback]
    split
    · exact ⟨_, _, rfl, .inl rfl⟩
    · exact ⟨_, _, rfl, .inr rfl⟩
  | cons t rest =>
    have hback : inside.reverse.reverseAux (t :: rest) = tokens := by
      rw [List.reverseAux_eq, List.reverse_reverse, h.split]
    have hfound : ¬(depth == 0 && delimiter.isPrefixOf (t :: rest)) = true := fun h =>
      hnot ((delimits_iff hdepth).mp h)
    rw [hread.trans (if_neg hfound), hback]
    split
    · exact ⟨_, _, rfl, .inl rfl⟩
    · next hshort =>
      obtain hfound | hlong | ⟨hzero, hclose⟩ := h.stop nofun
      · exact absurd hfound hnot
      · exact absurd hlong hshort
      · obtain rfl : t = .closeGroup := Option.some.inj hclose
        obtain rfl : depth = 0 := Int.natCast_eq_zero.mp (hdepth.trans hzero)
        exact ⟨_, _, rfl, .inl rfl⟩

/-! ### The argument of a parameter -/

namespace Scan

/-- **The shortest match is the argument** before a delimiter. If there are well nested tokens at the
front that the delimiter follows, and no fewer, and they are not too many, then they are the argument,
without the braces if they are one group, and what stands behind the delimiter is left. In every other
case there is no argument, and all tokens are ahead as they were, also where these run out and the
proof or the file is given up. Nothing else of the state changes. -/
theorem delimited_takes_shortest_match (s : State) (hdelimiter : delimiter ≠ []) :
    (∀ taken behind, ShortestMatch delimiter s.stream.ahead taken behind →
      ∃ content stream, delimited delimiter s = .ok (some content) { s with stream := stream } ∧
        Unbraced taken content ∧ stream.ahead = behind) ∧
    ((¬∃ taken behind, ShortestMatch delimiter s.stream.ahead taken behind) →
      ∃ stream, stream.ahead = s.stream.ahead ∧
        (delimited delimiter s = .ok none { s with stream := stream } ∨
          delimited delimiter s =
            .error (s.endInterrupt "delimited argument") { s with stream := stream })) := by
  constructor
  · intro taken behind h
    refine ⟨stripBraces taken, ⟨behind, s.consumed + (taken.length + delimiter.length)⟩, ?_,
      unbraced_stripBraces h.nested, rfl⟩
    unfold delimited
    rw [bind_ok (take_ok _ s), h.readDelimited_eq hdelimiter]
    rfl
  · intro h
    obtain ⟨inside, left, hfirst⟩ := exists_firstStop (EndsDelimited delimiter) s.stream.ahead
    have hnot : ¬Delimits delimiter inside left := by
      rintro ⟨hzero, behind, rfl⟩
      exact h ⟨inside, behind, shortestMatch_iff.mpr ⟨hfirst, hzero⟩⟩
    obtain ⟨result, count, hread, hresult⟩ := readDelimited_kept hfirst hnot
    refine ⟨⟨s.stream.ahead, s.consumed + count⟩, rfl, ?_⟩
    unfold delimited
    rw [bind_ok (take_ok _ s), hread]
    rcases hresult with rfl | rfl
    · exact .inl rfl
    · exact .inr rfl

/-- A delimiter of two characters that stands in the group as well. -/
theorem delimiter_in_a_group :
    let s : State := .start "main.tex" [.openGroup, .char 'x', .char '-', .char '-', .closeGroup,
      .char '-', .char '-', .char 'y']
    [Token.char '-', .char '-'] ≠ [] ∧ ∃ t, delimited [.char '-', .char '-'] s =
      .ok (some [.char 'x', .char '-', .char '-']) t ∧ t.stream.ahead = [.char 'y'] := by
  intro s
  have hinside : WellNested [.char 'x', .char '-', .char '-'] :=
    .token rfl (.token rfl (.token rfl .nil))
  have hdelimiter : [Token.char '-', .char '-'] ≠ [] := List.cons_ne_nil _ _
  have hmatch : ShortestMatch [.char '-', .char '-'] s.stream.ahead
      [.openGroup, .char 'x', .char '-', .char '-', .closeGroup] [.char 'y'] :=
    shortestMatch_group hinside (by decide) hdelimiter (by decide) [.char 'y']
  obtain ⟨content, stream, hok, hcontent, hstream⟩ :=
    (delimited_takes_shortest_match s hdelimiter).1 _ _ hmatch
  have hunbraced : Unbraced (.openGroup :: ([.char 'x', .char '-', .char '-'] ++ [.closeGroup]))
      content := hcontent
  obtain rfl := hunbraced.eq_inside hinside
  exact ⟨hdelimiter, _, hok, hstream⟩

end Scan

end ProofProse
