import ProofProse.Proofs.Nested

/-! # Names written plainly

A group that holds neither groups nor ends of files is read as it is written (`argument_group`). A name
is written plainly as a group of characters without blanks: as an argument it is that name
(`argumentText_plain`), and a look ahead finds the same (`groupName?_plain`). -/

namespace ProofProse

/-- A group of characters. -/
def plainGroup (cs : List Char) : List Token := .openGroup :: cs.map .char ++ [.closeGroup]

theorem length_plainGroup (cs : List Char) : (plainGroup cs).length = cs.length + 2 := by
  simp [plainGroup]

/-! ### Texts of characters -/

theorem printed_chars (cs : List Char) : printed (cs.map .char) = String.ofList cs := by
  induction cs with
  | nil => rfl
  | cons c cs ih =>
    have hcons : printed ((c :: cs).map .char) = String.singleton c ++ printed (cs.map .char) :=
      String.join_cons
    rw [hcons, ih, ← String.toList_inj]
    simp

theorem filter_chars (cs : List Char) :
    (cs.map Token.char).filter (fun t => !t.isBrace) = cs.map Token.char := by
  rw [List.filter_eq_self]
  intro t ht
  obtain ⟨c, -, rfl⟩ := List.mem_map.mp ht
  rfl

theorem trimBy_eq_self {p : Char → Bool} {cs : List Char} (h : ∀ c ∈ cs, p c = false) :
    Text.trimBy p cs = cs := by
  have hdrop : ∀ {ds : List Char}, (∀ c ∈ ds, p c = false) → ds.dropWhile p = ds := by
    intro ds hds
    cases ds with
    | nil => rfl
    | cons d ds => rw [List.dropWhile_cons, if_neg (by simp [hds d List.mem_cons_self])]
  unfold Text.trimBy
  rw [hdrop h, hdrop (fun c hc => h c (List.mem_reverse.mp hc)), List.reverse_reverse]

theorem plainText_chars {cs : List Char} (h : ∀ c ∈ cs, Text.isBlank c = false) :
    plainText (cs.map .char) = String.ofList cs := by
  unfold plainText Text.trim
  rw [filter_chars, printed_chars, String.toList_ofList, trimBy_eq_self h]

/-! ### Reading a group -/

/-- A token that neither opens nor closes anything in a group. -/
def Token.StandsInGroup (t : Token) : Prop :=
  t ≠ .openGroup ∧ t ≠ .closeGroup ∧ t ≠ .endOfInput ∧ t ≠ .control "end"

theorem nested_of_standsInGroup {tokens : List Token} (h : ∀ t ∈ tokens, t.StandsInGroup) :
    WellNested tokens ∧ .control "end" ∉ tokens ∧ marks tokens = 0 := by
  refine ⟨wellNested_of_noBraces fun t ht => ?_, fun hend => (h _ hend).2.2.2 rfl,
    marks_eq_zero.mpr fun t ht => (h t ht).2.2.1⟩
  obtain ⟨hopen, hclose, -, -⟩ := h t ht
  cases t with
  | openGroup => exact absurd rfl hopen
  | closeGroup => exact absurd rfl hclose
  | _ => rfl

theorem standsInGroup_chars (cs : List Char) : ∀ t ∈ cs.map Token.char, t.StandsInGroup := by
  intro t ht
  obtain ⟨c, -, rfl⟩ := List.mem_map.mp ht
  exact ⟨nofun, nofun, nofun, nofun⟩

/-! ### Reading a plain name -/

theorem nameInGroup?_chars (behind : List Token) : ∀ (cs letters : List Char) (span : Nat),
    nameInGroup? letters span (cs.map .char ++ .closeGroup :: behind) =
      some (String.ofList (letters.reverse ++ cs), span + cs.length + 1) := by
  intro cs
  induction cs with
  | nil =>
    intro letters span
    simp [nameInGroup?]
  | cons c cs ih =>
    intro letters span
    have hstep : nameInGroup? letters span ((c :: cs).map .char ++ .closeGroup :: behind) =
        nameInGroup? (c :: letters) (span + 1) (cs.map .char ++ .closeGroup :: behind) := rfl
    rw [hstep, ih]
    simp only [List.reverse_cons, List.append_assoc, List.length_cons]
    have hspan : span + 1 + cs.length + 1 = span + (cs.length + 1) + 1 := by omega
    rw [hspan]
    rfl

theorem groupName?_plain (cs : List Char) (behind : List Token) :
    groupName? (plainGroup cs ++ behind) = some (String.ofList cs, cs.length + 2) := by
  have hgroup : groupName? (plainGroup cs ++ behind) =
      nameInGroup? [] 1 (cs.map .char ++ .closeGroup :: behind) := by
    simp [groupName?, groupNameFrom?, plainGroup]
  rw [hgroup, nameInGroup?_chars]
  have hspan : 1 + cs.length + 1 = cs.length + 2 := by omega
  rw [hspan]
  rfl

namespace Scan

variable {s : State}

/-- What is left of a group without groups in it is read to the brace that closes it. -/
theorem balanced_group {tokens behind : List Token} (context : String)
    (htokens : ∀ t ∈ tokens, t.StandsInGroup)
    (hs : s.stream.ahead = tokens ++ .closeGroup :: behind) :
    balanced context s =
      .ok tokens { s with stream := ⟨behind, s.consumed + (tokens.length + 1)⟩ } := by
  obtain ⟨hnested, hend, hmarks⟩ := nested_of_standsInGroup htokens
  rw [balanced_nested context hnested hend hs, unmarked_eq_self hmarks, hmarks]
  rfl

theorem argument_group {tokens behind : List Token} (htokens : ∀ t ∈ tokens, t.StandsInGroup)
    (hs : s.stream.ahead = .openGroup :: (tokens ++ .closeGroup :: behind)) :
    argument s = .ok tokens { s with stream := ⟨behind, s.consumed + (tokens.length + 2)⟩ } := by
  obtain ⟨hnested, hend, hmarks⟩ := nested_of_standsInGroup htokens
  rw [argument_nested hnested hend hs, unmarked_eq_self hmarks, hmarks]
  rfl

theorem argument_plain {cs : List Char} {behind : List Token}
    (hs : s.stream.ahead = plainGroup cs ++ behind) :
    argument s = .ok (cs.map .char)
      { s with stream := ⟨behind, s.consumed + (cs.length + 2)⟩ } := by
  have hahead : s.stream.ahead = .openGroup :: (cs.map .char ++ .closeGroup :: behind) := by
    simp [hs, plainGroup]
  have hgroup := argument_group (standsInGroup_chars cs) hahead
  rwa [List.length_map] at hgroup

theorem argumentText_plain {cs : List Char} {behind : List Token}
    (hcs : ∀ c ∈ cs, Text.isBlank c = false) (hs : s.stream.ahead = plainGroup cs ++ behind) :
    argumentText s = .ok (String.ofList cs)
      { s with stream := ⟨behind, s.consumed + (cs.length + 2)⟩ } := by
  have harg := argument_plain hs
  unfold argumentText
  rw [bind_ok harg, plainText_chars hcs]
  rfl

end Scan

end ProofProse
