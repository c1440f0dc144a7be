import ProofProse.Proofs.Stream
import ProofProse.Stream.Group
import ProofProse.Stream.Region

/-! # Readings that count the ends of files

Most readings take tokens off the front of the stream, put none back that they have counted, and
count every end of a file among the tokens they take (`Reading.Counts`). The files that are left
behind such a reading are then the files that ended in it. -/

namespace ProofProse

/-- How many ends of files are among some tokens. -/
def marks (tokens : List Token) : Nat := tokens.count .endOfInput

@[simp] theorem marks_nil : marks [] = 0 := rfl

@[simp] theorem marks_append (xs ys : List Token) : marks (xs ++ ys) = marks xs + marks ys :=
  List.count_append

@[simp] theorem marks_endOfInput (rest : List Token) :
    marks (.endOfInput :: rest) = marks rest + 1 := by
  simp [marks]

@[simp] theorem marks_reverse (tokens : List Token) : marks tokens.reverse = marks tokens :=
  List.count_reverse

theorem marks_cons {t : Token} (h : t.IsContent) (rest : List Token) :
    marks (t :: rest) = marks rest :=
  List.count_cons_of_ne h

theorem marks_control (name : String) (rest : List Token) :
    marks (.control name :: rest) = marks rest :=
  marks_cons (by simp) rest

theorem marks_eq_zero {tokens : List Token} : marks tokens = 0 ↔ ∀ t ∈ tokens, t.IsContent := by
  unfold marks Token.IsContent
  rw [List.count_eq_zero]
  constructor
  · intro h t ht heq
    exact h (heq ▸ ht)
  · intro h hmem
    exact h _ hmem rfl

/-! ### Names in groups -/

/-- Some tokens begin with a stretch of content, from the count `span` up to `stop`. -/
def BeginsWithContent (tokens : List Token) (span stop : Nat) : Prop :=
  ∃ group rest, tokens = group ++ rest ∧ stop = span + group.length ∧ ∀ t ∈ group, t.IsContent

theorem BeginsWithContent.cons {t : Token} {rest : List Token} {span stop : Nat} (ht : t.IsContent)
    (h : BeginsWithContent rest (span + 1) stop) : BeginsWithContent (t :: rest) span stop := by
  obtain ⟨group, behind, hgroup, hstop, hcontent⟩ := h
  refine ⟨t :: group, behind, by rw [hgroup]; rfl, by simp only [List.length_cons]; omega, ?_⟩
  intro x hx
  rcases List.mem_cons.mp hx with rfl | hx
  · exact ht
  · exact hcontent x hx

theorem nameInGroup?_eq_some : ∀ {tokens : List Token} {letters : List Char} {span stop : Nat}
    {name : String}, nameInGroup? letters span tokens = some (name, stop) →
      BeginsWithContent tokens span stop := by
  intro tokens
  induction tokens with
  | nil =>
    intro letters span stop name h
    cases h
  | cons t rest ih =>
    intro letters span stop name h
    cases t with
    | closeGroup =>
      cases h
      exact ⟨[.closeGroup], rest, rfl, rfl, by simp⟩
    | char c => exact .cons (by simp) (ih h)
    | space => exact .cons (by simp) (ih h)
    | _ => cases h

theorem groupNameFrom?_eq_some : ∀ {tokens : List Token} {span stop : Nat} {name : String},
    groupNameFrom? span tokens = some (name, stop) → BeginsWithContent tokens span stop := by
  intro tokens
  induction tokens with
  | nil =>
    intro span stop name h
    cases h
  | cons t rest ih =>
    intro span stop name h
    cases t with
    | space => exact .cons (by simp) (ih h)
    | openGroup => exact .cons (by simp) (nameInGroup?_eq_some h)
    | _ => cases h

theorem groupName?_eq_some {tokens : List Token} {span : Nat} {name : String}
    (h : groupName? tokens = some (name, span)) :
    ∃ group rest, tokens = group ++ rest ∧ group.length = span ∧ ∀ t ∈ group, t.IsContent := by
  obtain ⟨group, rest, hgroup, hspan, hcontent⟩ := groupNameFrom?_eq_some h
  exact ⟨group, rest, hgroup, by omega, hcontent⟩

/-! ### Readings that count -/

namespace Reading

variable {α : Type} {fileEnds count : Nat} {tokens rest : List Token} {reading : Reading α}

/-- Some tokens are taken off the front of a list, and the ends of files among them are added to
those before. -/
def Counts (fileEnds : Nat) (tokens : List Token) (reading : Reading α) : Prop :=
  ∃ taken, tokens = taken ++ reading.rest ∧ reading.fileEnds = fileEnds + marks taken

theorem counts_here (result : α) (tokens : List Token) (count fileEnds : Nat) :
    Counts fileEnds tokens ⟨result, tokens, count, fileEnds⟩ :=
  ⟨[], rfl, rfl⟩

theorem Counts.append {group : List Token} (hgroup : ∀ t ∈ group, t.IsContent)
    (h : Counts fileEnds rest reading) : Counts fileEnds (group ++ rest) reading := by
  obtain ⟨taken, hrest, hends⟩ := h
  refine ⟨group ++ taken, by rw [hrest, List.append_assoc], ?_⟩
  rw [hends, marks_append, marks_eq_zero.mpr hgroup, Nat.zero_add]

theorem Counts.content {t : Token} (ht : t.IsContent) (h : Counts fileEnds rest reading) :
    Counts fileEnds (t :: rest) reading :=
  @Counts.append _ _ _ _ [t] (by simpa using ht) h

theorem Counts.fileEnd (h : Counts (fileEnds + 1) rest reading) :
    Counts fileEnds (.endOfInput :: rest) reading := by
  obtain ⟨taken, hrest, hends⟩ := h
  refine ⟨.endOfInput :: taken, by rw [hrest]; rfl, ?_⟩
  rw [hends, marks_endOfInput]
  omega

end Reading

section Groups

open Reading

variable {guarded : Bool}

/-- Reading a group counts the ends of files in it, also when it runs out of its proof. -/
theorem counts_balancedFrom : ∀ (tokens : List Token) (depth : Nat) (content : List Token)
    (count fileEnds : Nat),
    Counts fileEnds tokens (balancedFrom guarded depth content count fileEnds tokens) := by
  intro tokens
  induction tokens with
  | nil => exact fun depth content count fileEnds => counts_here _ _ _ _
  | cons t rest ih =>
    intro depth content count fileEnds
    unfold balancedFrom
    cases t with
    | openGroup => exact .content (by simp) (ih ..)
    | closeGroup =>
      cases depth with
      | zero => exact .content (by simp) (counts_here _ _ _ _)
      | succ depth => exact .content (by simp) (ih ..)
    | endOfInput => exact .fileEnd (ih ..)
    | control name =>
      dsimp only
      split
      · exact counts_here _ _ _ _
      · exact .content (by simp) (ih ..)
    | _ => exact .content (by simp) (ih ..)

theorem counts_bracketedFrom : ∀ (tokens : List Token) (brackets braces : Nat)
    (content : List Token) (count fileEnds : Nat),
    Counts fileEnds tokens
      (bracketedFrom guarded brackets braces content count fileEnds tokens) := by
  intro tokens
  induction tokens with
  | nil => exact fun brackets braces content count fileEnds => counts_here _ _ _ _
  | cons t rest ih =>
    intro brackets braces content count fileEnds
    unfold bracketedFrom
    cases t with
    | openGroup => exact .content (by simp) (ih ..)
    | closeGroup =>
      cases braces with
      | zero => exact counts_here _ _ _ _
      | succ braces => exact .content (by simp) (ih ..)
    | endOfInput => exact .fileEnd (ih ..)
    | control name =>
      dsimp only
      split
      · exact counts_here _ _ _ _
      · exact .content (by simp) (ih ..)
    | char c =>
      dsimp only
      split
      · exact .content (by simp) (ih ..)
      · split
        · cases brackets with
          | zero => exact .content (by simp) (counts_here _ _ _ _)
          | succ brackets => exact .content (by simp) (ih ..)
        · exact .content (by simp) (ih ..)
    | _ => exact .content (by simp) (ih ..)

theorem marks_of_balancedFrom : ∀ (tokens : List Token) (depth : Nat)
    (content : List Token) (count fileEnds : Nat), marks content = 0 → ∀ result,
    (balancedFrom guarded depth content count fileEnds tokens).result = .closed result →
      marks result = 0 := by
  intro tokens
  induction tokens with
  | nil =>
    intro depth content count fileEnds hcontent result h
    cases h
  | cons t rest ih =>
    intro depth content count fileEnds hcontent result h
    have hcons : t.IsContent → marks (t :: content) = 0 := fun ht => (marks_cons ht _).trans hcontent
    unfold balancedFrom at h
    cases t with
    | openGroup => exact ih _ _ _ _ (hcons (by simp)) _ h
    | closeGroup =>
      cases depth with
      | zero =>
        cases h
        exact (marks_reverse content).trans hcontent
      | succ depth => exact ih _ _ _ _ (hcons (by simp)) _ h
    | endOfInput => exact ih _ _ _ _ hcontent _ h
    | control name =>
      dsimp only at h
      split at h
      · cases h
      · exact ih _ _ _ _ (hcons (by simp)) _ h
    | _ => exact ih _ _ _ _ (hcons (by simp)) _ h

theorem marks_of_bracketedFrom : ∀ (tokens : List Token) (brackets braces : Nat)
    (content : List Token) (count fileEnds : Nat), marks content = 0 → ∀ result,
    (bracketedFrom guarded brackets braces content count fileEnds tokens).result =
      .closed result → marks result = 0 := by
  intro tokens
  induction tokens with
  | nil =>
    intro brackets braces content count fileEnds hcontent result h
    cases h
  | cons t rest ih =>
    intro brackets braces content count fileEnds hcontent result h
    have hcons : t.IsContent → marks (t :: content) = 0 := fun ht => (marks_cons ht _).trans hcontent
    have hreverse : marks content.reverse = 0 := (marks_reverse content).trans hcontent
    unfold bracketedFrom at h
    cases t with
    | openGroup => exact ih _ _ _ _ _ (hcons (by simp)) _ h
    | closeGroup =>
      cases braces with
      | zero =>
        cases h
        exact hreverse
      | succ braces => exact ih _ _ _ _ _ (hcons (by simp)) _ h
    | endOfInput => exact ih _ _ _ _ _ hcontent _ h
    | control name =>
      dsimp only at h
      split at h
      · cases h
      · exact ih _ _ _ _ _ (hcons (by simp)) _ h
    | char c =>
      dsimp only at h
      split at h
      · exact ih _ _ _ _ _ (hcons (by simp)) _ h
      · split at h
        · cases brackets with
          | zero =>
            cases h
            exact hreverse
          | succ brackets => exact ih _ _ _ _ _ (hcons (by simp)) _ h
        · exact ih _ _ _ _ _ (hcons (by simp)) _ h
    | _ => exact ih _ _ _ _ _ (hcons (by simp)) _ h

end Groups

section Regions

open Reading

theorem counts_verbatimFrom (limit : Nat) (name : String) : ∀ (tokens : List Token)
    (count fileEnds : Nat),
    Counts fileEnds tokens (verbatimFrom limit name count fileEnds tokens) := by
  intro tokens
  induction tokens with
  | nil => exact fun count fileEnds => counts_here _ _ _ _
  | cons t rest ih =>
    intro count fileEnds
    unfold verbatimFrom
    split
    · exact counts_here _ _ _ _
    cases t with
    | endOfInput => exact .fileEnd (ih ..)
    | control command =>
      have hcontrol : (Token.control command).IsContent := by simp
      dsimp only
      split
      · next found span hname =>
        split
        · split at hname
          · obtain ⟨group, behind, hgroup, rfl, hcontent⟩ := groupName?_eq_some hname
            refine .content hcontrol ?_
            rw [hgroup, List.drop_left]
            exact .append hcontent (counts_here _ _ _ _)
          · cases hname
        · exact .content hcontrol (ih ..)
      · exact .content hcontrol (ih ..)
    | _ => exact .content (by simp) (ih ..)

theorem counts_codeFrom (last : String) : ∀ (tokens : List Token) (count fileEnds : Nat),
    Counts fileEnds tokens (codeFrom last count fileEnds tokens) := by
  intro tokens
  induction tokens with
  | nil => exact fun count fileEnds => counts_here _ _ _ _
  | cons t rest ih =>
    intro count fileEnds
    unfold codeFrom
    cases t with
    | endOfInput => exact .fileEnd (ih ..)
    | control name =>
      dsimp only
      split
      · exact .content (by simp) (counts_here _ _ _ _)
      · exact .content (by simp) (ih ..)
    | _ => exact .content (by simp) (ih ..)

/-- The rest of a file ends with the first end of a file, which is the one that is counted. -/
theorem counts_fileRestFrom : ∀ (tokens : List Token) (count : Nat),
    Counts 0 tokens (fileRestFrom count tokens) := by
  intro tokens
  induction tokens with
  | nil => exact fun count => counts_here _ _ _ _
  | cons t rest ih =>
    intro count
    unfold fileRestFrom
    cases t with
    | endOfInput => exact .fileEnd (counts_here _ _ _ _)
    | _ => exact .content (by simp) (ih ..)

end Regions

end ProofProse
