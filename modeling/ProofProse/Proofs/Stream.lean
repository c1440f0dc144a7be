import ProofProse.Stream.Quantity

/-! # Streams that have been read on

Reading a number, a dimension, a keyword or spaces takes tokens off the front of a stream and puts
nothing back. `Stream.Passed p s t` says that `t` is what is left of `s` behind some tokens that all
satisfy `p`. The operations of `Stream.Quantity` pass tokens that are no ends of files, with one
exception: a number that is given by a mark and a character takes whatever stands behind the mark
(`passed_skipNumber`). Tokens are cut behind the spaces they begin with by `exists_spaces`. -/

namespace ProofProse

namespace Token

/-- Not the end of an included file. -/
def IsContent (t : Token) : Prop := t ≠ .endOfInput

@[simp] theorem isContent_iff {t : Token} : t.IsContent ↔ t ≠ .endOfInput := Iff.rfl

end Token

namespace Stream

variable {p q : Token → Prop} {s t u : Stream}

/-- `t` is left of `s` behind some tokens that satisfy `p`. -/
def Passed (p : Token → Prop) (s t : Stream) : Prop :=
  ∃ taken : List Token, s.ahead = taken ++ t.ahead ∧ t.consumed = s.consumed + taken.length ∧
    ∀ x ∈ taken, p x

theorem Passed.refl (p : Token → Prop) (s : Stream) : Passed p s s :=
  ⟨[], rfl, rfl, by simp⟩

theorem Passed.trans (h : Passed p s t) (h' : Passed p t u) : Passed p s u := by
  obtain ⟨xs, hs, hc, hp⟩ := h
  obtain ⟨ys, ht, hc', hp'⟩ := h'
  refine ⟨xs ++ ys, by rw [hs, ht, List.append_assoc], ?_, fun x hx => ?_⟩
  · rw [hc', hc, List.length_append]; omega
  · rcases List.mem_append.mp hx with hx | hx
    · exact hp x hx
    · exact hp' x hx

theorem Passed.mono (hpq : ∀ x, p x → q x) (h : Passed p s t) : Passed q s t := by
  obtain ⟨xs, hs, hc, hp⟩ := h
  exact ⟨xs, hs, hc, fun x hx => hpq x (hp x hx)⟩

theorem Passed.consumed_le (h : Passed p s t) : s.consumed ≤ t.consumed := by
  obtain ⟨xs, -, hc, -⟩ := h
  omega

/-! ### Runs of tokens -/

theorem passed_passWhile {f : Token → Bool} (hf : ∀ x, f x = true → p x) :
    ∀ (tokens : List Token) (count : Nat), Passed p ⟨tokens, count⟩ (passWhile f count tokens)
  | [], count => Passed.refl p _
  | x :: rest, count => by
    unfold passWhile
    split
    · next hx =>
      have hstep : Passed p ⟨x :: rest, count⟩ ⟨rest, count + 1⟩ :=
        ⟨[x], rfl, rfl, by simpa using hf x hx⟩
      exact hstep.trans (passed_passWhile hf rest (count + 1))
    · exact Passed.refl p _

theorem passed_skipWhile {f : Token → Bool} (hf : ∀ x, f x = true → p x) (s : Stream) :
    Passed p s (s.skipWhile f) :=
  passed_passWhile hf s.ahead s.consumed

theorem skipWhile_of_head {f : Token → Bool} (h : ∀ x ∈ s.ahead.head?, f x = false) :
    s.skipWhile f = s := by
  obtain ⟨ahead, consumed⟩ := s
  cases ahead with
  | nil => rfl
  | cons x rest =>
    have hx : f x = false := h x rfl
    show (if f x then passWhile f (consumed + 1) rest else ⟨x :: rest, consumed⟩) = _
    rw [hx, if_neg Bool.false_ne_true]

theorem passed_passTokens : ∀ (n : Nat) (tokens : List Token) (count : Nat),
    (∀ x ∈ tokens.take n, p x) → Passed p ⟨tokens, count⟩ (passTokens n count tokens)
  | 0, tokens, count, _ => Passed.refl p _
  | _ + 1, [], count, _ => Passed.refl p _
  | n + 1, x :: rest, count, h => by
    rw [List.take_succ_cons] at h
    have hstep : Passed p ⟨x :: rest, count⟩ ⟨rest, count + 1⟩ :=
      ⟨[x], rfl, rfl, by simpa using h x List.mem_cons_self⟩
    exact hstep.trans
      (passed_passTokens n rest (count + 1) fun y hy => h y (List.mem_cons_of_mem x hy))

theorem passed_skip (n : Nat) (h : ∀ x ∈ s.ahead.take n, p x) : Passed p s (s.skip n) :=
  passed_passTokens n s.ahead s.consumed h

theorem passed_skip_one {x : Token} {rest : List Token} (hs : s.ahead = x :: rest) (hx : p x) :
    Passed p s (s.skip 1) := by
  refine passed_skip 1 fun y hy => ?_
  rw [hs] at hy
  simp only [List.take_succ_cons, List.take_zero, List.mem_singleton] at hy
  rw [hy]; exact hx

theorem passed_skipSpaces (s : Stream) : Passed Token.IsContent s s.skipSpaces := by
  refine passed_skipWhile (fun x hx => ?_) s
  cases x <;> simp_all [Token.isSpace]

theorem passed_skipOneSpace (s : Stream) : Passed Token.IsContent s s.skipOneSpace := by
  unfold skipOneSpace
  split
  · next rest hs => exact passed_skip_one hs (by simp)
  · exact Passed.refl _ s

theorem passed_skipChar (s : Stream) (c : Char) : Passed Token.IsContent s (s.skipChar c) := by
  unfold skipChar
  split
  · next d rest hs =>
    split
    · exact passed_skip_one hs (by simp)
    · exact Passed.refl _ s
  · exact Passed.refl _ s

theorem pastSpacesFrom?_eq_some : ∀ {tokens : List Token} {k offset : Nat} {x : Token},
    pastSpacesFrom? k tokens = some (offset, x) →
      ∃ spaces rest : List Token, tokens = spaces ++ x :: rest ∧ offset = k + spaces.length ∧
        ∀ y ∈ spaces, Token.IsContent y
  | [], _, _, _, h => by simp [pastSpacesFrom?] at h
  | y :: rest, k, offset, x, h => by
    unfold pastSpacesFrom? at h
    split at h
    · next hy =>
      obtain ⟨spaces, rest', hrest, hk, hall⟩ := pastSpacesFrom?_eq_some h
      refine ⟨y :: spaces, rest', by rw [hrest]; rfl, by simp only [List.length_cons]; omega, ?_⟩
      intro z hz
      rcases List.mem_cons.mp hz with rfl | hz
      · cases z <;> simp_all [Token.isSpace]
      · exact hall z hz
    · obtain ⟨rfl, rfl⟩ : k = offset ∧ y = x := by simpa using h
      exact ⟨[], rest, rfl, rfl, by simp⟩

/-! ### Keywords, dimensions and numbers -/

theorem isContent_of_spells : ∀ {cs : List Char} {tokens : List Token},
    spells cs tokens = true → ∀ x ∈ tokens.take cs.length, Token.IsContent x
  | [], _, _, x, hx => by simp at hx
  | c :: cs, [], h, x, hx => by simp at hx
  | c :: cs, y :: rest, h, x, hx => by
    rw [List.length_cons, List.take_succ_cons] at hx
    cases y <;> simp only [spells, Bool.and_eq_true, Bool.false_eq_true] at h
    rcases List.mem_cons.mp hx with rfl | hx
    · simp
    · exact isContent_of_spells h.2 x hx

theorem passed_keyword {word : String} (h : s.keyword? word = some t) :
    Passed Token.IsContent s t := by
  unfold keyword? at h
  split at h
  · cases h
  · next offset x hx =>
    obtain ⟨spaces, rest, hs, hoffset, hall⟩ := pastSpacesFrom?_eq_some hx
    split at h
    · next hw =>
      cases h
      refine (passed_skip _ fun y hy => ?_).trans (passed_skipOneSpace _)
      rw [Nat.zero_add] at hoffset
      rw [hoffset, hs, List.drop_left] at hw
      rw [hoffset, hs, List.take_length_add_append] at hy
      rcases List.mem_append.mp hy with hy | hy
      · exact hall y hy
      · exact isContent_of_spells hw y (by rwa [String.length_toList])
    · cases h

theorem passed_skipKeyword (s : Stream) (word : String) :
    Passed Token.IsContent s (s.skipKeyword word) := by
  unfold skipKeyword
  cases h : s.keyword? word with
  | none => exact Passed.refl _ s
  | some t => exact passed_keyword h

theorem passed_skipUnit (s : Stream) : Passed Token.IsContent s s.skipUnit := by
  unfold skipUnit
  cases h : units.findSome? s.keyword? with
  | none => exact Passed.refl _ s
  | some t =>
    obtain ⟨word, -, hw⟩ := List.exists_of_findSome?_eq_some h
    exact passed_keyword hw

theorem passed_skipEquals (s : Stream) : Passed Token.IsContent s s.skipEquals := by
  unfold skipEquals
  dsimp only
  split
  · next rest hs =>
    have hsign : Passed Token.IsContent s.skipSpaces (s.skipSpaces.skip 1) :=
      passed_skip_one hs (by simp)
    exact ((passed_skipSpaces s).trans hsign).trans (passed_skipSpaces _)
  · exact passed_skipSpaces s

theorem isContent_of_isSignOrSpace (x : Token) (h : isSignOrSpace x = true) : x.IsContent := by
  cases x <;> simp_all [isSignOrSpace]

theorem isContent_of_isDecimalToken (x : Token) (h : isDecimalToken x = true) : x.IsContent := by
  cases x <;> simp_all [isDecimalToken]

theorem isContent_of_isStretchLetter (x : Token) (h : isStretchLetter x = true) :
    x.IsContent := by
  cases x <;> simp_all [isStretchLetter]

theorem passed_skipLength (s : Stream) : Passed Token.IsContent s s.skipLength := by
  have hfront : Passed Token.IsContent s
      ((s.skipWhile isSignOrSpace).skipWhile isDecimalToken).skipSpaces :=
    ((passed_skipWhile isContent_of_isSignOrSpace s).trans
      (passed_skipWhile isContent_of_isDecimalToken _)).trans (passed_skipSpaces _)
  unfold skipLength
  dsimp only
  split
  · next name rest hs => exact hfront.trans (passed_skip_one hs (by simp))
  · refine hfront.trans ((passed_skipKeyword _ "true").trans ?_)
    split
    · next u hu =>
      exact (passed_keyword hu).trans
        ((passed_skipWhile isContent_of_isStretchLetter u).trans (passed_skipOneSpace _))
    · exact passed_skipUnit _

theorem passed_skipPart (s : Stream) (word : String) :
    Passed Token.IsContent s (s.skipPart word) := by
  unfold skipPart
  split
  · next u hu => exact (passed_keyword hu).trans (passed_skipLength u)
  · exact Passed.refl _ s

theorem passed_skipDimension (s : Stream) : Passed Token.IsContent s s.skipDimension :=
  ((passed_skipLength s).trans (passed_skipPart _ "plus")).trans (passed_skipPart _ "minus")

/-- A number takes tokens off the front. Behind the mark of a character constant it takes any token,
the end of a file too. -/
theorem passed_skipNumber (s : Stream) : Passed (fun _ => True) s s.skipNumber.1 := by
  have hany : ∀ {f : Token → Bool} (u : Stream), Passed (fun _ => True) u (u.skipWhile f) :=
    fun u => passed_skipWhile (fun _ _ => trivial) u
  have hspace : ∀ u : Stream, Passed (fun _ => True) u u.skipOneSpace :=
    fun u => (passed_skipOneSpace u).mono fun _ _ => trivial
  have hskip : ∀ (u : Stream) (n : Nat), Passed (fun _ => True) u (u.skip n) :=
    fun u n => passed_skip n fun _ _ => trivial
  refine (hany (f := isSignOrSpace) s).trans ?_
  unfold skipNumber
  dsimp only
  split
  · exact hskip _ 1
  · exact (hskip _ 2).trans (hspace _)
  · exact ((hskip _ 1).trans (hany _)).trans (hspace _)
  · exact ((hskip _ 1).trans (hany _)).trans (hspace _)
  · exact (hany _).trans (hspace _)

end Stream

/-! ### Spaces -/

/-- Some tokens that are all spaces. -/
def AllSpaces (tokens : List Token) : Prop := ∀ x ∈ tokens, x = .space

instance (tokens : List Token) : Decidable (AllSpaces tokens) :=
  inferInstanceAs (Decidable (∀ x ∈ tokens, x = .space))

theorem allSpaces_nil : AllSpaces [] := nofun

theorem exists_spaces (tokens : List Token) :
    ∃ spaces rest, tokens = spaces ++ rest ∧ AllSpaces spaces ∧ rest.head? ≠ some .space := by
  induction tokens with
  | nil => exact ⟨[], [], rfl, nofun, nofun⟩
  | cons t tokens ih =>
    by_cases ht : t = .space
    · obtain ⟨spaces, rest, hsplit, hspaces, hhead⟩ := ih
      have hcons : AllSpaces (t :: spaces) := List.forall_mem_cons.mpr ⟨ht, hspaces⟩
      exact ⟨t :: spaces, rest, congrArg (t :: ·) hsplit, hcons, hhead⟩
    · exact ⟨[], t :: tokens, rfl, nofun, fun h => ht (Option.some.inj h)⟩

theorem isSpace_eq_false {x : Token} (hx : x ≠ .space) : x.isSpace = false := by
  cases x with
  | space => exact absurd rfl hx
  | _ => rfl

theorem AllSpaces.isSpace {spaces : List Token} (h : AllSpaces spaces) :
    ∀ x ∈ spaces, x.isSpace = true := fun x hx => by rw [h x hx]; rfl

theorem pastSpacesFrom?_spaces {spaces rest : List Token} {x : Token} (hspaces : AllSpaces spaces)
    (hx : x ≠ .space) : ∀ offset,
    pastSpacesFrom? offset (spaces ++ x :: rest) = some (offset + spaces.length, x) := by
  induction spaces with
  | nil =>
    intro offset
    show (if x.isSpace then _ else _) = _
    rw [isSpace_eq_false hx, if_neg Bool.false_ne_true]
    rfl
  | cons t spaces ih =>
    intro offset
    obtain ⟨rfl, hbehind⟩ := List.forall_mem_cons.mp hspaces
    have hoffset : offset + 1 + spaces.length = offset + (Token.space :: spaces).length := by
      rw [List.length_cons]
      omega
    rw [← hoffset]
    exact ih hbehind (offset + 1)

theorem pastSpacesFrom?_allSpaces {spaces : List Token} (hspaces : AllSpaces spaces) :
    ∀ offset, pastSpacesFrom? offset spaces = none := by
  induction spaces with
  | nil => exact fun _ => rfl
  | cons t spaces ih =>
    intro offset
    obtain ⟨rfl, hbehind⟩ := List.forall_mem_cons.mp hspaces
    exact ih hbehind (offset + 1)

end ProofProse
