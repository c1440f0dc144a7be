import ProofProse.Proofs.Stream
import ProofProse.Proofs.Tape

/-! # Dimensions are taken exactly

A word of a dimension is written with spaces before it, and capitals may stand for its letters
(`IsWord`). It is looked for behind spaces, and nothing is taken where it does not stand
(`Stream.keyword?_eq_none_iff`). Of two words of which neither begins with the other only one can
stand at a place (`IsWord.not_beginsWith`), so trying all words in a row finds the one that was
written, and a dimension is taken to its end and no further, spaces left aside
(`Stream.dimensions_are_taken_exactly`). -/

namespace ProofProse

/-! ### Words as they are written -/

/-- A word as it is written: behind spaces, and in small letters or capitals. -/
def IsWord (word : String) (tokens : List Token) : Prop :=
  ∃ (spaces : List Token) (letters : List Char), tokens = spaces ++ letters.map .char ∧
    AllSpaces spaces ∧ letters.map Char.toLower = word.toList

/-- Some tokens begin with a word. -/
def BeginsWith (word : String) (tokens : List Token) : Prop :=
  ∃ written behind, IsWord word written ∧ tokens = written ++ behind

/-- Of two words neither begins with the other. -/
def Apart (u w : String) : Prop := ¬u.toList <+: w.toList ∧ ¬w.toList <+: u.toList

instance (u w : String) : Decidable (Apart u w) := inferInstanceAs (Decidable (_ ∧ _))

variable {word u w : String} {tokens spaces written behind rest part measure : List Token}
  {s t : Stream} {n : Nat}

theorem Apart.symm (h : Apart u w) : Apart w u := ⟨h.2, h.1⟩

theorem Apart.ne_empty (h : Apart u w) : u ≠ "" := by
  rintro rfl
  exact h.1 List.nil_prefix

theorem spells_iff : ∀ {cs : List Char} {tokens : List Token}, spells cs tokens = true ↔
    ∃ (letters : List Char) (behind : List Token), tokens = letters.map .char ++ behind ∧
      letters.map Char.toLower = cs
  | [], tokens => by
    refine ⟨fun _ => ⟨[], tokens, rfl, rfl⟩, fun _ => ?_⟩
    cases tokens <;> rfl
  | c :: cs, [] => by
    refine ⟨nofun, ?_⟩
    rintro ⟨letters, behind, htokens, hletters⟩
    obtain ⟨hnil, -⟩ := List.append_eq_nil_iff.mp htokens.symm
    rw [List.map_eq_nil_iff.mp hnil] at hletters
    cases hletters
  | c :: cs, t :: tokens => by
    constructor
    · intro h
      cases t with
      | char d =>
        rw [spells, Bool.and_eq_true, beq_iff_eq] at h
        obtain ⟨letters, behind, htokens, hletters⟩ := spells_iff.mp h.2
        exact ⟨d :: letters, behind, by rw [htokens]; rfl, by rw [List.map_cons, h.1, hletters]⟩
      | _ => cases h
    · rintro ⟨letters, behind, htokens, hletters⟩
      cases letters with
      | nil => cases hletters
      | cons d letters =>
        obtain ⟨hd, hcs⟩ := List.cons.inj hletters
        obtain ⟨rfl, rfl⟩ := List.cons.inj htokens
        rw [spells, hd, beq_self_eq_true, Bool.true_and]
        exact spells_iff.mpr ⟨letters, behind, rfl, hcs⟩

theorem AllSpaces.append_inj {xs ys : List Token} (hxs : xs.head? ≠ some .space)
    (hys : ys.head? ≠ some .space) : ∀ {spaces spaces' : List Token}, AllSpaces spaces →
    AllSpaces spaces' → spaces ++ xs = spaces' ++ ys → spaces = spaces' ∧ xs = ys
  | [], [], _, _, h => ⟨rfl, h⟩
  | [], x :: spaces', _, h', h => by
    rw [List.nil_append] at h
    rw [h, List.cons_append, List.head?_cons, h' x List.mem_cons_self] at hxs
    exact absurd rfl hxs
  | x :: spaces, [], h, _, heq => by
    rw [List.nil_append] at heq
    rw [← heq, List.cons_append, List.head?_cons, h x List.mem_cons_self] at hys
    exact absurd rfl hys
  | x :: spaces, y :: spaces', h, h', heq => by
    obtain ⟨rfl, htail⟩ := List.cons.inj heq
    obtain ⟨rfl, hrest⟩ := AllSpaces.append_inj hxs hys (List.forall_mem_cons.mp h).2
      (List.forall_mem_cons.mp h').2 htail
    exact ⟨rfl, hrest⟩

theorem IsWord.ne_nil {letters : List Char} (hword : word ≠ "")
    (hletters : letters.map Char.toLower = word.toList) : letters ≠ [] := by
  rintro rfl
  exact hword (String.toList_eq_nil_iff.mp hletters.symm)

theorem head?_letters {letters : List Char} (hne : letters ≠ []) (rest : List Token) :
    (letters.map Token.char ++ rest).head? ≠ some .space := by
  obtain ⟨c, cs, rfl⟩ := List.exists_cons_of_ne_nil hne
  exact nofun

theorem beginsWith_spaces (hword : word ≠ "") (hspaces : AllSpaces spaces)
    (hhead : behind.head? ≠ some .space) :
    BeginsWith word (spaces ++ behind) ↔ spells word.toList behind = true := by
  constructor
  · rintro ⟨_, rest, ⟨spaces', letters, rfl, hspaces', hletters⟩, htokens⟩
    have hne := IsWord.ne_nil hword hletters
    rw [List.append_assoc] at htokens
    obtain ⟨-, rfl⟩ := hspaces.append_inj hhead (head?_letters hne rest) hspaces' htokens
    exact spells_iff.mpr ⟨letters, rest, rfl, hletters⟩
  · intro hspells
    obtain ⟨letters, rest, rfl, hletters⟩ := spells_iff.mp hspells
    exact ⟨_, rest, ⟨spaces, letters, rfl, hspaces, hletters⟩, (List.append_assoc ..).symm⟩

/-- **Only one of two words** of which neither begins with the other stands at a place. -/
theorem IsWord.not_beginsWith (h : IsWord u written) (hapart : Apart u w) (rest : List Token) :
    ¬BeginsWith w (written ++ rest) := by
  obtain ⟨spaces, letters, rfl, hspaces, hletters⟩ := h
  have hne := IsWord.ne_nil hapart.ne_empty hletters
  rw [List.append_assoc, beginsWith_spaces hapart.symm.ne_empty hspaces (head?_letters hne rest),
    spells_iff]
  rintro ⟨letters', behind, htokens, hletters'⟩
  have hprefix : letters.map Token.char <+: letters'.map .char ∨
      letters'.map Token.char <+: letters.map .char :=
    List.prefix_or_prefix_of_prefix (List.prefix_append _ rest) (htokens ▸ List.prefix_append _ _)
  have hchars : ∀ {xs ys : List Char}, xs.map Token.char <+: ys.map .char →
      xs.map Char.toLower <+: ys.map Char.toLower := fun h => by
    rw [List.prefix_map_iff_of_injective fun _ _ => Token.char.inj] at h
    exact h.map _
  rcases hprefix with h | h
  · exact hapart.1 (by rw [← hletters, ← hletters']; exact hchars h)
  · exact hapart.2 (by rw [← hletters, ← hletters']; exact hchars h)

namespace Stream

/-! ### Looking for words -/

/-- **A word is looked for** behind spaces. -/
theorem keyword?_spaces (hword : word ≠ "") (hspaces : AllSpaces spaces)
    (hhead : behind.head? ≠ some .space) (n : Nat) : keyword? ⟨spaces ++ behind, n⟩ word =
      if spells word.toList behind then
        some (skipOneSpace ⟨behind.drop word.length, n + spaces.length + word.length⟩)
      else none := by
  unfold keyword? pastSpaces?
  cases behind with
  | nil =>
    obtain ⟨c, cs, hcs⟩ := List.exists_cons_of_ne_nil (mt String.toList_eq_nil_iff.mp hword)
    rw [List.append_nil, pastSpacesFrom?_allSpaces hspaces, hcs]
    rfl
  | cons t behind =>
    rw [pastSpacesFrom?_spaces hspaces fun ht => hhead (congrArg some ht), Nat.zero_add]
    dsimp only
    rw [List.drop_left]
    split
    · next hspells =>
      obtain ⟨letters, rest, htokens, hletters⟩ := spells_iff.mp hspells
      have hlength : word.length = letters.length := by
        rw [← String.length_toList, ← hletters, List.length_map]
      have hskip := skip_append (spaces ++ letters.map .char) rest n
      rw [List.length_append, List.length_map, List.append_assoc, ← Nat.add_assoc] at hskip
      rw [htokens, hlength, hskip, List.drop_left' (List.length_map _)]
    · rfl

theorem keyword?_eq_none_iff (hword : word ≠ "") :
    s.keyword? word = none ↔ ¬BeginsWith word s.ahead := by
  obtain ⟨ahead, n⟩ := s
  obtain ⟨spaces, behind, rfl, hspaces, hhead⟩ := exists_spaces ahead
  rw [keyword?_spaces hword hspaces hhead, beginsWith_spaces hword hspaces hhead]
  split <;> simp_all

theorem keyword?_written (h : IsWord word written) (hword : word ≠ "") (rest : List Token)
    (n : Nat) : keyword? ⟨written ++ rest, n⟩ word =
      some (skipOneSpace ⟨rest, n + written.length⟩) := by
  obtain ⟨spaces, letters, rfl, hspaces, hletters⟩ := h
  have hhead := head?_letters (IsWord.ne_nil hword hletters) rest
  have hlength : word.length = letters.length := by
    rw [← String.length_toList, ← hletters, List.length_map]
  rw [List.append_assoc, keyword?_spaces hword hspaces hhead,
    if_pos (spells_iff.mpr ⟨letters, rest, rfl, hletters⟩), hlength,
    List.drop_left' (List.length_map _), List.length_append, List.length_map, Nat.add_assoc]

/-! ### Spaces in front -/

/-- `t` is left of `s` behind some of its leading spaces. -/
abbrev PastSpaces (s t : Stream) : Prop := Passed (· = .space) s t

theorem pastSpaces_append (hspaces : AllSpaces spaces) (behind : List Token) (n : Nat) :
    PastSpaces ⟨spaces ++ behind, n⟩ ⟨behind, n + spaces.length⟩ :=
  ⟨spaces, rfl, rfl, hspaces⟩

theorem PastSpaces.exists_spaces (h : PastSpaces s t) : ∃ spaces, AllSpaces spaces ∧
    s = ⟨spaces ++ t.ahead, s.consumed⟩ ∧ t = ⟨t.ahead, s.consumed + spaces.length⟩ := by
  obtain ⟨spaces, hahead, hconsumed, hspaces⟩ := h
  refine ⟨spaces, hspaces, ?_, ?_⟩
  · rw [← hahead]
  · rw [← hconsumed]

theorem pastSpaces_skipOneSpace (s : Stream) : PastSpaces s s.skipOneSpace := by
  unfold skipOneSpace
  split
  · next rest hs => exact passed_skip_one hs rfl
  · exact Passed.refl _ s

theorem PastSpaces.keyword?_eq (h : PastSpaces s t) (hword : word ≠ "") :
    t.keyword? word = s.keyword? word := by
  obtain ⟨spaces, hspaces, hs, ht⟩ := h.exists_spaces
  obtain ⟨spaces', behind, hahead, hspaces', hhead⟩ := ProofProse.exists_spaces t.ahead
  have hall : AllSpaces (spaces ++ spaces') := List.forall_mem_append.mpr ⟨hspaces, hspaces'⟩
  rw [hs, ht, hahead, ← List.append_assoc, keyword?_spaces hword hspaces' hhead,
    keyword?_spaces hword hall hhead, List.length_append, Nat.add_assoc s.consumed]

theorem PastSpaces.skipWhile_eq {f : Token → Bool} (h : PastSpaces s t) (hf : f .space = true) :
    t.skipWhile f = s.skipWhile f := by
  obtain ⟨spaces, hspaces, hs, ht⟩ := h.exists_spaces
  have hall : ∀ x ∈ spaces, f x = true := fun x hx => by rw [hspaces x hx, hf]
  rw [hs, ht]
  unfold skipWhile
  rw [passWhile_eq, passWhile_eq, List.dropWhile_append_of_pos hall,
    List.takeWhile_append_of_pos hall, List.length_append]
  dsimp only
  rw [Nat.add_assoc]

theorem PastSpaces.skipLength_eq (h : PastSpaces s t) : t.skipLength = s.skipLength := by
  unfold skipLength
  rw [h.skipWhile_eq rfl]

end Stream

/-! ### Dimensions as they are written -/

/-- What a length is measured in, as it is written: a register, a unit with or without the word for
true units, or a stretch of some strength. -/
inductive IsMeasure : List Token → Prop where
  | register (name : String) : IsMeasure [.control name]
  | unit {unit : String} {written : List Token} : unit ∈ units → IsWord unit written →
      IsMeasure written
  | trueUnit {unit : String} {front written : List Token} : IsWord "true" front →
      unit ∈ units → IsWord unit written → IsMeasure (front ++ written)
  | stretch {written letters : List Token} : IsWord "fil" written →
      (∀ t ∈ letters, t = .char 'l' ∨ t = .char 'L') → IsMeasure (written ++ letters)

/-- A length as it is written: signs with spaces, a decimal number, spaces, and a measure. -/
inductive IsLength : List Token → Prop where
  | mk {signs decimal spaces measure : List Token} :
      (∀ t ∈ signs, t = .space ∨ t = .char '+' ∨ t = .char '-') →
      (∀ t ∈ decimal, ∃ c, t = .char c ∧ (('0' ≤ c ∧ c ≤ '9') ∨ c = '.' ∨ c = ',')) →
      AllSpaces spaces → IsMeasure measure →
      IsLength (signs ++ decimal ++ spaces ++ measure)

/-- A part of a dimension that may be missing: a word and a length. -/
inductive IsPart (word : String) : List Token → Prop where
  | missing : IsPart word []
  | given {written length : List Token} : IsWord word written → IsLength length →
      IsPart word (written ++ length)

/-- A dimension as it is written: a length, and how far it may stretch and shrink. -/
inductive IsDimension : List Token → Prop where
  | mk {length plus minus : List Token} : IsLength length → IsPart "plus" plus →
      IsPart "minus" minus → IsDimension (length ++ plus ++ minus)

/-- Some tokens end in a stretch. -/
def EndsInStretch (tokens : List Token) : Prop :=
  ∃ front written letters, IsWord "fil" written ∧
    (∀ t ∈ letters, t = .char 'l' ∨ t = .char 'L') ∧ tokens = front ++ written ++ letters

theorem EndsInStretch.append (h : EndsInStretch tokens) (front : List Token) :
    EndsInStretch (front ++ tokens) := by
  obtain ⟨front', written, letters, hwritten, hletters, rfl⟩ := h
  exact ⟨front ++ front', written, letters, hwritten, hletters, by simp⟩

/-! ### What a measure begins with -/

theorem letters_of_word : ∀ word ∈ "true" :: "fil" :: units, word ≠ "" ∧
    word.toList.all ('a' ≤ ·) = true := by
  decide

theorem apart_units : ∀ unit ∈ units, Apart unit "true" ∧ Apart unit "fil" ∧
    ∀ other ∈ units, other ≠ unit → Apart unit other := by
  decide

/-- Neither a sign nor part of a number nor a space. -/
def StartsMeasure (t : Token) : Prop :=
  isSignOrSpace t = false ∧ isDecimalToken t = false ∧ t.isSpace = false

theorem toLower_eq_self {c : Char} (h : c ≤ '9') : c.toLower = c := by
  unfold Char.toLower
  rw [dif_neg]
  intro hupper
  exact absurd (UInt32.le_trans hupper.1 h) (by decide)

theorem startsMeasure_letter {c : Char} (h : 'a' ≤ c.toLower) : StartsMeasure (.char c) := by
  have hlate : ¬c ≤ '9' := fun hc => by
    rw [toLower_eq_self hc] at h
    exact absurd (Char.le_trans h hc) (by decide)
  have hne : ∀ d : Char, d ≤ '9' → (c == d) = false := fun d hd => by
    rw [beq_eq_false_iff_ne]
    rintro rfl
    exact hlate hd
  refine ⟨?_, ?_, rfl⟩
  · show (c == '+' || c == '-') = false
    rw [hne '+' (by decide), hne '-' (by decide)]
    rfl
  · show (Text.isDigit c || c == '.' || c == ',') = false
    unfold Text.isDigit
    rw [hne '.' (by decide), hne ',' (by decide), decide_eq_false hlate, Bool.and_false]
    rfl

namespace Stream

/-- Reads a measure that is written in letters. -/
def skipWords (s : Stream) : Stream :=
  let s := s.skipKeyword "true"
  match s.keyword? "fil" with
  | some s => (s.skipWhile isStretchLetter).skipOneSpace
  | none => s.skipUnit

/-- Reads what a length is measured in. -/
def skipMeasure (s : Stream) : Stream :=
  match s.ahead with
  | .control _ :: _ => s.skip 1
  | _ => s.skipWords

theorem skipLength_eq (s : Stream) : s.skipLength =
    (((s.skipWhile isSignOrSpace).skipWhile isDecimalToken).skipSpaces).skipMeasure := rfl

/-! ### Words of measures -/

theorem keyword?_apart (h : IsWord u written) (hapart : Apart u w)
    (ht : PastSpaces ⟨written ++ rest, n⟩ t) : t.keyword? w = none := by
  rw [ht.keyword?_eq hapart.symm.ne_empty, keyword?_eq_none_iff hapart.symm.ne_empty]
  exact h.not_beginsWith hapart rest

theorem keyword?_there (h : IsWord word written) (hword : word ≠ "")
    (ht : PastSpaces ⟨written ++ rest, n⟩ t) :
    t.keyword? word = some (skipOneSpace ⟨rest, n + written.length⟩) := by
  rw [ht.keyword?_eq hword, keyword?_written h hword]

theorem skipUnit_there {unit : String} (hunit : unit ∈ units) (h : IsWord unit written)
    (ht : PastSpaces ⟨written ++ rest, n⟩ t) :
    t.skipUnit = skipOneSpace ⟨rest, n + written.length⟩ := by
  have hword := letters_of_word unit (by simp [hunit])
  have hfound := keyword?_there h hword.1 ht
  have hother : ∀ other ∈ units, ∀ u, t.keyword? other = some u → other = unit := by
    intro other hmem u hu
    by_contra hne
    rw [keyword?_apart h ((apart_units unit hunit).2.2 other hmem hne) ht] at hu
    cases hu
  unfold skipUnit
  cases hfind : units.findSome? t.keyword? with
  | none =>
    rw [List.findSome?_eq_none_iff.mp hfind unit hunit] at hfound
    cases hfound
  | some u =>
    obtain ⟨other, hmem, hu⟩ := List.exists_of_findSome?_eq_some hfind
    rw [hother other hmem u hu, hfound] at hu
    exact (Option.some.inj hu).symm

theorem skipWords_unit {unit : String} (hunit : unit ∈ units) (h : IsWord unit written)
    (ht : PastSpaces ⟨written ++ rest, n⟩ t) :
    t.skipWords = skipOneSpace ⟨rest, n + written.length⟩ := by
  obtain ⟨htrue, hfil, -⟩ := apart_units unit hunit
  unfold skipWords skipKeyword
  rw [keyword?_apart h htrue ht, Option.getD_none]
  dsimp only
  rw [keyword?_apart h hfil ht]
  exact skipUnit_there hunit h ht

theorem skipWords_trueUnit {front : List Token} {unit : String} (hfront : IsWord "true" front)
    (hunit : unit ∈ units) (h : IsWord unit written)
    (ht : PastSpaces ⟨front ++ (written ++ rest), n⟩ t) :
    t.skipWords = skipOneSpace ⟨rest, n + (front.length + written.length)⟩ := by
  obtain ⟨-, hfil, -⟩ := apart_units unit hunit
  have hbehind := pastSpaces_skipOneSpace ⟨written ++ rest, n + front.length⟩
  unfold skipWords skipKeyword
  rw [keyword?_there hfront (by decide) ht, Option.getD_some]
  dsimp only
  rw [keyword?_apart h hfil hbehind, ← Nat.add_assoc]
  exact skipUnit_there hunit h hbehind

theorem isStretchLetter_iff {x : Token} :
    isStretchLetter x = true ↔ x = .char 'l' ∨ x = .char 'L' := by
  cases x <;> simp [isStretchLetter]

/-- Behind the spaces of what begins with no stretch letter there is none. -/
theorem PastSpaces.no_stretch (ht : PastSpaces ⟨rest, n⟩ t) (h : ¬BeginsWith "l" rest) :
    ∀ x ∈ t.ahead.head?, isStretchLetter x = false := by
  obtain ⟨spaces, hspaces, hs, -⟩ := ht.exists_spaces
  intro x hx
  rw [← Bool.not_eq_true, isStretchLetter_iff]
  intro hletter
  obtain ⟨behind, hbehind⟩ := List.head?_eq_some_iff.mp hx
  have hrest : rest = spaces ++ x :: behind := by
    rw [← hbehind]
    exact congrArg Stream.ahead hs
  refine h ⟨spaces ++ [x], behind, ?_, by rw [hrest]; simp⟩
  rcases hletter with rfl | rfl
  · exact ⟨spaces, ['l'], rfl, hspaces, by decide⟩
  · exact ⟨spaces, ['L'], rfl, hspaces, by decide⟩

theorem skipWords_stretch {letters : List Token} (h : IsWord "fil" written)
    (hletters : ∀ t ∈ letters, t = .char 'l' ∨ t = .char 'L') (hrest : ¬BeginsWith "l" rest)
    (ht : PastSpaces ⟨written ++ (letters ++ rest), n⟩ t) :
    PastSpaces ⟨rest, n + (written.length + letters.length)⟩ t.skipWords := by
  have hstretch : ∀ x ∈ letters, isStretchLetter x = true := fun x hx =>
    isStretchLetter_iff.mpr (hletters x hx)
  have hhere : ∀ x ∈ rest.head?, isStretchLetter x = false :=
    PastSpaces.no_stretch (Passed.refl _ ⟨rest, 0⟩) hrest
  unfold skipWords skipKeyword
  rw [keyword?_apart h (by decide) ht, Option.getD_none]
  dsimp only
  rw [keyword?_there h (by decide) ht, ← Nat.add_assoc]
  dsimp only
  cases letters with
  | nil =>
    have hspace := pastSpaces_skipOneSpace ⟨rest, n + written.length⟩
    rw [List.nil_append, skipWhile_of_head (hspace.no_stretch hrest)]
    exact hspace.trans (pastSpaces_skipOneSpace _)
  | cons x letters =>
    -- The letters follow at once, so there is no space to be read before them.
    have hnone : skipOneSpace ⟨x :: letters ++ rest, n + written.length⟩ =
        ⟨x :: letters ++ rest, n + written.length⟩ := by
      rcases hletters x List.mem_cons_self with rfl | rfl <;> rfl
    rw [hnone, skipWhile_append hstretch hhere]
    exact pastSpaces_skipOneSpace _

/-! ### Measures and lengths -/

theorem exists_letters (h : IsWord word written) (hword : word ∈ "true" :: "fil" :: units)
    (rest : List Token) (n : Nat) : ∃ spaces behind,
      written ++ rest = spaces ++ behind ∧ AllSpaces spaces ∧
      (∀ x ∈ behind.head?, StartsMeasure x) ∧
      skipMeasure ⟨behind, n + spaces.length⟩ = skipWords ⟨behind, n + spaces.length⟩ := by
  obtain ⟨hne, hall⟩ := letters_of_word word hword
  have hsmall : ∀ c ∈ word.toList, 'a' ≤ c := by simpa using hall
  obtain ⟨spaces, letters, rfl, hspaces, hletters⟩ := h
  obtain ⟨c, cs, rfl⟩ := List.exists_cons_of_ne_nil (IsWord.ne_nil hne hletters)
  refine ⟨spaces, (c :: cs).map .char ++ rest, List.append_assoc .., hspaces, ?_, rfl⟩
  rintro x ⟨⟩
  exact startsMeasure_letter (hsmall _ (by rw [← hletters]; exact List.mem_cons_self))

/-- **A measure** is read to its end. -/
theorem exists_skipMeasure (h : IsMeasure measure)
    (hrest : EndsInStretch measure → ¬BeginsWith "l" rest) (n : Nat) : ∃ spaces behind,
      measure ++ rest = spaces ++ behind ∧ AllSpaces spaces ∧
      (∀ x ∈ behind.head?, StartsMeasure x) ∧
      PastSpaces ⟨rest, n + measure.length⟩ (skipMeasure ⟨behind, n + spaces.length⟩) := by
  cases h with
  | register name =>
    refine ⟨[], .control name :: rest, rfl, nofun, ?_, Passed.refl _ _⟩
    rintro x ⟨⟩
    exact ⟨rfl, rfl, rfl⟩
  | unit hunit hwritten =>
    obtain ⟨spaces, behind, hahead, hspaces, hstart, hwords⟩ :=
      exists_letters hwritten (by simp [hunit]) rest n
    refine ⟨spaces, behind, hahead, hspaces, hstart, ?_⟩
    rw [hwords, skipWords_unit hunit hwritten (hahead ▸ pastSpaces_append hspaces behind n)]
    exact pastSpaces_skipOneSpace _
  | @trueUnit unit front written hfront hunit hwritten =>
    obtain ⟨spaces, behind, hahead, hspaces, hstart, hwords⟩ :=
      exists_letters hfront (by simp) (written ++ rest) n
    refine ⟨spaces, behind, by rw [List.append_assoc, hahead], hspaces, hstart, ?_⟩
    rw [hwords, skipWords_trueUnit hfront hunit hwritten
      (hahead ▸ pastSpaces_append hspaces behind n), List.length_append]
    exact pastSpaces_skipOneSpace _
  | @stretch written letters hwritten hletters =>
    obtain ⟨spaces, behind, hahead, hspaces, hstart, hwords⟩ :=
      exists_letters hwritten (by simp) (letters ++ rest) n
    refine ⟨spaces, behind, by rw [List.append_assoc, hahead], hspaces, hstart, ?_⟩
    rw [hwords, List.length_append]
    exact skipWords_stretch hwritten hletters
      (hrest ⟨[], written, letters, hwritten, hletters, rfl⟩)
      (hahead ▸ pastSpaces_append hspaces behind n)

theorem skip_front {signs decimal spaces : List Token}
    (hsigns : ∀ t ∈ signs, isSignOrSpace t = true)
    (hdecimal : ∀ t ∈ decimal, isDecimalToken t = true ∧ isSignOrSpace t = false)
    (hspaces : AllSpaces spaces) (hbehind : ∀ x ∈ behind.head?, StartsMeasure x) (n : Nat) :
    ((skipWhile ⟨signs ++ (decimal ++ (spaces ++ behind)), n⟩ isSignOrSpace).skipWhile
      isDecimalToken).skipSpaces =
      ⟨behind, n + (signs.length + (decimal.length + spaces.length))⟩ := by
  have hsign : ∀ x ∈ behind.head?, isSignOrSpace x = false := fun x hx => (hbehind x hx).1
  have hnumber : ∀ x ∈ behind.head?, isDecimalToken x = false := fun x hx => (hbehind x hx).2.1
  have hspace : ∀ x ∈ behind.head?, x.isSpace = false := fun x hx => (hbehind x hx).2.2
  cases decimal with
  | nil =>
    -- The spaces behind the signs are read with them.
    have hall : ∀ t ∈ signs ++ spaces, isSignOrSpace t = true := by
      intro t ht
      rcases List.mem_append.mp ht with ht | ht
      · exact hsigns t ht
      · rw [hspaces t ht]
        rfl
    rw [List.nil_append, ← List.append_assoc, skipWhile_append hall hsign,
      skipWhile_of_head hnumber, skipSpaces, skipWhile_of_head hspace, List.length_append]
    simp
  | cons d decimal =>
    have hfirst : ∀ x ∈ (d :: decimal ++ (spaces ++ behind)).head?, isSignOrSpace x = false := by
      rintro x ⟨⟩
      exact (hdecimal _ List.mem_cons_self).2
    have hlast : ∀ x ∈ (spaces ++ behind).head?, isDecimalToken x = false := by
      cases spaces with
      | nil => exact hnumber
      | cons y spaces =>
        rintro x ⟨⟩
        rw [hspaces y List.mem_cons_self]
        rfl
    rw [skipWhile_append hsigns hfirst, skipWhile_append (fun x hx => (hdecimal x hx).1) hlast,
      skipSpaces, skipWhile_append hspaces.isSpace hspace, Nat.add_assoc, Nat.add_assoc]

theorem isSignOrSpace_of_sign {x : Token} (h : x = .space ∨ x = .char '+' ∨ x = .char '-') :
    isSignOrSpace x = true := by
  rcases h with rfl | rfl | rfl <;> rfl

theorem isDecimalToken_of_decimal {x : Token}
    (h : ∃ c, x = .char c ∧ (('0' ≤ c ∧ c ≤ '9') ∨ c = '.' ∨ c = ',')) :
    isDecimalToken x = true ∧ isSignOrSpace x = false := by
  obtain ⟨c, rfl, hdigit | rfl | rfl⟩ := h
  · refine ⟨?_, ?_⟩
    · show (Text.isDigit c || c == '.' || c == ',') = true
      unfold Text.isDigit
      rw [decide_eq_true hdigit.1, decide_eq_true hdigit.2]
      rfl
    · show (c == '+' || c == '-') = false
      have hne : ∀ d : Char, d < '0' → (c == d) = false := fun d hd => by
        rw [beq_eq_false_iff_ne]
        rintro rfl
        exact absurd hdigit.1 (Char.not_le.mpr hd)
      rw [hne '+' (by decide), hne '-' (by decide)]
      rfl
  · exact ⟨rfl, rfl⟩
  · exact ⟨rfl, rfl⟩

/-- **A length** is read to its end. -/
theorem skipLength_written {length : List Token} (h : IsLength length)
    (hrest : EndsInStretch length → ¬BeginsWith "l" rest) (n : Nat) :
    PastSpaces ⟨rest, n + length.length⟩ (skipLength ⟨length ++ rest, n⟩) := by
  obtain @⟨signs, decimal, spaces, measure, hsigns, hdecimal, hspaces, hmeasure⟩ := h
  obtain ⟨blanks, behind, hahead, hblanks, hstart, hpast⟩ := exists_skipMeasure hmeasure
    (fun hends => hrest (hends.append _)) (n + (signs.length + (decimal.length + spaces.length)))
  have hall : AllSpaces (spaces ++ blanks) := List.forall_mem_append.mpr ⟨hspaces, hblanks⟩
  have hfront := skip_front (fun x hx => isSignOrSpace_of_sign (hsigns x hx))
    (fun x hx => isDecimalToken_of_decimal (hdecimal x hx))
    hall hstart n
  have htokens : signs ++ decimal ++ spaces ++ measure ++ rest =
      signs ++ (decimal ++ ((spaces ++ blanks) ++ behind)) := by
    simp only [List.append_assoc, hahead]
  rw [skipLength_eq, htokens, hfront]
  simp only [List.length_append, ← Nat.add_assoc] at hpast ⊢
  exact hpast

/-! ### Parts and dimensions -/

/-- A part is read to its end, and nothing is read where it is missing. -/
theorem skipPart_written (h : IsPart word part) (hword : word ≠ "")
    (hnone : part = [] → ¬BeginsWith word rest)
    (hrest : EndsInStretch part → ¬BeginsWith "l" rest)
    (ht : PastSpaces ⟨part ++ rest, n⟩ t) :
    PastSpaces ⟨rest, n + part.length⟩ (t.skipPart word) := by
  unfold skipPart
  cases h with
  | missing =>
    rw [ht.keyword?_eq hword, (keyword?_eq_none_iff hword).mpr (hnone rfl)]
    exact ht
  | @given written length hwritten hlength =>
    rw [List.append_assoc] at ht
    rw [keyword?_there hwritten hword ht, List.length_append, ← Nat.add_assoc]
    dsimp only
    rw [(pastSpaces_skipOneSpace _).skipLength_eq]
    exact skipLength_written hlength (fun hends => hrest (hends.append written)) _

end Stream

/-- Behind a part no word stands that is apart from the word of the part, unless the part is missing
and the word stands behind it. -/
theorem IsPart.not_beginsWith (h : IsPart u part) (hapart : Apart u w)
    (hrest : part = [] → ¬BeginsWith w rest) : ¬BeginsWith w (part ++ rest) := by
  cases h with
  | missing => exact hrest rfl
  | given hwritten _ =>
    rw [List.append_assoc]
    exact hwritten.not_beginsWith hapart _

/-- **Dimensions are taken exactly.** A dimension is read to its end, and of what is behind it at
most leading spaces are read, if it begins with no word that would continue the dimension. A word is
not found exactly if it does not stand there, and then nothing is read. -/
theorem Stream.dimensions_are_taken_exactly :
    (∀ (dimension rest : List Token) (count : Nat), IsDimension dimension →
      ¬BeginsWith "plus" rest → ¬BeginsWith "minus" rest →
      (EndsInStretch dimension → ¬BeginsWith "l" rest) →
      Passed (· = .space) ⟨rest, count + dimension.length⟩
        (skipDimension ⟨dimension ++ rest, count⟩)) ∧
    ∀ (s : Stream) (word : String),
      (word ≠ "" → (s.keyword? word = none ↔ ¬BeginsWith word s.ahead)) ∧
      (s.keyword? word = none → s.skipKeyword word = s ∧ s.skipPart word = s) := by
  refine ⟨fun dimension rest count hdimension hplus hminus hstretch => ?_, fun s word =>
    ⟨keyword?_eq_none_iff, fun hnone => ?_⟩⟩
  · obtain @⟨length, plus, minus, hlength, hpart, hpart'⟩ := hdimension
    -- A stretch is continued by letters only where all parts behind it are missing.
    have hbehind : EndsInStretch (length ++ plus) → ¬BeginsWith "l" (minus ++ rest) :=
      fun hends => hpart'.not_beginsWith (by decide) fun hnil => hstretch (by simpa [hnil])
    have hafter : EndsInStretch length → ¬BeginsWith "l" (plus ++ (minus ++ rest)) :=
      fun hends => hpart.not_beginsWith (by decide) fun hnil => hbehind (by simpa [hnil])
    have hfirst := skipLength_written hlength hafter count
    have hsecond := skipPart_written hpart (by decide)
      (fun _ => hpart'.not_beginsWith (by decide) fun _ => hplus)
      (fun hends => hbehind (hends.append length)) hfirst
    have hthird := skipPart_written hpart' (by decide) (fun _ => hminus)
      (fun hends => hstretch (hends.append _)) hsecond
    simp only [List.append_assoc, List.length_append, ← Nat.add_assoc]
    exact hthird
  · unfold skipKeyword skipPart
    rw [hnone]
    exact ⟨rfl, rfl⟩

/-- A text as tokens, if it has only letters, digits, signs and spaces. -/
def typed (text : String) : List Token :=
  text.toList.map fun c => if c = ' ' then .space else .char c

/-- A dimension with both parts is read up to the space before a word. -/
theorem Stream.dimension_before_a_word :
    (IsDimension (typed "-1.5 pt PLUS 2mm minus 1fill") ∧ ¬BeginsWith "plus" (typed " word") ∧
      ¬BeginsWith "minus" (typed " word") ∧ ¬BeginsWith "l" (typed " word")) ∧
    Passed (· = .space) ⟨typed " word", 0 + (typed "-1.5 pt PLUS 2mm minus 1fill").length⟩
      (skipDimension ⟨typed "-1.5 pt PLUS 2mm minus 1fill" ++ typed " word", 0⟩) := by
  have hlength : IsLength (typed "-" ++ typed "1.5" ++ typed " " ++ typed "pt") :=
    .mk (by decide) (by simp [typed]) (by decide)
      (.unit (by decide : "pt" ∈ units) ⟨[], "pt".toList, by decide, by decide, by decide⟩)
  have hmore : IsPart "plus" (typed " PLUS" ++ (typed " " ++ typed "2" ++ [] ++ typed "mm")) :=
    .given ⟨[.space], "PLUS".toList, by decide, by decide, by decide⟩
      (.mk (by decide) (by simp [typed]) nofun
        (.unit (by decide : "mm" ∈ units) ⟨[], "mm".toList, by decide, by decide, by decide⟩))
  have hless : IsPart "minus" (typed " minus" ++ (typed " " ++ typed "1" ++ [] ++
      (typed "fil" ++ typed "l"))) :=
    .given ⟨[.space], "minus".toList, by decide, by decide, by decide⟩
      (.mk (by decide) (by simp [typed]) nofun
        (.stretch ⟨[], "fil".toList, by decide, by decide, by decide⟩ (by decide)))
  have hdimension : IsDimension (typed "-1.5 pt PLUS 2mm minus 1fill") :=
    Eq.mp (congrArg IsDimension (by decide)) (IsDimension.mk hlength hmore hless)
  have hword : ∀ word, word ≠ "" → keyword? ⟨typed " word", 0⟩ word = none →
      ¬BeginsWith word (typed " word") := fun word hne => (keyword?_eq_none_iff hne).mp
  have hplus := hword "plus" (by decide) (by decide)
  have hminus := hword "minus" (by decide) (by decide)
  have hletter := hword "l" (by decide) (by decide)
  exact ⟨⟨hdimension, hplus, hminus, hletter⟩,
    dimensions_are_taken_exactly.1 _ _ 0 hdimension hplus hminus fun _ => hletter⟩

end ProofProse
