import ProofProse.Proofs.Line

/-! # The words of a text

The words of a text are what its blanks leave between them (`Text.words`), and its normal form is its
words with one space between any two (`Text.normalize_eq`): collapsing runs of blanks and trimming the
ends keep the words, and a line is told by them (`Text.IsLine.intercalate_words`).

A draft leaves gaps out as its pieces are pushed. It has the words of all the pieces nevertheless, so
its text is the normal form of all their characters, and a placeholder is a word of its own between
the words of what was pushed before it and the words of what was pushed behind it
(`Draft.render_drafted`). -/

namespace ProofProse

namespace Text

variable {b c : Char} {cs ds : List Char}

/-- The words of a text, which stand between its blanks. -/
def words (cs : List Char) : List (List Char) := (cs.splitOnP isBlank).filter (· ≠ [])

/-! ### Words at a blank -/

theorem words_nil : words [] = [] := rfl

/-- **A blank sets words apart.** -/
theorem words_append_cons (hb : isBlank b = true) (cs ds : List Char) :
    words (cs ++ b :: ds) = words cs ++ words ds := by
  unfold words
  rw [List.splitOnP_append_cons cs ds hb, List.filter_append]

theorem words_cons (hb : isBlank b = true) (cs : List Char) : words (b :: cs) = words cs :=
  words_append_cons hb [] cs

theorem words_blanks (hcs : ∀ c ∈ cs, isBlank c = true) : words cs = [] := by
  induction cs with
  | nil => exact words_nil
  | cons c cs ih =>
    rw [words_cons (hcs c List.mem_cons_self)]
    exact ih fun d hd => hcs d (List.mem_cons_of_mem c hd)

theorem isBlank_of_words_eq_nil (h : words cs = []) : ∀ c ∈ cs, isBlank c = true := by
  induction cs with
  | nil => exact nofun
  | cons c cs ih =>
    cases hc : isBlank c with
    | true =>
      rw [words_cons hc] at h
      exact List.forall_mem_cons.mpr ⟨hc, ih h⟩
    | false =>
      obtain ⟨w, ws, hws⟩ := List.exists_cons_of_ne_nil (List.splitOnP_ne_nil isBlank cs)
      unfold words at h
      rw [List.splitOnP_cons_eq_if_modifyHead, if_neg (by simp [hc]), hws] at h
      cases h

theorem words_append_blanks (hds : ∀ d ∈ ds, isBlank d = true) : words (cs ++ ds) = words cs := by
  cases ds with
  | nil => rw [List.append_nil]
  | cons d ds =>
    rw [words_append_cons (hds d List.mem_cons_self)]
    rw [words_blanks fun e he => hds e (List.mem_cons_of_mem d he), List.append_nil]

/-! ### Words of the normal form -/

theorem words_dropWhile (cs : List Char) : words (cs.dropWhile isBlank) = words cs := by
  induction cs with
  | nil => rfl
  | cons c cs ih =>
    rw [List.dropWhile_cons]
    split
    · next hc => rw [ih, words_cons hc]
    · rfl

theorem words_trimBy (cs : List Char) : words (trimBy isBlank cs) = words cs := by
  let front := cs.dropWhile isBlank
  have hfront : words front = words cs := words_dropWhile cs
  -- What is dropped off the back are the blanks that the reversed text begins with.
  have hcut : front = trimBy isBlank cs ++ (front.reverse.takeWhile isBlank).reverse := by
    unfold trimBy
    rw [← List.reverse_append, List.takeWhile_append_dropWhile, List.reverse_reverse]
  rw [← hfront, hcut, words_append_blanks fun c hc => ?_]
  exact List.all_eq_true.mp List.all_takeWhile c (List.mem_reverse.mp hc)

/-- While a run of blanks is being read, the space that stands for it has been written. -/
theorem words_collapseFrom : ∀ (cs : List Char) (gap : Bool) (out : List Char),
    (gap = true → out.head? = some ' ') →
    words (collapseFrom gap out cs) = words (out.reverse ++ cs)
  | [], _, out, _ => by rw [collapseFrom, List.append_nil]
  | c :: cs, gap, out, hgap => by
    have hspace : isBlank ' ' = true := by decide
    unfold collapseFrom
    split
    · next hc =>
      rw [words_append_cons hc]
      cases gap with
      | true =>
        obtain ⟨before, rfl⟩ := List.head?_eq_some_iff.mp (hgap rfl)
        rw [if_pos rfl, words_collapseFrom cs true _ hgap, List.reverse_cons]
        rw [List.append_assoc, List.singleton_append, words_append_cons hspace,
          words_append_cons hspace, words_nil, List.append_nil]
      | false =>
        rw [if_neg Bool.false_ne_true, words_collapseFrom cs true (' ' :: out) fun _ => rfl]
        rw [List.reverse_cons, List.append_assoc, List.singleton_append, words_append_cons hspace]
    · rw [words_collapseFrom cs false (c :: out) nofun, List.reverse_cons, List.append_assoc,
        List.singleton_append]

theorem words_normalize (cs : List Char) : words (normalize cs) = words cs :=
  (words_trimBy _).trans (words_collapseFrom cs false [] nofun)

/-! ### A line is told by its words -/

/-- Between two blanks of a line, in front of the first and behind the last, something stands. -/
theorem nil_notMem_splitOnP : ∀ {cs : List Char}, IsLine cs → [] ∉ cs.splitOnP isBlank
  | [], h => absurd rfl h.ne_nil
  | [c], h => by
    have hc := h.head c rfl
    rw [List.splitOnP_eq_singleton (by simpa using hc)]
    simp
  | c :: d :: cs, h => by
    have hc := h.head c rfl
    have hback : Spaced (d :: cs) := h.toSpaced.of_isInfix (List.suffix_cons c _).isInfix
    rw [List.splitOnP_cons_eq_if_modifyHead, if_neg (by simp [hc])]
    cases hd : isBlank d with
    | false =>
      have hline : IsLine (d :: cs) := by
        refine ⟨hback, List.cons_ne_nil d cs, ?_, fun e he => h.last e (by simpa using he)⟩
        rintro e ⟨⟩
        exact hd
      have hrest := nil_notMem_splitOnP hline
      obtain ⟨w, ws, hws⟩ := List.exists_cons_of_ne_nil (List.splitOnP_ne_nil isBlank (d :: cs))
      rw [hws] at hrest ⊢
      simpa using fun hmem => hrest (List.mem_cons_of_mem w hmem)
    | true =>
      rw [List.splitOnP_cons_eq_if_modifyHead, if_pos hd]
      cases cs with
      | nil =>
        have hlast := h.last d rfl
        rw [hd] at hlast
        cases hlast
      | cons e cs =>
        have he : isBlank e = false := by
          have hpair := (List.isChain_cons_cons.mp hback.single).1
          exact hpair.resolve_left (by simp [hd])
        have hline : IsLine (e :: cs) := by
          refine ⟨hback.of_isInfix (List.suffix_cons d _).isInfix, List.cons_ne_nil e cs, ?_,
            fun f hf => h.last f (by simpa using hf)⟩
          rintro f ⟨⟩
          exact he
        have hrest := nil_notMem_splitOnP hline
        simpa using hrest

theorem splitOnP_congr {p q : Char → Bool} (h : ∀ c ∈ cs, p c = q c) :
    cs.splitOnP p = cs.splitOnP q := by
  induction cs with
  | nil => rfl
  | cons c cs ih =>
    rw [List.splitOnP_cons_eq_if_modifyHead, List.splitOnP_cons_eq_if_modifyHead,
      h c List.mem_cons_self, ih fun d hd => h d (List.mem_cons_of_mem c hd)]

/-- **A line** is its words with one space between any two. -/
theorem IsLine.intercalate_words (h : IsLine cs) : [' '].intercalate (words cs) = cs := by
  have hall : words cs = cs.splitOnP isBlank := by
    refine List.filter_eq_self.mpr fun w hw => decide_eq_true ?_
    rintro rfl
    exact nil_notMem_splitOnP h hw
  have hspace : cs.splitOnP isBlank = cs.splitOn ' ' := by
    rw [List.splitOn_eq_splitOnP]
    refine splitOnP_congr fun c hc => ?_
    rw [Bool.eq_iff_iff, beq_iff_eq]
    refine ⟨h.blank c hc, ?_⟩
    rintro rfl
    decide
  rw [hall, hspace, List.intercalate_splitOn]

/-- **The normal form of a text** is its words with one space between any two. -/
theorem normalize_eq (cs : List Char) : normalize cs = [' '].intercalate (words cs) := by
  rw [← words_normalize cs]
  by_cases hne : normalize cs = []
  · rw [hne]
    rfl
  · exact (isLine_normalize hne).intercalate_words.symm

theorem normalize_eq_nil_iff : normalize cs = [] ↔ ∀ c ∈ cs, isBlank c = true := by
  refine ⟨fun h => isBlank_of_words_eq_nil ?_, fun h => ?_⟩
  · rw [← words_normalize, h, words_nil]
  · rw [normalize_eq, words_blanks h]
    rfl

theorem normalize_congr (h : words cs = words ds) : normalize cs = normalize ds := by
  rw [normalize_eq, normalize_eq, h]

end Text

/-! ### Drafts -/

theorem Placeholder.words_word (kind : Placeholder) :
    Text.words kind.word.toList = [kind.word.toList] := by
  cases kind <;> decide

theorem Placeholder.words_append_chars (kind : Placeholder) (cs ds : List Char) :
    Text.words (cs ++ ((Fragment.placeholder kind).chars ++ ds)) =
      Text.words cs ++ (kind.word.toList :: Text.words ds) := by
  have hspace : Text.isBlank ' ' = true := by decide
  have hshape : cs ++ ((Fragment.placeholder kind).chars ++ ds) =
      cs ++ ' ' :: (kind.word.toList ++ ' ' :: ds) := by
    simp [Fragment.chars]
  rw [hshape, Text.words_append_cons hspace, Text.words_append_cons hspace, kind.words_word]
  rfl

namespace Draft

/-- The draft into which pieces have been pushed, first one first. -/
def drafted (fragments : List Fragment) : Draft := fragments.foldl Draft.push {}

theorem words_push (draft : Draft) (fragment : Fragment) (cs : List Char) :
    Text.words ((draft.push fragment).toList.flatMap Fragment.chars ++ cs) =
      Text.words (draft.toList.flatMap Fragment.chars ++ (fragment.chars ++ cs)) := by
  have hspace : Text.isBlank ' ' = true := by decide
  unfold push
  split
  · next fragments hgap =>
    have hlast : draft.toList.flatMap Fragment.chars =
        fragments.reverse.flatMap Fragment.chars ++ [' '] := by
      simp [toList, hgap, Fragment.chars]
    rw [hlast, List.append_assoc, List.append_assoc, List.singleton_append, List.singleton_append]
    rw [Text.words_append_cons hspace, Text.words_append_cons hspace]
    exact congrArg _ (Text.words_cons hspace cs).symm
  · simp [toList]

theorem words_foldl_push : ∀ (fragments : List Fragment) (draft : Draft) (cs : List Char),
    Text.words ((fragments.foldl push draft).toList.flatMap Fragment.chars ++ cs) =
      Text.words (draft.toList.flatMap Fragment.chars ++ (fragments.flatMap Fragment.chars ++ cs))
  | [], _, _ => rfl
  | fragment :: fragments, draft, cs => by
    rw [List.foldl_cons, words_foldl_push fragments (draft.push fragment) cs, words_push]
    rw [List.flatMap_cons, List.append_assoc]

/-- **A draft has the words of all its pieces.** -/
theorem words_drafted (fragments : List Fragment) :
    Text.words ((drafted fragments).toList.flatMap Fragment.chars) =
      Text.words (fragments.flatMap Fragment.chars) := by
  have hall := words_foldl_push fragments {} []
  rw [List.append_nil, List.append_nil] at hall
  exact hall

theorem renderChars_drafted (fragments : List Fragment) :
    (drafted fragments).renderChars = normalize (fragments.flatMap Fragment.chars) :=
  Text.normalize_congr (words_drafted fragments)

theorem words_render (fragments : List Fragment) :
    Text.words (drafted fragments).render.toList =
      Text.words (fragments.flatMap Fragment.chars) := by
  unfold render
  rw [String.toList_ofList, renderChars_drafted, Text.words_normalize]

/-- **The text of a draft** is the normal form of the characters of all the pieces that were pushed
into it, which is their words with one space between any two. A placeholder is a word between the
words of what was pushed before it and the words of what was pushed behind it. -/
theorem render_drafted (xs ys : List Fragment) (kind : Placeholder) :
    (drafted xs).render = String.ofList (normalize (xs.flatMap Fragment.chars)) ∧
    (drafted xs).render =
      String.ofList ([' '].intercalate (Text.words (xs.flatMap Fragment.chars))) ∧
    Text.words (drafted (xs ++ .placeholder kind :: ys)).render.toList =
      Text.words (drafted xs).render.toList ++
        (kind.word.toList :: Text.words (drafted ys).render.toList) := by
  have hrender : (drafted xs).render = String.ofList (normalize (xs.flatMap Fragment.chars)) :=
    congrArg String.ofList (renderChars_drafted xs)
  refine ⟨hrender, ?_, ?_⟩
  · rw [hrender, Text.normalize_eq]
  · rw [words_render, words_render, words_render, List.flatMap_append, List.flatMap_cons]
    exact kind.words_append_chars _ _

/-- A gap behind a gap, a text that begins with a blank, and two markers in a row. -/
example : (drafted [.char 'a', .space, .space, .text "\n b ", .space, .placeholder .math,
    .placeholder .citation, .char 'c']).render = "a b MATH CITE c" := by
  decide

end Draft

end ProofProse
