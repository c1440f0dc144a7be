import ProofProse.Source

/-! # Prepared sources

A prepared source has no carriage return, no comment and no blank line (`Source.IsPrepared`). The
three passes of the preparation each bring about one part and keep those before it: what they write
behind a backslash, a newline or a percent sign is what stood there, or begins with a blank. So one
preparation is enough, and a second one changes nothing (`Source.prepare_reaches_normal_form`).

The parts that speak of what stands before a percent sign or behind a newline are said again by
recursion from left to right (`EscapedFrom`, `PartedFrom`), with what the text before them ends in as
a flag; this is the form in which the passes keep them. -/

namespace ProofProse

/-- What a transducer writes has a property, if every step writes so from the states that satisfy
`I`, and stays among them. -/
theorem Text.Transducer.forall_output {σ α β : Type} (t : Text.Transducer σ α β) {I : σ → Prop}
    {P : α → Prop} {Q : β → Prop}
    (hstep : ∀ s x, I s → P x → I (t.step s x).1 ∧ ∀ y ∈ (t.step s x).2, Q y)
    (hfinish : ∀ s, I s → ∀ y ∈ t.finish s, Q y) :
    ∀ (xs : List α) (s : σ), I s → (∀ x ∈ xs, P x) → ∀ y ∈ t.output s xs, Q y
  | [], s, hs, _ => hfinish s hs
  | x :: xs, s, hs, hxs => by
    obtain ⟨hnext, hwritten⟩ := hstep s x hs (hxs x List.mem_cons_self)
    intro y hy
    rcases List.mem_append.mp hy with hy | hy
    · exact hwritten y hy
    · exact t.forall_output hstep hfinish xs _ hnext
        (fun z hz => hxs z (List.mem_cons_of_mem x hz)) y hy

namespace Source

open Text (isMargin)

variable {c : Char} {cs blanks : List Char} {odd begun word : Bool}

/-! ### The normal form -/

/-- How many backslashes a text ends in. -/
def backslashes (cs : List Char) : Nat := (cs.reverse.takeWhile (· == '\\')).length

/-- A text whose first line is blank: spaces and tabs only stand before its first newline. -/
def BeginsBlank (cs : List Char) : Prop :=
  ∃ line behind, cs = line ++ '\n' :: behind ∧ ∀ c ∈ line, isMargin c = true

/-- A source that needs no preparation. -/
structure IsPrepared (cs : List Char) : Prop where
  /-- There is no carriage return. -/
  unreturned : '\r' ∉ cs
  /-- Every percent sign is escaped: the number of backslashes before it is odd. -/
  escaped : ∀ before behind, cs = before ++ '%' :: behind → backslashes before % 2 = 1
  /-- No newline has another one behind spaces and tabs. -/
  parted : ∀ before behind, cs = before ++ '\n' :: behind → ¬BeginsBlank behind

/-- Every percent sign is escaped; `odd` tells of the number of backslashes in front of the text. -/
def EscapedFrom (odd : Bool) : List Char → Prop
  | [] => True
  | c :: cs =>
    if c = '\\' then EscapedFrom (!odd) cs else (c = '%' → odd = true) ∧ EscapedFrom false cs

/-- No line is blank; `begun` tells that a line has begun in front of the text and is blank so far.
-/
def PartedFrom (begun : Bool) : List Char → Prop
  | [] => True
  | c :: cs =>
    if c = '\n' then begun = false ∧ PartedFrom true cs else PartedFrom (begun && isMargin c) cs

/-! ### The two forms agree -/

/-- The places of a character in a text are its front and the places behind it. -/
theorem forall_split_cons {d : Char} {P : List Char → List Char → Prop} :
    (∀ before behind, c :: cs = before ++ d :: behind → P before behind) ↔
      (c = d → P [] cs) ∧ ∀ before behind, cs = before ++ d :: behind → P (c :: before) behind := by
  constructor
  · intro h
    refine ⟨fun hc => h [] cs (by rw [hc]; rfl), fun before behind hcs => ?_⟩
    exact h (c :: before) behind (by rw [hcs]; rfl)
  · rintro ⟨hfront, hrest⟩ before behind hcs
    cases before with
    | nil =>
      obtain ⟨hc, rfl⟩ := List.cons.inj hcs
      exact hfront hc
    | cons b before =>
      obtain ⟨rfl, hrests⟩ := List.cons.inj hcs
      exact hrest before behind hrests

theorem backslashes_concat (cs : List Char) (c : Char) :
    backslashes (cs ++ [c]) = if c = '\\' then backslashes cs + 1 else 0 := by
  unfold backslashes
  by_cases hc : c = '\\' <;> simp [hc]

/-- By induction on the text behind a front that ends in some backslashes. -/
theorem escapedFrom_iff : ∀ cs front : List Char,
    EscapedFrom (backslashes front % 2 == 1) cs ↔
      ∀ before behind, cs = before ++ '%' :: behind → backslashes (front ++ before) % 2 = 1
  | [], front => by simp [EscapedFrom]
  | c :: cs, front => by
    have hrest := escapedFrom_iff cs (front ++ [c])
    rw [backslashes_concat] at hrest
    rw [forall_split_cons, List.append_nil]
    simp only [List.append_assoc, List.singleton_append] at hrest
    unfold EscapedFrom
    by_cases hc : c = '\\'
    · have hflip : ((backslashes front + 1) % 2 == 1) = !(backslashes front % 2 == 1) := by
        rcases Nat.mod_two_eq_zero_or_one (backslashes front) with h | h <;>
          simp [Nat.add_mod, h]
      rw [if_pos hc, hflip] at hrest
      rw [if_pos hc, ← hrest]
      have hpercent : c ≠ '%' := by rw [hc]; decide
      simp [hpercent]
    · rw [if_neg hc] at hrest
      rw [if_neg hc, ← hrest]
      simp

theorem not_beginsBlank_nil : ¬BeginsBlank [] := by
  rintro ⟨line, behind, hcs, -⟩
  exact List.append_ne_nil_of_right_ne_nil line (List.cons_ne_nil _ _) hcs.symm

theorem beginsBlank_cons :
    BeginsBlank (c :: cs) ↔ c = '\n' ∨ isMargin c = true ∧ BeginsBlank cs := by
  constructor
  · rintro ⟨line, behind, hcs, hline⟩
    cases line with
    | nil => exact .inl (List.cons.inj hcs).1
    | cons b line =>
      obtain ⟨rfl, hrest⟩ := List.cons.inj hcs
      refine .inr ⟨hline c List.mem_cons_self, line, behind, hrest, fun d hd => ?_⟩
      exact hline d (List.mem_cons_of_mem c hd)
  · rintro (rfl | ⟨hc, line, behind, rfl, hline⟩)
    · exact ⟨[], cs, rfl, nofun⟩
    · exact ⟨c :: line, behind, rfl, List.forall_mem_cons.mpr ⟨hc, hline⟩⟩

/-- A line that has begun goes on with more than blanks, and no line behind it is blank. -/
theorem partedFrom_true_iff : ∀ cs : List Char,
    PartedFrom true cs ↔ ¬BeginsBlank cs ∧ PartedFrom false cs
  | [] => by simp [PartedFrom, not_beginsBlank_nil]
  | c :: cs => by
    rw [beginsBlank_cons]
    unfold PartedFrom
    by_cases hc : c = '\n'
    · simp [hc]
    · rw [if_neg hc, if_neg hc, Bool.true_and, Bool.false_and]
      cases hmargin : isMargin c with
      | true =>
        rw [partedFrom_true_iff cs]
        simp [hc]
      | false => simp [hc]

theorem partedFrom_false_iff : ∀ cs : List Char, PartedFrom false cs ↔
    ∀ before behind, cs = before ++ '\n' :: behind → ¬BeginsBlank behind
  | [] => by simp [PartedFrom]
  | c :: cs => by
    rw [forall_split_cons, ← partedFrom_false_iff cs]
    by_cases hc : c = '\n'
    · have hcons : PartedFrom false (c :: cs) ↔ PartedFrom true cs := by simp [PartedFrom, hc]
      rw [hcons, partedFrom_true_iff cs]
      simp [hc]
    · simp [PartedFrom, hc]

theorem isPrepared_iff : IsPrepared cs ↔ '\r' ∉ cs ∧ EscapedFrom false cs ∧ PartedFrom false cs := by
  rw [partedFrom_false_iff cs]
  have hescaped := escapedFrom_iff cs []
  have hfront : (backslashes [] % 2 == 1) = false := rfl
  rw [hfront] at hescaped
  rw [hescaped]
  exact ⟨fun h => ⟨h.unreturned, h.escaped, h.parted⟩, fun ⟨h, h', h''⟩ => ⟨h, h', h''⟩⟩

/-! ### Blanks -/

theorem isMargin_newline : isMargin '\n' = false := by decide

/-- What a mode holds back are blanks of a line. -/
def Margins (blanks : List Char) : Prop := ∀ c ∈ blanks, isMargin c = true

theorem Margins.ne (h : Margins blanks) {d : Char} (hd : isMargin d = false) (hc : c ∈ blanks) :
    c ≠ d := by
  rintro rfl
  exact Bool.false_ne_true (hd.symm.trans (h c hc))

theorem Margins.cons (hc : isMargin c = true) (h : Margins blanks) : Margins (c :: blanks) :=
  List.forall_mem_cons.mpr ⟨hc, h⟩

theorem Margins.reverse (h : Margins blanks) : Margins blanks.reverse :=
  fun c hc => h c (List.mem_reverse.mp hc)

theorem Margins.returns_line (h : Margins blanks) : ∀ d ∈ '\n' :: blanks.reverse, d ≠ '\r' :=
  List.forall_mem_cons.mpr ⟨by decide, fun _ hd => h.reverse.ne (by decide) hd⟩

theorem escapedFrom_cons (hslash : c ≠ '\\') (hpercent : c ≠ '%') :
    EscapedFrom odd (c :: cs) ↔ EscapedFrom false cs := by
  simp [EscapedFrom, hslash, hpercent]

theorem Margins.escapedFrom_iff : ∀ {blanks : List Char}, Margins blanks →
    (EscapedFrom false (blanks ++ cs) ↔ EscapedFrom false cs)
  | [], _ => Iff.rfl
  | c :: blanks, h => by
    have hc : c ∈ c :: blanks := List.mem_cons_self
    have hrest : Margins blanks := fun d hd => h d (List.mem_cons_of_mem c hd)
    rw [List.cons_append, escapedFrom_cons (h.ne (by decide) hc) (h.ne (by decide) hc),
      hrest.escapedFrom_iff]

/-- A newline and blanks stand between what is before them and what is behind. -/
theorem escapedFrom_line (h : Margins blanks) :
    EscapedFrom odd ('\n' :: blanks.reverse ++ cs) ↔ EscapedFrom false cs := by
  rw [List.cons_append, escapedFrom_cons (by decide) (by decide), h.reverse.escapedFrom_iff]

theorem escapedFrom_lineEnd (h : Margins blanks) : EscapedFrom odd ('\n' :: blanks.reverse) := by
  rw [← List.append_nil ('\n' :: blanks.reverse)]
  exact (escapedFrom_line h).mpr trivial

theorem partedFrom_cons (hc : c ≠ '\n') (hmargin : begun = true → isMargin c = false) :
    PartedFrom begun (c :: cs) ↔ PartedFrom false cs := by
  have hline : (begun && isMargin c) = false := by
    cases begun with
    | false => rfl
    | true => exact hmargin rfl
  simp [PartedFrom, hc, hline]

theorem Margins.partedFrom_iff : ∀ {blanks : List Char}, Margins blanks →
    (PartedFrom begun (blanks ++ cs) ↔ PartedFrom begun cs)
  | [], _ => Iff.rfl
  | c :: blanks, h => by
    have hc : c ∈ c :: blanks := List.mem_cons_self
    have hne : c ≠ '\n' := h.ne isMargin_newline hc
    have hrest : Margins blanks := fun d hd => h d (List.mem_cons_of_mem c hd)
    have hline : (begun && isMargin c) = begun := by rw [h c hc, Bool.and_true]
    have hcons : PartedFrom begun (c :: (blanks ++ cs)) ↔ PartedFrom begun (blanks ++ cs) := by
      simp only [PartedFrom, if_neg hne, hline]
    exact hcons.trans hrest.partedFrom_iff

theorem partedFrom_line (h : Margins blanks) :
    PartedFrom false ('\n' :: blanks.reverse ++ cs) ↔ PartedFrom true cs := by
  have hcons : PartedFrom false ('\n' :: blanks.reverse ++ cs) ↔
      PartedFrom true (blanks.reverse ++ cs) := by simp [PartedFrom]
  rw [hcons, h.reverse.partedFrom_iff]

/-! ### Line ends -/

theorem unifyLineEnds_eq_output (cs : List Char) : unifyLineEnds cs = lineEnds.output false cs :=
  lineEnds.run_eq_output cs

theorem returns_unifyLineEnds (cs : List Char) : '\r' ∉ unifyLineEnds cs := by
  rw [unifyLineEnds_eq_output]
  have hout : ∀ y ∈ lineEnds.output lineEnds.start cs, y ≠ '\r' := by
    refine lineEnds.forall_output (I := fun _ => True) (P := fun _ => True) (fun s x _ _ => ?_)
      (fun _ _ => nofun) cs _ trivial fun _ _ => trivial
    refine ⟨trivial, ?_⟩
    show ∀ y ∈ (if x == '\r' then (true, ['\n'])
      else if s && x == '\n' then (false, []) else (false, [x])).2, y ≠ '\r'
    split
    · simp
    · next hx =>
      split
      · simp
      · simpa using hx
  exact fun hr => hout _ hr rfl

theorem unifyLineEnds_eq_self (h : '\r' ∉ cs) : unifyLineEnds cs = cs := by
  rw [unifyLineEnds_eq_output]
  induction cs with
  | nil => rfl
  | cons c cs ih =>
    have hc : c ≠ '\r' := fun hc => h (hc ▸ List.mem_cons_self)
    have hcs : '\r' ∉ cs := fun hmem => h (List.mem_cons_of_mem c hmem)
    have hstep : lineEnds.step false c = (false, [c]) := by
      simp [lineEnds, hc]
    rw [Text.Transducer.output, hstep, ih hcs]
    rfl

/-! ### Comments -/

namespace CommentMode

/-- The blanks that are held. -/
def held : CommentMode → List Char
  | margin _ blanks => blanks
  | _ => []

/-- The text written so far ends in an odd number of backslashes. -/
def escapes : CommentMode → Bool
  | escape => true
  | _ => false

/-- What is read now is written. -/
def inText : CommentMode → Bool
  | text _ => true
  | escape => true
  | _ => false

end CommentMode

theorem returns_commentStep {mode : CommentMode} (hmode : Margins mode.held) (hc : c ≠ '\r') :
    Margins (commentStep mode c).1.held ∧ ∀ d ∈ (commentStep mode c).2, d ≠ '\r' := by
  have htext : ∀ word, Margins (commentText word c).1.held ∧
      ∀ d ∈ (commentText word c).2, d ≠ '\r' := by
    intro word
    unfold commentText
    split
    · exact ⟨nofun, by simpa using hc⟩
    split
    · exact ⟨nofun, nofun⟩
    · exact ⟨nofun, by simpa using hc⟩
  cases mode with
  | text word => exact htext word
  | escape => exact ⟨nofun, by simpa [commentStep] using hc⟩
  | comment word =>
    unfold commentStep
    dsimp only
    split
    · exact ⟨nofun, nofun⟩
    · exact ⟨nofun, nofun⟩
  | margin word blanks =>
    unfold commentStep
    dsimp only
    split
    · next hmargin => exact ⟨hmode.cons hmargin, nofun⟩
    split
    · refine ⟨nofun, fun d hd => ?_⟩
      rcases List.mem_append.mp hd with hd | hd
      · exact Margins.returns_line hmode d hd
      · rw [List.mem_singleton.mp hd]
        decide
    · refine ⟨(htext false).1, ?_⟩
      split
      · exact List.forall_mem_cons.mpr ⟨by decide, (htext false).2⟩
      · exact (htext false).2

theorem returns_commentEnd {mode : CommentMode} (hmode : Margins mode.held) :
    ∀ d ∈ commentEnd mode, d ≠ '\r' := by
  cases mode with
  | margin word blanks => exact Margins.returns_line hmode
  | _ => exact nofun

theorem stripComments_eq_output (cs : List Char) :
    stripComments cs = comments.output (.text false) cs :=
  comments.run_eq_output cs

theorem returns_stripComments (h : '\r' ∉ cs) : '\r' ∉ stripComments cs := by
  rw [stripComments_eq_output]
  have hout := comments.forall_output (I := fun mode => Margins mode.held) (P := (· ≠ '\r'))
    (Q := (· ≠ '\r')) (fun _ _ => returns_commentStep) (fun _ => returns_commentEnd) cs
    comments.start nofun (fun c hc => ne_of_mem_of_not_mem hc h)
  exact fun hr => hout _ hr rfl

/-- **No comment is left**: by induction on the text, what is written from a mode on is escaped
behind what was written before. -/
theorem escapedFrom_comments : ∀ (cs : List Char) (mode : CommentMode), Margins mode.held →
    EscapedFrom mode.escapes (comments.output mode cs)
  | [], mode, hmode => by
    cases mode with
    | margin word blanks => exact escapedFrom_lineEnd hmode
    | _ => trivial
  | c :: cs, mode, hmode => by
    have hrest := escapedFrom_comments cs
    have htext : ∀ word, EscapedFrom false
        ((commentText word c).2 ++ comments.output (commentText word c).1 cs) := by
      intro word
      unfold commentText
      split
      · next hc =>
        have hslash : c = '\\' := beq_iff_eq.mp hc
        have hbehind : EscapedFrom true (comments.output .escape cs) := hrest .escape nofun
        simpa [EscapedFrom, hslash] using hbehind
      split
      · exact hrest (.comment word) nofun
      · next hslash hpercent =>
        refine (escapedFrom_cons (mt beq_iff_eq.mpr hslash) (mt beq_iff_eq.mpr hpercent)).mpr ?_
        exact hrest (.text _) nofun
    cases mode with
    | text word => exact htext word
    | escape =>
      have hbehind := hrest (.text (Lexer.isNameLetter c)) nofun
      show EscapedFrom true (c :: comments.output (.text (Lexer.isNameLetter c)) cs)
      unfold EscapedFrom
      split
      · exact hbehind
      · exact ⟨fun _ => rfl, hbehind⟩
    | comment word =>
      show EscapedFrom false ((commentStep (.comment word) c).2 ++
        comments.output (commentStep (.comment word) c).1 cs)
      unfold commentStep
      dsimp only
      split
      · exact hrest (.margin word []) nofun
      · exact hrest (.comment word) nofun
    | margin word blanks =>
      show EscapedFrom false ((commentStep (.margin word blanks) c).2 ++
        comments.output (commentStep (.margin word blanks) c).1 cs)
      unfold commentStep
      dsimp only
      split
      · next hc => exact hrest (.margin word (c :: blanks)) (hmode.cons hc)
      split
      · rw [List.append_assoc]
        have hblanks : Margins blanks := hmode
        refine (escapedFrom_line hblanks).mpr ?_
        exact (escapedFrom_cons (by decide) (by decide)).mpr (hrest (.text false) nofun)
      · cases word with
        | true => exact (escapedFrom_cons (by decide) (by decide)).mpr (htext false)
        | false => exact htext false

theorem escapedFrom_stripComments (cs : List Char) : EscapedFrom false (stripComments cs) := by
  rw [stripComments_eq_output]
  exact escapedFrom_comments cs (.text false) nofun

/-- An escaped percent sign is written, like every other character, and begins no comment. -/
theorem commentStep_of_escapedFrom {mode : CommentMode} (hmode : mode.inText = true)
    (h : EscapedFrom mode.escapes (c :: cs)) :
    (commentStep mode c).2 = [c] ∧ (commentStep mode c).1.inText = true ∧
      EscapedFrom (commentStep mode c).1.escapes cs := by
  unfold EscapedFrom at h
  cases mode with
  | text word =>
    show (commentText word c).2 = [c] ∧ (commentText word c).1.inText = true ∧
      EscapedFrom (commentText word c).1.escapes cs
    unfold commentText
    by_cases hslash : c = '\\'
    · rw [if_pos hslash] at h
      rw [if_pos (beq_iff_eq.mpr hslash)]
      exact ⟨rfl, rfl, h⟩
    · rw [if_neg hslash] at h
      have hpercent : c ≠ '%' := fun hc => Bool.false_ne_true (h.1 hc)
      rw [if_neg (mt beq_iff_eq.mp hslash), if_neg (mt beq_iff_eq.mp hpercent)]
      exact ⟨rfl, rfl, h.2⟩
  | escape =>
    refine ⟨rfl, rfl, ?_⟩
    split at h
    · exact h
    · exact h.2
  | comment word => cases hmode
  | margin word blanks => cases hmode

/-- Where every percent sign is escaped, all is written and no comment is begun. -/
theorem comments_of_escapedFrom : ∀ (cs : List Char) (mode : CommentMode), mode.inText = true →
    EscapedFrom mode.escapes cs →
    comments.written mode cs = cs ∧ (comments.after mode cs).inText = true
  | [], _, hmode, _ => ⟨rfl, hmode⟩
  | c :: cs, mode, hmode, h => by
    obtain ⟨hwritten, hnext, hrest⟩ := commentStep_of_escapedFrom hmode h
    obtain ⟨hall, hafter⟩ := comments_of_escapedFrom cs _ hnext hrest
    refine ⟨?_, hafter⟩
    show (commentStep mode c).2 ++ comments.written (commentStep mode c).1 cs = c :: cs
    rw [hwritten, hall]
    rfl

theorem commentEnd_of_inText {mode : CommentMode} (h : mode.inText = true) :
    commentEnd mode = [] := by
  cases mode with
  | margin word blanks => cases h
  | _ => rfl

theorem stripComments_eq_self (h : EscapedFrom false cs) : stripComments cs = cs := by
  obtain ⟨hwritten, hafter⟩ := comments_of_escapedFrom cs (.text false) rfl h
  rw [stripComments_eq_output, Text.Transducer.output_eq]
  show comments.written (.text false) cs ++ commentEnd (comments.after (.text false) cs) = cs
  rw [hwritten, commentEnd_of_inText hafter, List.append_nil]

/-! ### Paragraphs -/

namespace ParagraphMode

/-- The blanks that are held. -/
def held : ParagraphMode → List Char
  | newline blanks => blanks
  | _ => []

/-- Nothing is held: what is read next is written behind what was written before. -/
def inLine : ParagraphMode → Bool
  | line => true
  | _ => false

end ParagraphMode

theorem escapedFrom_mark : EscapedFrom odd (paragraphMark ++ cs) ↔ EscapedFrom false cs := by
  simp [paragraphMark, EscapedFrom]

theorem partedFrom_mark : PartedFrom false (paragraphMark ++ cs) ↔ PartedFrom false cs := by
  simp [paragraphMark, PartedFrom]

theorem returns_paragraphMark : ∀ d ∈ paragraphMark, d ≠ '\r' := by
  have hmark : '\r' ∉ paragraphMark := by decide
  exact fun d hd => ne_of_mem_of_not_mem hd hmark

theorem returns_paragraphStep {mode : ParagraphMode} (hmode : Margins mode.held) (hc : c ≠ '\r') :
    Margins (paragraphStep mode c).1.held ∧ ∀ d ∈ (paragraphStep mode c).2, d ≠ '\r' := by
  have hmark := returns_paragraphMark
  cases mode with
  | line =>
    unfold paragraphStep
    dsimp only
    split
    · exact ⟨nofun, nofun⟩
    · exact ⟨nofun, by simpa using hc⟩
  | newline blanks =>
    unfold paragraphStep
    dsimp only
    split
    · next hmargin => exact ⟨hmode.cons hmargin, nofun⟩
    split
    · exact ⟨nofun, nofun⟩
    · refine ⟨nofun, fun d hd => ?_⟩
      rcases List.mem_append.mp hd with hd | hd
      · exact Margins.returns_line hmode d hd
      · rwa [List.mem_singleton.mp hd]
  | gap =>
    unfold paragraphStep
    dsimp only
    split
    · exact ⟨nofun, nofun⟩
    · refine ⟨nofun, fun d hd => ?_⟩
      rcases List.mem_append.mp hd with hd | hd
      · exact hmark d hd
      · rwa [List.mem_singleton.mp hd]

theorem returns_paragraphEnd {mode : ParagraphMode} (hmode : Margins mode.held) :
    ∀ d ∈ paragraphEnd mode, d ≠ '\r' := by
  cases mode with
  | line => exact nofun
  | newline blanks => exact Margins.returns_line hmode
  | gap => exact returns_paragraphMark

theorem markParagraphs_eq_output (cs : List Char) :
    markParagraphs cs = paragraphs.output .line cs :=
  paragraphs.run_eq_output cs

theorem returns_markParagraphs (h : '\r' ∉ cs) : '\r' ∉ markParagraphs cs := by
  rw [markParagraphs_eq_output]
  have hout := paragraphs.forall_output (I := fun mode => Margins mode.held) (P := (· ≠ '\r'))
    (Q := (· ≠ '\r')) (fun _ _ => returns_paragraphStep) (fun _ => returns_paragraphEnd) cs
    paragraphs.start nofun (fun c hc => ne_of_mem_of_not_mem hc h)
  exact fun hr => hout _ hr rfl

/-- A character in front of two texts of which one is escaped where the other is. -/
theorem EscapedFrom.cons_congr {ds : List Char}
    (h : ∀ odd, EscapedFrom odd cs → EscapedFrom odd ds) (hcs : EscapedFrom odd (c :: cs)) :
    EscapedFrom odd (c :: ds) := by
  unfold EscapedFrom at hcs ⊢
  split
  · next hc => exact h _ (by rwa [if_pos hc] at hcs)
  · next hc =>
    rw [if_neg hc] at hcs
    exact ⟨hcs.1, h _ hcs.2⟩

/-- **Percent signs stay escaped**: what is held ends in a newline or blank when it is written. -/
theorem escapedFrom_paragraphs : ∀ (cs : List Char) (mode : ParagraphMode) (odd : Bool),
    Margins mode.held → EscapedFrom (mode.inLine && odd) cs →
    EscapedFrom odd (paragraphs.output mode cs)
  | [], mode, odd, hmode, _ => by
    cases mode with
    | line => trivial
    | newline blanks => exact escapedFrom_lineEnd hmode
    | gap =>
      have hend : EscapedFrom odd (paragraphMark ++ []) := escapedFrom_mark.mpr trivial
      rwa [List.append_nil] at hend
  | c :: cs, mode, odd, hmode, h => by
    have hline : ∀ odd, EscapedFrom odd cs → EscapedFrom odd (paragraphs.output .line cs) :=
      fun odd hcs => escapedFrom_paragraphs cs .line odd nofun hcs
    have hblank : isMargin c = true ∨ c = '\n' → EscapedFrom (mode.inLine && odd) (c :: cs) →
        EscapedFrom false cs := by
      rintro (hc | rfl) hcs
      · have hc : Margins [c] := List.forall_mem_singleton.mpr hc
        exact (escapedFrom_cons (hc.ne (by decide) List.mem_cons_self)
          (hc.ne (by decide) List.mem_cons_self)).mp hcs
      · exact (escapedFrom_cons (by decide) (by decide)).mp hcs
    show EscapedFrom odd ((paragraphStep mode c).2 ++ paragraphs.output (paragraphStep mode c).1 cs)
    cases mode with
    | line =>
      unfold paragraphStep
      dsimp only
      split
      · next hc =>
        have hcs := hblank (.inr (beq_iff_eq.mp hc)) h
        exact escapedFrom_paragraphs cs (.newline []) odd nofun hcs
      · exact EscapedFrom.cons_congr hline h
    | newline blanks =>
      unfold paragraphStep
      dsimp only
      split
      · next hc =>
        exact escapedFrom_paragraphs cs (.newline (c :: blanks)) odd (hmode.cons hc)
          (hblank (.inl hc) h)
      split
      · next hc =>
        exact escapedFrom_paragraphs cs .gap odd nofun (hblank (.inr (beq_iff_eq.mp hc)) h)
      · rw [List.append_assoc]
        have hblanks : Margins blanks := hmode
        exact (escapedFrom_line hblanks).mpr (EscapedFrom.cons_congr hline h)
    | gap =>
      unfold paragraphStep
      dsimp only
      split
      · next hc =>
        rw [Bool.or_eq_true, beq_iff_eq] at hc
        exact escapedFrom_paragraphs cs .gap odd nofun (hblank hc h)
      · rw [List.append_assoc]
        exact escapedFrom_mark.mpr (EscapedFrom.cons_congr hline h)

/-- **No blank line is left**: by induction on the text, what is written from a mode on begins no
line but one that goes on. -/
theorem partedFrom_paragraphs : ∀ (cs : List Char) (mode : ParagraphMode), Margins mode.held →
    PartedFrom false (paragraphs.output mode cs)
  | [], mode, hmode => by
    cases mode with
    | line => trivial
    | newline blanks =>
      have hend : PartedFrom false ('\n' :: blanks.reverse ++ []) :=
        (partedFrom_line hmode).mpr trivial
      rwa [List.append_nil] at hend
    | gap =>
      have hend : PartedFrom false (paragraphMark ++ []) := partedFrom_mark.mpr trivial
      rwa [List.append_nil] at hend
  | c :: cs, mode, hmode => by
    have hline := partedFrom_paragraphs cs .line nofun
    have hchar (hc : c ≠ '\n') : PartedFrom false (c :: paragraphs.output .line cs) :=
      (partedFrom_cons hc fun h => absurd h Bool.false_ne_true).mpr hline
    show PartedFrom false ((paragraphStep mode c).2 ++ paragraphs.output (paragraphStep mode c).1 cs)
    cases mode with
    | line =>
      unfold paragraphStep
      dsimp only
      split
      · exact partedFrom_paragraphs cs (.newline []) nofun
      · next hc => exact hchar (mt beq_iff_eq.mpr hc)
    | newline blanks =>
      unfold paragraphStep
      dsimp only
      split
      · next hc => exact partedFrom_paragraphs cs (.newline (c :: blanks)) (hmode.cons hc)
      split
      · exact partedFrom_paragraphs cs .gap nofun
      · next hmargin hc =>
        rw [List.append_assoc]
        have hblanks : Margins blanks := hmode
        refine (partedFrom_line hblanks).mpr ?_
        exact (partedFrom_cons (mt beq_iff_eq.mpr hc) fun _ => Bool.eq_false_iff.mpr hmargin).mpr
          hline
    | gap =>
      unfold paragraphStep
      dsimp only
      split
      · exact partedFrom_paragraphs cs .gap nofun
      · next hc =>
        rw [Bool.or_eq_true, beq_iff_eq, not_or] at hc
        rw [List.append_assoc]
        exact partedFrom_mark.mpr (hchar hc.2)

theorem paragraphs_eq_self : ∀ cs : List Char,
    (PartedFrom false cs → paragraphs.output .line cs = cs) ∧
      ∀ blanks, PartedFrom true cs →
        paragraphs.output (.newline blanks) cs = '\n' :: blanks.reverse ++ cs
  | [] => ⟨fun _ => rfl, fun blanks _ => (List.append_nil _).symm⟩
  | c :: cs => by
    obtain ⟨hline, hnewline⟩ := paragraphs_eq_self cs
    constructor
    · intro h
      show (paragraphStep .line c).2 ++ paragraphs.output (paragraphStep .line c).1 cs = c :: cs
      unfold PartedFrom at h
      unfold paragraphStep
      by_cases hc : c = '\n'
      · rw [if_pos hc] at h
        rw [hc]
        exact hnewline [] h.2
      · rw [if_neg hc, Bool.false_and] at h
        dsimp only
        rw [if_neg (mt beq_iff_eq.mp hc)]
        exact congrArg (c :: ·) (hline h)
    · intro blanks h
      show (paragraphStep (.newline blanks) c).2 ++
        paragraphs.output (paragraphStep (.newline blanks) c).1 cs = _
      unfold PartedFrom at h
      have hc : c ≠ '\n' := by
        intro hc
        rw [if_pos hc] at h
        cases h.1
      rw [if_neg hc, Bool.true_and] at h
      unfold paragraphStep
      dsimp only
      cases hmargin : isMargin c with
      | true =>
        rw [hmargin] at h
        rw [if_pos rfl, hnewline (c :: blanks) h]
        simp
      | false =>
        rw [hmargin] at h
        rw [if_neg Bool.false_ne_true, if_neg (mt beq_iff_eq.mp hc), hline h, List.append_assoc]
        rfl

theorem markParagraphs_eq_self (h : PartedFrom false cs) : markParagraphs cs = cs := by
  rw [markParagraphs_eq_output]
  exact (paragraphs_eq_self cs).1 h

/-! ### The whole preparation -/

theorem prepare_nil (text path : String) :
    prepare text path [] = markParagraphs (stripComments (unifyLineEnds text.toList)) := rfl

theorem isPrepared_prepare (text path : String) : IsPrepared (prepare text path []) := by
  rw [prepare_nil, isPrepared_iff]
  have hreturns := returns_stripComments (returns_unifyLineEnds text.toList)
  have hescaped := escapedFrom_stripComments (unifyLineEnds text.toList)
  refine ⟨returns_markParagraphs hreturns, ?_⟩
  rw [markParagraphs_eq_output]
  exact ⟨escapedFrom_paragraphs _ .line false nofun hescaped, partedFrom_paragraphs _ .line nofun⟩

theorem IsPrepared.prepare_eq {text : String} (h : IsPrepared text.toList) (path : String) :
    prepare text path [] = text.toList := by
  obtain ⟨hreturns, hescaped, hparted⟩ := isPrepared_iff.mp h
  rw [prepare_nil, unifyLineEnds_eq_self hreturns, stripComments_eq_self hescaped,
    markParagraphs_eq_self hparted]

/-- **One preparation is enough.** Without corrections, every source is prepared to a text without
carriage returns, comments and blank lines, and preparing that text again leaves it as it is. The
sources that a preparation leaves as they are are those that are prepared. -/
theorem prepare_reaches_normal_form (text path : String) :
    IsPrepared (prepare text path []) ∧
      prepare (String.ofList (prepare text path [])) path [] = prepare text path [] ∧
      (prepare text path [] = text.toList ↔ IsPrepared text.toList) := by
  have hprepared := isPrepared_prepare text path
  refine ⟨hprepared, ?_, fun h => h ▸ hprepared, fun h => h.prepare_eq path⟩
  have hagain : IsPrepared (String.ofList (prepare text path [])).toList := by
    rwa [String.toList_ofList]
  rw [hagain.prepare_eq path, String.toList_ofList]

/-- Of two comments and a blank line only the end of the paragraph is left. -/
example : prepare "a\\%\r\n% note\r\n \r\n%\nb" "x.tex" [] = "a\\% \\par b".toList := by decide

end Source

end ProofProse
