import ProofProse.Proofs.Component
import ProofProse.Proofs.Line
import ProofProse.Source.Correction

/-! # Tables of corrections

How the lines of a text are written tells them (`Text.Lined`), and a text is cut into these lines
(`Text.lined_iff`). A line of a table that says something is a correction exactly if it has two tabs
(`Correction.ofLine?_eq_some_iff`, `Correction.ofLine?_eq_none_iff`). So a table is read if all of
its lines that say something have two tabs, and else the first one that has not is told by its
number; and a table that corrections were written to is read back
(`Correction.tables_are_read_by_lines`). -/

namespace ProofProse

/-! ### Lines by how they are written -/

namespace Text

variable {text line : List Char} {ls : List (List Char)}

/-- Some lines as they are written: a newline ends a line, together with a carriage return before
it, and the last line may go without. -/
inductive Lined : List Char → List (List Char) → Prop where
  | nil : Lined [] []
  | last {line : List Char} : line ≠ [] → '\n' ∉ line → Lined line [line]
  | newline {line text : List Char} {ls : List (List Char)} : '\n' ∉ line →
      line.getLast? ≠ some '\r' → Lined text ls → Lined (line ++ '\n' :: text) (line :: ls)
  | returned {line text : List Char} {ls : List (List Char)} : '\n' ∉ line → Lined text ls →
      Lined (line ++ '\r' :: '\n' :: text) (line :: ls)

theorem Lined.lines_eq (h : Lined text ls) : lines text = ls := by
  induction h with
  | nil => rfl
  | last hne hnewline =>
    next line =>
    have hcut := linesFrom_append line [] [] hnewline
    rw [List.append_nil, List.append_nil] at hcut
    unfold lines
    rw [hcut, linesFrom, if_neg (by simpa using hne), List.reverse_reverse]
  | newline hnewline hreturn _ ih => rw [lines_newline hnewline, closeLine_reverse hreturn, ih]
  | returned hnewline _ ih =>
    next line text ls _ =>
    have hwhole : '\n' ∉ line ++ ['\r'] := by simpa using hnewline
    have hcut := lines_newline hwhole text
    rw [List.append_assoc] at hcut
    refine hcut.trans ?_
    rw [List.reverse_append, ih]
    exact congrArg (· :: ls) (List.reverse_reverse line)

theorem Lined.exists_cons (hline : '\n' ∉ line) (h : Lined text ls) :
    ∃ front, Lined (line ++ '\n' :: text) (front :: ls) := by
  by_cases hreturn : line.getLast? = some '\r'
  · obtain ⟨front, rfl⟩ := List.getLast?_eq_some_iff.mp hreturn
    refine ⟨front, ?_⟩
    rw [List.append_assoc]
    exact .returned (fun hmem => hline (List.mem_append_left _ hmem)) h
  · exact ⟨line, .newline hline hreturn h⟩

theorem exists_lined (text : List Char) : ∃ ls, Lined text ls := by
  by_cases hmem : '\n' ∈ text
  · obtain ⟨line, behind, htext, hline⟩ := List.eq_append_cons_of_mem hmem
    have hshorter : behind.length < text.length := by
      rw [htext, List.length_append, List.length_cons]
      omega
    obtain ⟨ls, hls⟩ := exists_lined behind
    obtain ⟨front, hfront⟩ := hls.exists_cons hline
    exact ⟨front :: ls, htext ▸ hfront⟩
  · by_cases hnil : text = []
    · exact ⟨[], hnil ▸ .nil⟩
    · exact ⟨[text], .last hnil hmem⟩
termination_by text.length

/-- **A text is cut** into the lines that it is written in. -/
theorem lined_iff : Lined text ls ↔ lines text = ls := by
  refine ⟨Lined.lines_eq, ?_⟩
  rintro rfl
  obtain ⟨ls, hls⟩ := exists_lined text
  rwa [hls.lines_eq]

/-- A line that can be read back: it does not end early, and keeps its end. -/
structure IsWhole (line : List Char) : Prop where
  noNewline : '\n' ∉ line
  noReturn : line.getLast? ≠ some '\r'

theorem lined_unlines : ∀ {ls : List (List Char)}, (∀ line ∈ ls, IsWhole line) →
    Lined (unlines ls) ls
  | [], _ => .nil
  | line :: ls, h => by
    obtain ⟨hnewline, hreturn⟩ := h line List.mem_cons_self
    have hcut : unlines (line :: ls) = line ++ '\n' :: unlines ls := by simp [unlines]
    rw [hcut]
    exact .newline hnewline hreturn (lined_unlines fun l hl => h l (List.mem_cons_of_mem line hl))

theorem lined_intercalate : ∀ {ls : List (List Char)}, (∀ line ∈ ls, IsWhole line ∧ line ≠ []) →
    Lined (['\n'].intercalate ls) ls
  | [], _ => .nil
  | [line], h => by
    obtain ⟨⟨hnewline, -⟩, hne⟩ := h line List.mem_cons_self
    rw [List.intercalate_singleton]
    exact .last hne hnewline
  | line :: next :: ls, h => by
    obtain ⟨⟨hnewline, hreturn⟩, -⟩ := h line List.mem_cons_self
    rw [List.intercalate_cons_cons, List.append_assoc]
    exact .newline hnewline hreturn
      (lined_intercalate fun l hl => h l (List.mem_cons_of_mem line hl))

theorem cutAt_eq_none {c : Char} {cs : List Char} (h : cutAt c cs = none) : c ∉ cs := by
  intro hmem
  obtain ⟨front, behind, rfl, hfront⟩ := List.eq_append_cons_of_mem hmem
  rw [cutAt_append hfront] at h
  cases h

end Text

namespace Correction

variable {correction : Correction} {corrections : List Correction} {line : List Char}
  {ls : List (List Char)} {fault : TableFault} {n : Nat}

/-! ### Corrections on lines -/

/-- A correction as it is written on a line. -/
def written (correction : Correction) : List Char :=
  correction.pattern.toList ++
    '\t' :: (correction.find.toList ++ '\t' :: correction.replacement.toList)

/-- A correction is what stands on a line: there are no tabs in the fields before its first two. -/
structure IsOn (correction : Correction) (line : List Char) : Prop where
  written_eq : correction.written = line
  pattern : '\t' ∉ correction.pattern.toList
  find : '\t' ∉ correction.find.toList

/-- A line says something: it is not blank, and does not start with a hash sign. -/
structure SaysSomething (line : List Char) : Prop where
  notBlank : ∃ c ∈ line, Text.isBlank c = false
  noHash : line.head? ≠ some '#'

theorem isSilent_eq_false_iff : isSilent line = false ↔ SaysSomething line := by
  unfold isSilent
  rw [Bool.or_eq_false_iff, List.all_eq_false, beq_eq_false_iff_ne]
  constructor
  · rintro ⟨⟨c, hc, hblank⟩, hhash⟩
    exact ⟨⟨c, hc, Bool.eq_false_iff.mpr hblank⟩, hhash⟩
  · rintro ⟨⟨c, hc, hblank⟩, hhash⟩
    exact ⟨⟨c, hc, Bool.eq_false_iff.mp hblank⟩, hhash⟩

/-- **The correction on a line** is parted by the first two tabs. -/
theorem ofLine?_eq_some_iff : ofLine? line = some correction ↔ correction.IsOn line := by
  unfold ofLine?
  constructor
  · intro h
    obtain ⟨⟨pattern, rest⟩, hfirst, h⟩ := Option.bind_eq_some_iff.mp h
    obtain ⟨⟨find, replacement⟩, hsecond, h⟩ := Option.bind_eq_some_iff.mp h
    cases h
    obtain ⟨rfl, hpattern⟩ := Text.cutAt_eq_some hfirst
    obtain ⟨rfl, hfind⟩ := Text.cutAt_eq_some hsecond
    refine ⟨?_, ?_, ?_⟩
    · simp [written]
    · simpa using hpattern
    · simpa using hfind
  · rintro ⟨rfl, hpattern, hfind⟩
    unfold written
    rw [Text.cutAt_append hpattern]
    dsimp only [bind, Option.bind]
    rw [Text.cutAt_append hfind]
    simp [pure]

theorem IsOn.count (h : correction.IsOn line) : 2 ≤ line.count '\t' := by
  rw [← h.written_eq, written, List.count_append, List.count_cons_self, List.count_append,
    List.count_cons_self]
  omega

theorem ofLine?_eq_none_iff : ofLine? line = none ↔ line.count '\t' < 2 := by
  constructor
  · intro h
    unfold ofLine? at h
    cases hfirst : Text.cutAt '\t' line with
    | none =>
      rw [List.count_eq_zero.mpr (Text.cutAt_eq_none hfirst)]
      omega
    | some cut =>
      obtain ⟨pattern, rest⟩ := cut
      obtain ⟨rfl, hpattern⟩ := Text.cutAt_eq_some hfirst
      rw [hfirst] at h
      dsimp only [bind, Option.bind] at h
      cases hsecond : Text.cutAt '\t' rest with
      | none =>
        rw [List.count_append, List.count_cons_self, List.count_eq_zero.mpr hpattern,
          List.count_eq_zero.mpr (Text.cutAt_eq_none hsecond)]
        omega
      | some cut =>
        rw [hsecond] at h
        cases h
  · intro h
    rw [Option.eq_none_iff_forall_ne_some]
    intro correction hsome
    have hcount := (ofLine?_eq_some_iff.mp hsome).count
    omega

/-! ### All lines of a table -/

/-- The corrections on some lines, in their order; lines that say nothing hold none. -/
inductive Reads : List (List Char) → List Correction → Prop where
  | nil : Reads [] []
  | silent {line : List Char} {ls : List (List Char)} {corrections : List Correction} :
      ¬SaysSomething line → Reads ls corrections → Reads (line :: ls) corrections
  | entry {line : List Char} {ls : List (List Char)} {correction : Correction}
      {corrections : List Correction} : SaysSomething line → correction.IsOn line →
      Reads ls corrections → Reads (line :: ls) (correction :: corrections)

/-- A line can be read: if it says something it has two tabs. -/
def Readable (line : List Char) : Prop := SaysSomething line → 2 ≤ line.count '\t'

theorem isSilent_of_not_saysSomething (h : ¬SaysSomething line) : isSilent line = true := by
  rw [← Bool.not_eq_false, isSilent_eq_false_iff]
  exact h

theorem Reads.ofLines_eq (h : Reads ls corrections) (n : Nat) :
    ofLines n ls = .ok corrections := by
  induction h generalizing n with
  | nil => rfl
  | silent hsilent _ ih => rw [ofLines, if_pos (isSilent_of_not_saysSomething hsilent), ih]
  | entry hspeaks hon _ ih =>
    rw [ofLines, isSilent_eq_false_iff.mpr hspeaks, if_neg Bool.false_ne_true,
      ofLine?_eq_some_iff.mpr hon, ih]
    rfl

theorem Reads.readable (h : Reads ls corrections) : ∀ line ∈ ls, Readable line := by
  induction h with
  | nil => exact nofun
  | silent hsilent _ ih =>
    exact List.forall_mem_cons.mpr ⟨fun hspeaks => absurd hspeaks hsilent, ih⟩
  | entry _ hon _ ih => exact List.forall_mem_cons.mpr ⟨fun _ => hon.count, ih⟩

theorem exists_reads (h : ∀ line ∈ ls, Readable line) : ∃ corrections, Reads ls corrections := by
  induction ls with
  | nil => exact ⟨[], .nil⟩
  | cons line ls ih =>
    obtain ⟨hline, hls⟩ := List.forall_mem_cons.mp h
    obtain ⟨corrections, hcorrections⟩ := ih hls
    by_cases hspeaks : SaysSomething line
    · have htabs : ofLine? line ≠ none := fun hnone => by
        have hfew := ofLine?_eq_none_iff.mp hnone
        have hmany := hline hspeaks
        omega
      obtain ⟨correction, hcorrection⟩ := Option.ne_none_iff_exists'.mp htabs
      exact ⟨correction :: corrections,
        .entry hspeaks (ofLine?_eq_some_iff.mp hcorrection) hcorrections⟩
    · exact ⟨corrections, .silent hspeaks hcorrections⟩

/-- The first line with too few tabs ends the reading, and is told by its number. -/
theorem ofLines_of_few_tabs (behind : List (List Char)) (hspeaks : SaysSomething line)
    (htabs : line.count '\t' < 2) : ∀ {front : List (List Char)} {n : Nat},
    (∀ l ∈ front, Readable l) → ofLines n (front ++ line :: behind) = .error ⟨n + front.length⟩
  | [], n, _ => by
    rw [List.nil_append, ofLines, isSilent_eq_false_iff.mpr hspeaks, if_neg Bool.false_ne_true,
      ofLine?_eq_none_iff.mpr htabs]
    rfl
  | l :: front, n, h => by
    have hfirst : ∀ l' ∈ [l], Readable l' := by simpa using h l List.mem_cons_self
    obtain ⟨corrections, hreads⟩ := exists_reads hfirst
    have hrest := ofLines_of_few_tabs behind hspeaks htabs (n := n + 1)
      fun l' hl' => h l' (List.mem_cons_of_mem l hl')
    have hnumber : n + 1 + front.length = n + (l :: front).length := by
      rw [List.length_cons]
      omega
    rw [List.cons_append, ofLines, hrest, hnumber]
    cases hreads with
    | silent hsilent _ => rw [if_pos (isSilent_of_not_saysSomething hsilent)]
    | entry hl hon _ =>
      rw [isSilent_eq_false_iff.mpr hl, if_neg Bool.false_ne_true, ofLine?_eq_some_iff.mpr hon]
      rfl

theorem readable_or_first (ls : List (List Char)) : (∀ line ∈ ls, Readable line) ∨
    ∃ front line behind, ls = front ++ line :: behind ∧ (∀ l ∈ front, Readable l) ∧
      SaysSomething line ∧ line.count '\t' < 2 := by
  induction ls with
  | nil => exact .inl nofun
  | cons line ls ih =>
    by_cases hline : Readable line
    · rcases ih with hall | ⟨front, bad, behind, rfl, hfront, hbad⟩
      · exact .inl (List.forall_mem_cons.mpr ⟨hline, hall⟩)
      · exact .inr ⟨line :: front, bad, behind, rfl, List.forall_mem_cons.mpr ⟨hline, hfront⟩, hbad⟩
    · unfold Readable at hline
      push Not at hline
      exact .inr ⟨[], line, ls, rfl, nofun, hline⟩

/-- **Lines are read** to the corrections on them, if to anything. -/
theorem ofLines_eq_ok_iff : ofLines n ls = .ok corrections ↔ Reads ls corrections := by
  refine ⟨fun h => ?_, fun h => h.ofLines_eq n⟩
  rcases readable_or_first ls with hall | ⟨front, line, behind, rfl, hfront, hspeaks, htabs⟩
  · obtain ⟨read, hread⟩ := exists_reads hall
    rw [hread.ofLines_eq] at h
    cases h
    exact hread
  · rw [ofLines_of_few_tabs behind hspeaks htabs hfront] at h
    cases h

/-- **The fault** of lines is the number of the first one that has too few tabs. -/
theorem ofLines_eq_error_iff : ofLines n ls = .error fault ↔
    ∃ front line behind, ls = front ++ line :: behind ∧ (∀ l ∈ front, Readable l) ∧
      SaysSomething line ∧ line.count '\t' < 2 ∧ fault.line = n + front.length := by
  constructor
  · intro h
    rcases readable_or_first ls with hall | ⟨front, line, behind, rfl, hfront, hspeaks, htabs⟩
    · obtain ⟨read, hread⟩ := exists_reads hall
      rw [hread.ofLines_eq] at h
      cases h
    · rw [ofLines_of_few_tabs behind hspeaks htabs hfront] at h
      cases h
      exact ⟨front, line, behind, rfl, hfront, hspeaks, htabs, rfl⟩
  · rintro ⟨front, line, behind, rfl, hfront, hspeaks, htabs, hline⟩
    rw [ofLines_of_few_tabs behind hspeaks htabs hfront, ← hline]

/-! ### Tables -/

/-- A correction that can be written on a line of its own. -/
structure IsWritable (correction : Correction) : Prop where
  pattern : '\t' ∉ correction.pattern.toList ∧ '\n' ∉ correction.pattern.toList
  find : '\t' ∉ correction.find.toList ∧ '\n' ∉ correction.find.toList
  replacement : '\n' ∉ correction.replacement.toList
  noReturn : correction.replacement.toList.getLast? ≠ some '\r'
  noHash : correction.pattern.toList.head? ≠ some '#'
  notBlank : ∃ c ∈ correction.written, Text.isBlank c = false

theorem IsWritable.isWhole (h : correction.IsWritable) : Text.IsWhole correction.written := by
  refine ⟨?_, fun hlast => ?_⟩
  · simp [written, h.pattern.2, h.find.2, h.replacement]
  · unfold written at hlast
    rw [List.getLast?_append, List.getLast?_cons, List.getLast?_append, List.getLast?_cons] at hlast
    cases hreplacement : correction.replacement.toList.getLast? with
    | none => simp [hreplacement] at hlast
    | some c =>
      rw [hreplacement] at hlast
      simp only [Option.getD_some, Option.some_or] at hlast
      exact h.noReturn (hreplacement.trans hlast)

theorem IsWritable.reads (h : ∀ correction ∈ corrections, correction.IsWritable) :
    Reads (corrections.map written) corrections := by
  induction corrections with
  | nil => exact .nil
  | cons correction corrections ih =>
    obtain ⟨hfirst, hrest⟩ := List.forall_mem_cons.mp h
    refine .entry ⟨hfirst.notBlank, fun hhead => hfirst.noHash ?_⟩
      ⟨rfl, hfirst.pattern.1, hfirst.find.1⟩ (ih hrest)
    unfold written at hhead
    rw [List.head?_append] at hhead
    cases hpattern : correction.pattern.toList.head? with
    | none => simp [hpattern] at hhead
    | some c => rwa [hpattern] at hhead

/-- **Tables are read by their lines.** A table is read exactly if every line that says something
has two tabs, and then to the corrections on these lines; else the first line with fewer is told by
its number. Corrections that can be written on lines of their own are read back, with or without a
newline at the end. -/
theorem tables_are_read_by_lines :
    (∀ text ls, Text.Lined text ls ↔ Text.lines text = ls) ∧
    (∀ text : String,
      ((∃ corrections, parseTable text = .ok corrections) ↔
        ∀ line ∈ Text.lines text.toList, SaysSomething line → 2 ≤ line.count '\t') ∧
      (∀ corrections, parseTable text = .ok corrections ↔
        Reads (Text.lines text.toList) corrections) ∧
      (∀ fault, parseTable text = .error fault ↔
        ∃ front line behind, Text.lines text.toList = front ++ line :: behind ∧
          (∀ l ∈ front, SaysSomething l → 2 ≤ l.count '\t') ∧
          SaysSomething line ∧ line.count '\t' < 2 ∧ fault.line = front.length + 1 ∧
          fault.message =
            "line " ++ toString (front.length + 1) ++ ": expected three tab-separated fields")) ∧
    ∀ corrections : List Correction, (∀ correction ∈ corrections, correction.IsWritable) →
      parseTable (String.ofList (Text.unlines (corrections.map written))) = .ok corrections ∧
      parseTable (String.ofList (['\n'].intercalate (corrections.map written))) =
        .ok corrections := by
  refine ⟨fun text ls => Text.lined_iff, fun text => ?_, fun corrections h => ?_⟩
  · unfold parseTable
    generalize Text.lines text.toList = ls
    refine ⟨⟨?_, fun hall => ?_⟩, fun corrections => ofLines_eq_ok_iff,
      fun fault => ofLines_eq_error_iff.trans ?_⟩
    · rintro ⟨corrections, h⟩
      exact (ofLines_eq_ok_iff.mp h).readable
    · obtain ⟨corrections, hreads⟩ := exists_reads hall
      exact ⟨corrections, hreads.ofLines_eq 1⟩
    · refine exists_congr fun front => exists_congr fun line => exists_congr fun behind => ?_
      rw [Nat.add_comm 1 front.length]
      refine and_congr_right fun _ => and_congr_right fun _ => and_congr_right fun _ =>
        and_congr_right fun _ => (and_iff_left_of_imp fun hline => ?_).symm
      rw [← hline]
      rfl
  · have hreads := IsWritable.reads h
    have hwhole : ∀ line ∈ corrections.map written, Text.IsWhole line ∧ line ≠ [] := by
      intro line hline
      obtain ⟨correction, hmem, rfl⟩ := List.mem_map.mp hline
      exact ⟨(h correction hmem).isWhole, by simp [written]⟩
    have hlines := (Text.lined_unlines fun line hline => (hwhole line hline).1).lines_eq
    unfold parseTable
    rw [String.toList_ofList, String.toList_ofList, hlines,
      (Text.lined_intercalate hwhole).lines_eq]
    exact ⟨hreads.ofLines_eq 1, hreads.ofLines_eq 1⟩

/-- A table of two corrections is read back; in another one the third line has one tab only. -/
theorem table_of_two_corrections :
    (∀ correction ∈ [(⟨"p1", "foo", "bar\tbaz"⟩ : Correction), ⟨"", "x", ""⟩],
      correction.IsWritable) ∧
    parseTable "p1\tfoo\tbar\tbaz\n\tx\t\n" = .ok [⟨"p1", "foo", "bar\tbaz"⟩, ⟨"", "x", ""⟩] ∧
    parseTable "# a\r\n \nonly\tone\n#" = .error ⟨3⟩ := by
  have hwritable : ∀ correction ∈ [(⟨"p1", "foo", "bar\tbaz"⟩ : Correction), ⟨"", "x", ""⟩],
      correction.IsWritable := by
    intro correction hmem
    rcases List.mem_cons.mp hmem with rfl | hmem
    · exact ⟨by decide, by decide, by decide, by decide, by decide, 'p', by decide, by decide⟩
    · rw [List.mem_singleton.mp hmem]
      exact ⟨by decide, by decide, by decide, by decide, by decide, 'x', by decide, by decide⟩
  obtain ⟨-, hread, hback⟩ := tables_are_read_by_lines
  refine ⟨hwritable, (hback _ hwritable).1, ?_⟩
  have hspeaks : SaysSomething "only\tone".toList := ⟨⟨'o', by decide, by decide⟩, by decide⟩
  refine ((hread _).2.2 ⟨3⟩).mpr ⟨["# a".toList, [' ']], "only\tone".toList, [['#']], by decide,
    fun line hmem hspeaks => ?_, hspeaks, by decide, rfl, by decide⟩
  rcases List.mem_cons.mp hmem with rfl | hmem
  · exact absurd rfl hspeaks.noHash
  · obtain ⟨c, hc, hblank⟩ := hspeaks.notBlank
    rw [List.mem_singleton.mp hmem, List.mem_singleton] at hc
    rw [hc] at hblank
    exact absurd hblank (by decide)

end Correction

end ProofProse
