import ProofProse.Proofs.Call
import ProofProse.Proofs.Component
import ProofProse.Proofs.Package
import ProofProse.Proofs.Tree

/-! # Local files that are followed

Where the files that are tried for the target of an input are not in the catalogue themselves
(`Catalogue.Clears`), the first one that is there is read in place of the command, unless the target
is taken for a file of another kind (`Catalogue.mistakes`): the catalogue is asked for the target
with the endings of styles, classes and their options as well, and a target without a name counts as
known. Then nothing is read and nothing is said (`Scan.local_files_are_followed`). -/

namespace ProofProse

/-! ### Names of files -/

namespace Text

variable {p : Char → Bool} {tail : List Char}

theorem splitFrom_of_none : ∀ (tail part : List Char), (∀ c ∈ tail, p c = false) →
    splitFrom p part tail = [part.reverse ++ tail]
  | [], part, _ => by
    rw [List.append_nil]
    rfl
  | c :: tail, part, htail => by
    obtain ⟨hc, htail⟩ := List.forall_mem_cons.mp htail
    unfold splitFrom
    rw [hc, if_neg Bool.false_ne_true, splitFrom_of_none tail (c :: part) htail, List.reverse_cons,
      List.append_assoc, List.singleton_append]

/-- What is put behind a text belongs to its last part, if there is no separator in it. -/
theorem getLast?_splitFrom_append (htail : ∀ c ∈ tail, p c = false) : ∀ cs part : List Char,
    (splitFrom p part (cs ++ tail)).getLast? = (splitFrom p part cs).getLast?.map (· ++ tail)
  | [], part => by
    rw [List.nil_append, splitFrom_of_none tail part htail]
    rfl
  | c :: cs, part => by
    rw [List.cons_append]
    unfold splitFrom
    split
    · rw [List.getLast?_cons_of_ne_nil (splitFrom_ne_nil p _ []),
        List.getLast?_cons_of_ne_nil (splitFrom_ne_nil p _ []),
        getLast?_splitFrom_append htail cs []]
    · exact getLast?_splitFrom_append htail cs (c :: part)

theorem lowerAscii_append (s t : String) : lowerAscii (s ++ t) = lowerAscii s ++ lowerAscii t := by
  refine String.toList_inj.mp ?_
  unfold lowerAscii
  rw [String.toList_append, String.toList_map, String.toList_map, String.toList_map,
    String.toList_append, List.map_append]

end Text

namespace Catalogue

/-- The last part of a path, in small letters. -/
def fileName (path : String) : String :=
  let parts := Text.splitWhere (fun c => c == '/' || c == '\\') path.toList
  Text.lowerAscii (String.ofList (parts.getLastD path.toList))

theorem baseName_eq_fileName (target : String) :
    baseName target = fileName (Text.trimQuotes (Text.trim target)) := rfl

theorem fileName_append (path : String) : fileName (path ++ ".tex") = fileName path ++ ".tex" := by
  have hending : ∀ c ∈ ".tex".toList, (c == '/' || c == '\\') = false := by simp
  unfold fileName Text.splitWhere
  dsimp only
  rw [String.toList_append, List.getLastD_eq_getLast?, List.getLastD_eq_getLast?,
    Text.getLast?_splitFrom_append hending]
  have hparts := Text.splitFrom_ne_nil (fun c => c == '/' || c == '\\') path.toList []
  rw [List.getLast?_eq_some_getLast hparts, Option.map_some, Option.getD_some, Option.getD_some,
    String.ofList_append, Text.lowerAscii_append]
  have hsmall : Text.lowerAscii (String.ofList ".tex".toList) = ".tex" := by decide +kernel
  rw [hsmall]

variable (catalogue : Catalogue)

/-- None of some files is in the catalogue, or a style that is passed over. -/
def Clears (files : List String) : Prop :=
  ∀ file ∈ files, catalogue.names.contains (fileName file) = false ∧
    ignoredStyles.contains (stem (fileName file)) = false

/-- The endings that do not belong to sources. -/
def otherEndings : List String := [".sty", ".cls", ".clo"]

/-- The target of an input is known though none of its files is: it has no name, or the name of a
file of another kind, or the name of a source to which the ending of sources is added once more. -/
def mistakes (target : String) : Bool :=
  let name := baseName target
  name.isEmpty || otherEndings.any (fun ending => catalogue.names.contains (name ++ ending)) ||
    Inclusion.hasEnding ".tex" (Text.trimQuotes (Text.trim target)) &&
      catalogue.names.contains (name ++ ".tex")

/-- **A target whose files are not in the catalogue** is known just if it is taken for another. -/
theorem knows_eq_mistakes {catalogue : Catalogue} {target : String}
    (hclear : catalogue.Clears (Inclusion.candidates .input target)) :
    catalogue.knows target = catalogue.mistakes target := by
  have hname := baseName_eq_fileName target
  unfold Inclusion.candidates at hclear
  unfold knows mistakes
  rw [hname]
  generalize Text.trimQuotes (Text.trim target) = path at *
  dsimp only at hclear ⊢
  cases hempty : path.isEmpty with
  | true =>
    have hnone : (fileName path).isEmpty = true := by
      rw [String.isEmpty_iff.mp hempty]
      decide +kernel
    rw [hnone, Bool.true_or, Bool.true_or, Bool.true_or, Bool.true_or, Bool.true_or]
  | false =>
    rw [hempty, if_neg Bool.false_ne_true] at hclear
    unfold endings otherEndings
    cases hending : Inclusion.hasEnding ".tex" path with
    | true =>
      rw [hending, if_pos rfl] at hclear
      obtain ⟨hplain, hstyle⟩ := hclear path List.mem_cons_self
      rw [hplain, hstyle]
      simp only [List.any_cons, List.any_nil, Bool.or_false, Bool.true_and]
      ac_rfl
    | false =>
      -- The file with the ending put behind it is tried first, so it is not in the catalogue either.
      rw [hending, if_neg Bool.false_ne_true] at hclear
      obtain ⟨hplain, hstyle⟩ := hclear path (by simp)
      obtain ⟨hsource, -⟩ := hclear (path ++ ".tex") List.mem_cons_self
      rw [fileName_append] at hsource
      rw [hplain, hstyle]
      simp only [List.any_cons, List.any_nil, Bool.or_false, Bool.false_and, hsource, Bool.false_or]

end Catalogue

/-! ### Files that are found -/

namespace Scan

variable {setting : Setting} {s u : State} {target file including : String}
  {before after : List String} {bytes : Encoding.Bytes}

/-- There is no such file. -/
def Lacks (library : Library) (including file : String) : Prop :=
  ∃ path, library.read (library.resolve including file) = .error (.notFound path)

theorem search_first (hbefore : ∀ other ∈ before, Lacks setting.library including other)
    (hread : setting.library.read (setting.library.resolve including file) = .ok bytes) :
    search setting target including (before ++ file :: after) =
      .ok ⟨setting.library.resolve including file,
        Source.tokens (Encoding.decodeSource bytes) (setting.library.resolve including file)
          setting.options.corrections ++ [.endOfInput]⟩ := by
  induction before with
  | nil =>
    rw [List.nil_append]
    unfold search
    dsimp only
    rw [hread]
  | cons other before ih =>
    obtain ⟨⟨path, hmissing⟩, hbefore⟩ := List.forall_mem_cons.mp hbefore
    rw [List.cons_append]
    unfold search
    dsimp only
    rw [hmissing]
    exact ih hbefore

/-- The files that are tried for the target of an input are not in the catalogue, and `file` is the
first one that is there. -/
structure NamesLocalFile (setting : Setting) (includes : Includes) (target file : String)
    (bytes : Encoding.Bytes) : Prop where
  follows : setting.options.followIncludes = true
  depth : includes.depth < setting.options.includeDepth
  first : ∃ before after, Inclusion.candidates .input target = before ++ file :: after ∧
    ∀ other ∈ before, Lacks setting.library includes.current other
  read : setting.library.read (setting.library.resolve includes.current file) = .ok bytes
  clear : setting.options.catalogue.Clears (Inclusion.candidates .input target)

theorem inclusion_passedOver (htarget : inputTarget s = .ok target u)
    (hpass : passesOver setting target = true) : inclusion setting .input s = .ok () u :=
  (bind_ok htarget).trans (bind_ok (load_of_passesOver hpass))

theorem NamesLocalFile.passesOver_eq (h : NamesLocalFile setting u.includes target file bytes) :
    passesOver setting target = setting.options.catalogue.mistakes target := by
  -- A target without a name has no files at all.
  have hnamed : target.isEmpty = false := by
    obtain ⟨before, after, hcandidates, -⟩ := h.first
    refine Bool.eq_false_iff.mpr fun hempty => ?_
    have hnone : Inclusion.candidates .input "" = [] := by decide
    rw [String.isEmpty_iff.mp hempty, hnone] at hcandidates
    exact absurd hcandidates.symm (by simp)
  unfold passesOver
  rw [Catalogue.knows_eq_mistakes h.clear, hnamed, h.follows]
  rfl

/-- The commands of inputs. -/
def inputCommands : List String := ["input", "include", "subfile"]

theorem ofName?_inputCommands :
    ∀ command ∈ inputCommands, Effect.ofName? command = some (.inclusion .input) := by
  have hinput : Effect.ofName? "input" = some (.inclusion .input) :=
    Effect.ofName?_of_lookup (by decide +kernel)
  have hinclude : Effect.ofName? "include" = some (.inclusion .input) :=
    Effect.ofName?_of_lookup (by decide +kernel)
  have hsubfile : Effect.ofName? "subfile" = some (.inclusion .input) :=
    Effect.ofName?_of_lookup (by decide +kernel)
  intro command hcommand
  rcases List.mem_cons.mp hcommand with rfl | hcommand
  · exact hinput
  · rcases List.mem_pair.mp hcommand with rfl | rfl
    · exact hinclude
    · exact hsubfile

/-- **Local files are followed.** Where the first of the files tried for the target of an input that
is there can be read, and none of them is in the catalogue, its tokens are put in front with the
mark of its end, and the file is entered. The only targets for which this is not so are those that
the catalogue takes for another file: then the input is left out, and nothing else happens. -/
theorem local_files_are_followed (setting : Setting) (htarget : inputTarget s = .ok target u)
    (h : NamesLocalFile setting u.includes target file bytes) :
    (∀ command ∈ inputCommands, Effect.ofName? command = some (.inclusion .input)) ∧
      inclusion setting .input s = .ok ()
        (if setting.options.catalogue.mistakes target then u
          else u.reading (setting.library.resolve u.includes.current file)
            (Source.tokens (Encoding.decodeSource bytes)
              (setting.library.resolve u.includes.current file) setting.options.corrections ++
                [.endOfInput])) := by
  refine ⟨ofName?_inputCommands, ?_⟩
  cases hmistakes : setting.options.catalogue.mistakes target with
  | true => exact inclusion_passedOver htarget (h.passesOver_eq.trans hmistakes)
  | false =>
    have hpass : ¬passesOver setting target = true := by
      rw [h.passesOver_eq, hmistakes]
      exact Bool.false_ne_true
    obtain ⟨before, after, hcandidates, hbefore⟩ := h.first
    have hfound : search setting target u.includes.current (before ++ file :: after) = _ :=
      search_first hbefore h.read
    rw [← hcandidates] at hfound
    exact inclusion_found htarget hpass h.depth hfound

/-! ### A chapter and an appendix -/

/-- There are two files next to the main file, and the usual options. -/
def bookSetting : Setting :=
  ⟨.standard, .ofFiles
    [("chapter.tex", Encoding.ofText "x"), ("appendix.tex", Encoding.ofText "y")]⟩

/-- Behind an input that stands in front. -/
def behindInput (target : String) : State :=
  { State.start "main.tex" [] with stream := ⟨[], target.toList.length + 2⟩ }

theorem mistakes_standard (target : String) : Catalogue.standard.mistakes target =
    ((Catalogue.baseName target).isEmpty ||
      Catalogue.otherEndings.any (fun ending =>
        Catalogue.distributedFiles.contains (Catalogue.baseName target ++ ending)) ||
      Inclusion.hasEnding ".tex" (Text.trimQuotes (Text.trim target)) &&
        Catalogue.distributedFiles.contains (Catalogue.baseName target ++ ".tex")) := by
  unfold Catalogue.mistakes
  simp only [Catalogue.contains_standard]

theorem inputTarget_start {target : String} (htarget : plainText (charTokens target) = target) :
    inputTarget (.start "main.tex" (braced (charTokens target))) =
      .ok target (behindInput target) := by
  have hahead : (State.start "main.tex" (braced (charTokens target))).stream.ahead =
      .openGroup :: charTokens target ++ .closeGroup :: [] := rfl
  rw [inputTarget_written htarget hahead]
  unfold behindInput State.consumed State.start Stream.ofList
  rw [Nat.zero_add]

theorem namesLocalFile_book {target file text : String}
    (hcandidates : Inclusion.candidates .input target = [file, target])
    (hread : bookSetting.library.read (bookSetting.library.resolve "main.tex" file) =
      .ok (Encoding.ofText text))
    (hclear : ∀ other ∈ [file, target],
      Catalogue.distributedFiles.contains (Catalogue.fileName other) = false ∧
        Catalogue.ignoredStyles.contains (Catalogue.stem (Catalogue.fileName other)) = false) :
    NamesLocalFile bookSetting (behindInput target).includes target file (Encoding.ofText text) where
  follows := rfl
  depth := Nat.zero_lt_succ 4
  first := ⟨[], [target], hcandidates, nofun⟩
  read := hread
  clear := by
    rw [hcandidates]
    intro other hother
    obtain ⟨hname, hstyle⟩ := hclear other hother
    rw [← Catalogue.contains_standard] at hname
    exact ⟨hname, hstyle⟩

theorem namesLocalFile_appendix :
    NamesLocalFile bookSetting (behindInput "appendix").includes "appendix" "appendix.tex"
      (Encoding.ofText "y") :=
  namesLocalFile_book (by decide +kernel) (by decide) (by decide +kernel)

theorem mistakes_appendix : bookSetting.options.catalogue.mistakes "appendix" = true := by
  have hstandard : Catalogue.standard.mistakes "appendix" = true := by
    rw [mistakes_standard]
    decide +kernel
  exact hstandard

/-- The chapter is followed, and the appendix is taken for a package. -/
theorem chapter_is_followed :
    NamesLocalFile bookSetting (behindInput "chapter").includes "chapter" "chapter.tex"
      (Encoding.ofText "x") ∧
    NamesLocalFile bookSetting (behindInput "appendix").includes "appendix" "appendix.tex"
      (Encoding.ofText "y") ∧
    inclusion bookSetting .input (.start "main.tex" (braced (charTokens "chapter"))) =
      .ok () ((behindInput "chapter").reading "chapter.tex" [.char 'x', .endOfInput]) ∧
    inclusion bookSetting .input (.start "main.tex" (braced (charTokens "appendix"))) =
      .ok () (behindInput "appendix") := by
  have hchapter : NamesLocalFile bookSetting (behindInput "chapter").includes "chapter"
      "chapter.tex" (Encoding.ofText "x") :=
    namesLocalFile_book (by decide +kernel) (by decide) (by decide +kernel)
  have hmistakes : Catalogue.standard.mistakes "chapter" = false := by
    rw [mistakes_standard]
    decide +kernel
  have hpath : bookSetting.library.resolve "main.tex" "chapter.tex" = "chapter.tex" := by
    decide
  have htokens : Source.tokens (Encoding.decodeSource (Encoding.ofText "x")) "chapter.tex" [] =
      [.char 'x'] := by decide
  have hfollowed :=
    (local_files_are_followed bookSetting (inputTarget_start (by decide)) hchapter).2
  have htaken :=
    (local_files_are_followed bookSetting (inputTarget_start (by decide)) namesLocalFile_appendix).2
  rw [mistakes_appendix, if_pos rfl] at htaken
  refine ⟨hchapter, namesLocalFile_appendix, ?_, htaken⟩
  rw [hfollowed]
  show EStateM.Result.ok () (if Catalogue.standard.mistakes "chapter" then _
    else (behindInput "chapter").reading (bookSetting.library.resolve "main.tex" "chapter.tex")
      (Source.tokens _ (bookSetting.library.resolve "main.tex" "chapter.tex") [] ++ _)) = _
  rw [hmistakes, hpath, htokens]
  rfl

/-- A file next to the main file is not read, as a package has its name. -/
theorem appendix_is_left_out :
    ¬∀ (setting : Setting) (s u : State) (target file : String) (bytes : Encoding.Bytes),
      inputTarget s = .ok target u → NamesLocalFile setting u.includes target file bytes →
      ∃ t, inclusion setting .input s = .ok () t ∧
        t.includes = u.includes.enter (setting.library.resolve u.includes.current file) := by
  intro h
  have hread : inputTarget (.start "main.tex" (braced (charTokens "appendix"))) =
      .ok "appendix" (behindInput "appendix") := inputTarget_start (by decide)
  have hpass : passesOver bookSetting "appendix" = true :=
    namesLocalFile_appendix.passesOver_eq.trans mistakes_appendix
  obtain ⟨t, hrun, hincludes⟩ := h _ _ _ _ _ _ hread namesLocalFile_appendix
  rw [inclusion_passedOver hread hpass] at hrun
  obtain rfl := (EStateM.Result.ok.inj hrun).2
  exact nomatch congrArg Includes.inner hincludes

end Scan

end ProofProse
