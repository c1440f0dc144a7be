import ProofProse.Proofs.Following
import ProofProse.Proofs.Spelling

/-! # Names of files in a source

A command names a file in braces, and what is there is read like all text. Of the characters that
names of files are made of only the hyphen is more than itself: two or three of them become a dash
(`withDashes`). Everything else reaches the library as it is written, so the files that are looked
for are those of the name in the source if no two hyphens in it stand side by side, and only then
(`Scan.file_names_reach_the_library`). -/

namespace ProofProse

open Lexer (isPlain signs shortDash longDash)

/-- The characters of names of files. -/
def fileLetters : List Char :=
  "abcdefghijklmnopqrstuvwxyzABCDEFGHIJKLMNOPQRSTUVWXYZ0123456789./_-".toList

/-- What hyphens can become. -/
def dashes : List Char := [shortDash, longDash]

/-- Two hyphens side by side. -/
def twoHyphens : List Char := ['-', '-']

/-- Hyphens that stand side by side are made dashes, from left to right. -/
def withDashes : List Char → List Char
  | '-' :: '-' :: '-' :: cs => longDash :: withDashes cs
  | '-' :: '-' :: cs => shortDash :: withDashes cs
  | c :: cs => c :: withDashes cs
  | [] => []

/-- The token of a character of a name. -/
def nameToken (c : Char) : Token := if c = '_' then .subscript else .char c

variable {c : Char} {cs name : List Char}

/-! ### Dashes -/

theorem withDashes_eq_self (h : ¬twoHyphens <:+: name) : withDashes name = name := by
  fun_induction withDashes name with
  | case1 cs ih => exact absurd (List.IsPrefix.isInfix ⟨'-' :: cs, rfl⟩) h
  | case2 cs hne ih => exact absurd (List.IsPrefix.isInfix ⟨cs, rfl⟩) h
  | case3 c cs hthree htwo ih => rw [ih fun hcs => h (List.infix_cons hcs)]
  | case4 => rfl

theorem exists_dash (h : twoHyphens <:+: name) :
    ∃ c ∈ withDashes name, c = shortDash ∨ c = longDash := by
  fun_induction withDashes name with
  | case1 cs ih => exact ⟨longDash, List.mem_cons_self, .inr rfl⟩
  | case2 cs hne ih => exact ⟨shortDash, List.mem_cons_self, .inl rfl⟩
  | case3 c cs hthree htwo ih =>
    rcases List.infix_cons_iff.mp h with ⟨rest, hrest⟩ | hcs
    · obtain ⟨hc, hcs⟩ := List.cons.inj hrest
      exact (htwo rest hc.symm hcs.symm).elim
    · obtain ⟨d, hd, hdash⟩ := ih hcs
      exact ⟨d, List.mem_cons_of_mem c hd, hdash⟩
  | case4 => exact absurd (List.eq_nil_of_infix_nil h) (List.cons_ne_nil _ _)

theorem mem_withDashes (h : c ∈ withDashes name) : c ∈ name ∨ c = shortDash ∨ c = longDash := by
  fun_induction withDashes name with
  | case1 cs ih =>
    rcases List.mem_cons.mp h with rfl | h
    · exact .inr (.inr rfl)
    · exact (ih h).imp_left fun h => by simp [h]
  | case2 cs hne ih =>
    rcases List.mem_cons.mp h with rfl | h
    · exact .inr (.inl rfl)
    · exact (ih h).imp_left fun h => by simp [h]
  | case3 d cs hthree htwo ih =>
    rcases List.mem_cons.mp h with rfl | h
    · exact .inl List.mem_cons_self
    · exact (ih h).imp_left (List.mem_cons_of_mem d)
  | case4 => cases h

theorem withDashes_subset (hname : name ⊆ fileLetters) :
    withDashes name ⊆ fileLetters ++ dashes := by
  intro c hc
  rcases mem_withDashes hc with hc | hc
  · exact List.mem_append_left _ (hname hc)
  · exact List.mem_append_right _ (List.mem_pair.mpr hc)

theorem classes_of_name (h : c ∈ fileLetters ++ dashes) :
    Text.isBlank c = false ∧ (c == '"') = false ∧ (c == ',') = false := by
  have hall : ((fileLetters ++ dashes).all fun c =>
      !Text.isBlank c && !(c == '"') && !(c == ',')) = true := by decide
  simpa [and_assoc] using List.all_eq_true.mp hall c h

/-! ### How a name is read -/

theorem isPlain_of_mem_fileLetters (h : c ∈ fileLetters) (hhyphen : c ≠ '-') (hline : c ≠ '_') :
    isPlain c = true := by
  have hall : (fileLetters.all fun c => isPlain c || c == '-' || c == '_') = true := by
    decide
  simpa [hhyphen, hline] using List.all_eq_true.mp hall c h

/-- **A name is read** with dashes for its hyphens, by the cases of what becomes of them. -/
theorem tokenize_name (h : name ⊆ fileLetters) :
    tokenize name = (withDashes name).map nameToken := by
  fun_induction withDashes name with
  | case1 cs ih =>
    rw [Lexer.Lexeme.longDash.tokenize_eq, ih (fun c hc => h (by simp [hc]))]
    rfl
  | case2 cs hne ih =>
    have hhead : cs.head? ≠ some '-' := fun hcs => by
      obtain ⟨rest, rfl⟩ := List.head?_eq_some_iff.mp hcs
      exact hne rest rfl
    rw [(Lexer.Lexeme.shortDash hhead).tokenize_eq, ih (fun c hc => h (by simp [hc]))]
    rfl
  | case3 c cs hthree htwo ih =>
    have hc : tokenize (c :: cs) = nameToken c :: tokenize cs := by
      by_cases hhyphen : c = '-'
      · subst hhyphen
        have hhead : cs.head? ≠ some '-' := fun hcs => by
          obtain ⟨rest, rfl⟩ := List.head?_eq_some_iff.mp hcs
          exact htwo rest rfl rfl
        exact (Lexer.Lexeme.hyphen hhead).tokenize_eq
      by_cases hline : c = '_'
      · subst hline
        have hsign : ('_', Token.subscript) ∈ signs := by decide
        exact Lexer.tokenize_sign hsign
      · have hplain := isPlain_of_mem_fileLetters (h List.mem_cons_self) hhyphen hline
        rw [Lexer.tokenize_plain hplain, nameToken, if_neg hline]
    rw [hc, ih (fun c hc => h (List.mem_cons_of_mem _ hc))]
    rfl
  | case4 => rfl

theorem text_nameToken (c : Char) : (nameToken c).text = String.singleton c := by
  unfold nameToken
  split
  · next hc =>
    rw [hc]
    decide
  · rfl

theorem standsInGroup_nameTokens (cs : List Char) : ∀ t ∈ cs.map nameToken, t.StandsInGroup := by
  intro t ht
  obtain ⟨c, -, rfl⟩ := List.mem_map.mp ht
  unfold nameToken
  split
  · exact ⟨nofun, nofun, nofun, nofun⟩
  · exact ⟨nofun, nofun, nofun, nofun⟩

theorem plainText_nameTokens (h : ∀ c ∈ cs, Text.isBlank c = false) :
    plainText (cs.map nameToken) = String.ofList cs := by
  have hbraces (t : Token) (ht : t ∈ cs.map nameToken) : (!t.isBrace) = true := by
    obtain ⟨hopen, hclose, -, -⟩ := standsInGroup_nameTokens cs t ht
    cases t with
    | openGroup => exact absurd rfl hopen
    | closeGroup => exact absurd rfl hclose
    | _ => rfl
  have hprinted : printed (cs.map nameToken) = printed (cs.map .char) := by
    unfold printed
    rw [List.map_map, List.map_map]
    exact congrArg String.join (List.map_congr_left fun c _ => text_nameToken c)
  unfold plainText
  rw [List.filter_eq_self.mpr hbraces, hprinted, ← plainText_chars h]
  unfold plainText
  rw [filter_chars]

/-- **The text of a name** is the name with its dashes. -/
theorem plainText_name (h : name ⊆ fileLetters) :
    plainText (tokenize name) = String.ofList (withDashes name) := by
  rw [tokenize_name h]
  exact plainText_nameTokens fun c hc => (classes_of_name (withDashes_subset h hc)).1

/-! ### The files of a name -/

namespace Inclusion

variable {kind : InclusionKind}

/-- The kinds of files that are read. -/
def readKinds : List InclusionKind := [.input, .package]

/-- What may be put behind a name. -/
def endings : List String := ["", ".tex", ".sty"]

theorem head?_candidates (hkind : kind ∈ readKinds) (hne : cs ≠ [])
    (hcs : cs ⊆ fileLetters ++ dashes) :
    ∃ ending ∈ endings,
      (candidates kind (String.ofList cs)).head? = some (String.ofList cs ++ ending) := by
  have hblank (c : Char) (hc : c ∈ cs) : Text.isBlank c = false := (classes_of_name (hcs hc)).1
  have hquote (c : Char) (hc : c ∈ cs) : (c == '"') = false := (classes_of_name (hcs hc)).2.1
  have htrim : Text.trimQuotes (Text.trim (String.ofList cs)) = String.ofList cs := by
    unfold Text.trim Text.trimQuotes
    rw [String.toList_ofList, String.toList_ofList, trimBy_eq_self hblank, trimBy_eq_self hquote]
  have hempty : (String.ofList cs).isEmpty = false := by
    simpa [String.isEmpty_iff] using hne
  unfold candidates
  rw [htrim]
  dsimp only
  rw [hempty, if_neg Bool.false_ne_true]
  rcases List.mem_pair.mp hkind with rfl | rfl
  · dsimp only
    split
    · exact ⟨"", by decide, by rw [String.append_empty]; rfl⟩
    · exact ⟨".tex", by decide, rfl⟩
  · dsimp only
    split
    · exact ⟨"", by decide, by rw [String.append_empty]; rfl⟩
    · exact ⟨".sty", by decide, rfl⟩

/-- **The files that are tried** are those of the name as it is written just if no hyphens stand side
by side in it: a dash in the name is in the first of them. -/
theorem candidates_withDashes (hkind : kind ∈ readKinds) (hname : name ⊆ fileLetters) :
    candidates kind (String.ofList (withDashes name)) = candidates kind (String.ofList name) ↔
      ¬twoHyphens <:+: name := by
  refine ⟨fun heq hinfix => ?_, fun h => by rw [withDashes_eq_self h]⟩
  obtain ⟨dash, hmem, hdash⟩ := exists_dash hinfix
  have hne : name ≠ [] := by
    rintro rfl
    exact List.cons_ne_nil _ _ (List.eq_nil_of_infix_nil hinfix)
  obtain ⟨ending, -, hdashed⟩ :=
    head?_candidates hkind (List.ne_nil_of_mem hmem) (withDashes_subset hname)
  obtain ⟨ending', hending, hwritten⟩ :=
    head?_candidates hkind hne fun c hc => List.mem_append_left dashes (hname hc)
  rw [heq, hwritten] at hdashed
  have hlist : name ++ ending'.toList = withDashes name ++ ending.toList := by
    simpa using congrArg String.toList (Option.some.inj hdashed)
  have hletter : dash ∈ fileLetters := by
    have hin : dash ∈ name ++ ending'.toList := by
      rw [hlist]
      exact List.mem_append_left _ hmem
    have hendings : ∀ e ∈ endings, e.toList ⊆ fileLetters := by decide
    exact (List.mem_append.mp hin).elim (fun h => hname h) fun h => hendings ending' hending h
  have hnone : fileLetters.all (fun c => !dashes.contains c) = true := by decide
  have hother : dash ∉ dashes := by simpa using List.all_eq_true.mp hnone dash hletter
  exact hother (List.mem_pair.mpr hdash)

end Inclusion

/-! ### How a command reads a name -/

namespace Scan

variable {s : State} {tokens rest : List Token}

/-- The commands that name files in braces, and the kinds of these files. -/
def fileCommands : List (String × InclusionKind) :=
  inputCommands.map (·, .input) ++ [("usepackage", .package), ("RequirePackage", .package)]

theorem ofName?_fileCommands : ∀ p ∈ fileCommands, Effect.ofName? p.1 = some (.inclusion p.2) := by
  have huse : Effect.ofName? "usepackage" = some (.inclusion .package) :=
    Effect.ofName?_of_lookup (by decide +kernel)
  have hrequire : Effect.ofName? "RequirePackage" = some (.inclusion .package) :=
    Effect.ofName?_of_lookup (by decide +kernel)
  intro p hp
  rcases List.mem_append.mp hp with hp | hp
  · obtain ⟨command, hcommand, rfl⟩ := List.mem_map.mp hp
    exact ofName?_inputCommands command hcommand
  · rcases List.mem_pair.mp hp with rfl | rfl
    · exact huse
    · exact hrequire

theorem inputTarget_group (htokens : IsGroup tokens) (rest : List Token) :
    inputTarget (s.facing (braced tokens ++ rest)) =
      .ok (plainText tokens) (s.past (tokens.length + 2) rest) := by
  have hskip : onStream Stream.skipSpaces (s.facing (braced tokens ++ rest)) =
      .ok () (s.facing (braced tokens ++ rest)) :=
    onStream_ok (Stream.skipWhile_of_head (by simp [State.facing, braced, Token.isSpace]))
  have hpeek : peek (s.facing (braced tokens ++ rest)) =
      .ok (some .openGroup) (s.facing (braced tokens ++ rest)) := rfl
  unfold inputTarget
  rw [bind_ok hskip, bind_ok hpeek, ← length_braced]
  exact argumentText_braced htokens rest

theorem inclusion_package_group (setting : Setting) (htokens : IsGroup tokens) (rest : List Token) :
    inclusion setting .package (s.facing (braced tokens ++ rest)) =
      (discard optionalArgument >>= fun _ =>
        followPackages setting ((Text.split ',' (plainText tokens)).map Text.trim))
        (s.past (tokens.length + 2) rest) := by
  have hfirst : optionalArgument (s.facing (braced tokens ++ rest)) = .ok none _ :=
    optionalArgument_group (braced_append tokens rest)
  show (discard optionalArgument >>= fun _ => argumentText >>= fun names =>
    discard optionalArgument >>= fun _ =>
      followPackages setting ((Text.split ',' names).map Text.trim)) _ = _
  rw [bind_ok (discard_ok hfirst), bind_ok (argumentText_braced htokens rest), length_braced]

theorem split_name (hcs : cs ⊆ fileLetters ++ dashes) :
    (Text.split ',' (String.ofList cs)).map Text.trim = [String.ofList cs] := by
  have hcomma (c : Char) (hc : c ∈ cs) : (c == ',') = false := (classes_of_name (hcs hc)).2.2
  have hblank (c : Char) (hc : c ∈ cs) : Text.isBlank c = false := (classes_of_name (hcs hc)).1
  have htrim : Text.trim (String.ofList cs) = String.ofList cs := by
    unfold Text.trim
    rw [String.toList_ofList, trimBy_eq_self hblank]
  unfold Text.split Text.splitWhere
  rw [String.toList_ofList, Text.splitFrom_of_none cs [] hcomma]
  exact congrArg (fun file => [file]) htrim

/-- **File names reach the library as they are written, but for their dashes.** A command in front of
the name of a file is read as the command with a group; the target of an input, or the one package
that is named, is the name with dashes for the hyphens that stand side by side. It is the name in the
source, and the files that are tried are those of the name in the source, just if there are no such
hyphens in it. -/
theorem file_names_reach_the_library (setting : Setting) (s : State) {command : String}
    {kind : InclusionKind} (hcommand : (command, kind) ∈ fileCommands) (hname : name ⊆ fileLetters)
    (behind : List Char) :
    Effect.ofName? command = some (.inclusion kind) ∧
      tokenize ('\\' :: (command.toList ++ '\x7b' :: (name ++ '\x7d' :: behind))) =
        .control command :: (braced (tokenize name) ++ tokenize behind) ∧
      inputTarget (s.facing (braced (tokenize name) ++ tokenize behind)) =
        .ok (String.ofList (withDashes name))
          (s.past ((tokenize name).length + 2) (tokenize behind)) ∧
      inclusion setting .package (s.facing (braced (tokenize name) ++ tokenize behind)) =
        (discard optionalArgument >>= fun _ =>
          followPackages setting [String.ofList (withDashes name)])
          (s.past ((tokenize name).length + 2) (tokenize behind)) ∧
      (plainText (tokenize name) = String.ofList name ↔ ¬twoHyphens <:+: name) ∧
      (Inclusion.candidates kind (String.ofList (withDashes name)) =
        Inclusion.candidates kind (String.ofList name) ↔ ¬twoHyphens <:+: name) := by
  have hgroup : IsGroup (tokenize name) := by
    rw [tokenize_name hname]
    exact isGroup_of_standsInGroup (standsInGroup_nameTokens _)
  have hwords : ∀ p ∈ fileCommands, p.1.toList ≠ [] ∧
      p.1.toList.all Lexer.isNameLetter = true ∧ p.2 ∈ Inclusion.readKinds := by decide
  obtain ⟨hne, hletters, hkind⟩ := hwords _ hcommand
  have hslash : '\\' ∉ fileLetters := by decide
  have heven : Source.backslashes name % 2 = 0 := by
    rw [Lexer.backslashes_eq_zero fun h => hslash (hname h)]
  have htokens := Lexer.tokenize_command hne (List.all_eq_true.mp hletters) heven behind
  rw [String.ofList_toList] at htokens
  have htarget := inputTarget_group (s := s) hgroup (tokenize behind)
  have hpackage := inclusion_package_group (s := s) setting hgroup (tokenize behind)
  rw [plainText_name hname] at htarget hpackage
  rw [split_name (withDashes_subset hname)] at hpackage
  have hcandidates := Inclusion.candidates_withDashes hkind hname
  have heffect := ofName?_fileCommands (command, kind) hcommand
  refine ⟨heffect, htokens, htarget, hpackage, ?_, hcandidates⟩
  rw [plainText_name hname]
  refine ⟨fun heq => hcandidates.mp (by rw [heq]), fun h => by rw [withDashes_eq_self h]⟩

/-- Two hyphens in the name of a file are looked for as a dash, and one hyphen as it is. -/
theorem name_with_two_hyphens :
    ("input", InclusionKind.input) ∈ fileCommands ∧ "part-1/a--b".toList ⊆ fileLetters ∧
      inputTarget ((State.start "main.tex" []).facing (braced (tokenize "part-1/a--b".toList))) =
        .ok "part-1/a\u2013b" ((State.start "main.tex" []).past 12 []) ∧
      Inclusion.candidates .input "part-1/a\u2013b" ≠ Inclusion.candidates .input "part-1/a--b" := by
  have hcommand : ("input", InclusionKind.input) ∈ fileCommands := by decide
  have hname : "part-1/a--b".toList ⊆ fileLetters := by decide
  obtain ⟨-, -, htarget, -, -, hcandidates⟩ := file_names_reach_the_library
    ⟨.standard, .empty⟩ (State.start "main.tex" []) hcommand hname []
  have hdashed : String.ofList (withDashes "part-1/a--b".toList) = "part-1/a\u2013b" := by
    decide
  have hwritten : String.ofList "part-1/a--b".toList = "part-1/a--b" := by decide
  have hlength : (tokenize "part-1/a--b".toList).length = 10 := by decide
  rw [Lexer.tokenize_nil, List.append_nil, hdashed, hlength] at htarget
  rw [hdashed, hwritten] at hcandidates
  exact ⟨hcommand, hname, htarget, mt hcandidates.mp (by decide +kernel)⟩

/-- Not every name is read as it is written. -/
theorem hyphens_lost :
    ¬∀ name : List Char, name ≠ [] → name ⊆ fileLetters →
      plainText (tokenize name) = String.ofList name := by
  intro h
  have hread := h "a--b".toList (by decide) (by decide)
  revert hread
  decide

end Scan

end ProofProse
