import ProofProse.Proofs.Edge
import ProofProse.Proofs.Inside
import ProofProse.Proofs.Loop

/-! # Lists of packages

A command that names several packages reads the first one that is found, and names those behind it
again behind its end. If each package that is read is complete, and `\usepackage` means behind it
what it did, this comes to the same as a command for each package (`package_list_is_its_packages`):
both read the packages one after the other (`Follows`), by induction on the list (`comesTo_list`,
`comesTo_singles`).

Neither can be left out (`lists_told_apart`): a package can define `\usepackage`, and it can end
with a command that takes what stands behind its end. -/

namespace ProofProse

namespace Scan

/-- `\usepackage` is the command that reads packages. -/
def ReadsPackages (d : Dictionary) : Prop := effect? d "usepackage" = some (.inclusion .package)

section Follows

variable (setting : Setting) (frame : Frame) (start : Nat)

/-- Packages are read one after the other: of each one nothing is read, or it is found and complete,
and behind it `\usepackage` has its meaning still if there are more. -/
inductive Follows : List String → State → List Outcome → State → Prop
  | nil {s : State} : Follows [] s [] s
  | passed {name : String} {names : List String} {s t u : State} {outcomes : List Outcome}
      (hload : load setting .package name s = .ok none t) (hrest : Follows names t outcomes u) :
      Follows (name :: names) s outcomes u
  | read {name : String} {names : List String} {s v u : State} {path : String}
      {tokens : List Token} {outcomes outcomes' : List Outcome}
      (hload : load setting .package name s = .ok (some ⟨path, tokens ++ [.endOfInput]⟩) s)
      (hfile : Complete setting frame start tokens
        { s with includes := s.includes.enter path } outcomes v)
      (hnamed : names ≠ [] → ReadsPackages v.dictionary)
      (hrest : Follows names (v.leaveFiles 1) outcomes' u) :
      Follows (name :: names) s (outcomes ++ outcomes') u

end Follows

/-! ### The command -/

/-- The command, with what it has in braces. -/
def packageTokens (content : List Token) : List Token :=
  .control "usepackage" :: (.openGroup :: content ++ [.closeGroup])

/-- What stands in braces names some packages: it has no groups, and its text is a list of the
names, with commas between them and perhaps blanks around them. -/
structure Names (content : List Token) (names : List String) : Prop where
  plain : ∀ t ∈ content, t.StandsInGroup
  split : (Text.split ',' (plainText content)).map Text.trim = names

section Command

variable {setting : Setting} {nested : Frame → Scan Flow} {frame : Frame} {s t u : State}
  {names : List String} {content behind : List Token}

theorem noOption_packageTokens (content behind : List Token) :
    NoOption (packageTokens content ++ behind) := by
  intro offset h
  cases h

theorem packageNames_ok (hcontent : ∀ t ∈ content, t.StandsInGroup) (hbehind : NoOption behind)
    (hs : s.stream.ahead = .openGroup :: content ++ .closeGroup :: behind) :
    packageNames s = .ok (plainText content)
      { s with stream := ⟨behind, s.consumed + (content.length + 2)⟩ } := by
  have hfirst : optionalArgument s = .ok none s := by
    refine optionalArgument_none fun offset h => ?_
    rw [hs] at h
    cases h
  have htext : argumentText s = .ok (plainText content)
      { s with stream := ⟨behind, s.consumed + (content.length + 2)⟩ } := by
    unfold argumentText
    rw [bind_ok (argument_group hcontent hs)]
    rfl
  unfold packageNames
  rw [bind_ok (discard_ok hfirst), bind_ok htext,
    bind_ok (discard_ok (optionalArgument_none hbehind))]
  rfl

/-- **The command** takes itself and what it has in braces, and reads the packages. -/
theorem round_packages (hcommand : ReadsPackages s.dictionary) (hcontent : Names content names)
    (hbehind : NoOption behind) (consumed proofStart : Nat) :
    round setting nested frame (s.elsewhere (packageTokens content ++ behind) consumed proofStart) =
      goingOn (followPackages setting names)
        (s.elsewhere behind (consumed + 1 + (content.length + 2)) proofStart) := by
  obtain ⟨t, ht⟩ : ∃ t, t = s.elsewhere (packageTokens content ++ behind) consumed proofStart :=
    ⟨_, rfl⟩
  have hahead : t.stream.ahead = packageTokens content ++ behind := by rw [ht]; rfl
  have hinclusion : t.inclusion? = some .package := by
    have hdictionary : effect? t.dictionary "usepackage" = some (.inclusion .package) := by
      rw [ht]
      exact hcommand
    unfold State.inclusion?
    rw [hahead]
    dsimp only [packageTokens, List.cons_append]
    rw [hdictionary]
  obtain ⟨name, rest, hname, -, hround⟩ := round_of_inclusion hinclusion
  have hrest : rest = .openGroup :: content ++ .closeGroup :: behind := by
    rw [hahead] at hname
    obtain ⟨-, rfl⟩ := List.cons.inj hname
    simp
  have hread : packageNames { t with stream := ⟨rest, t.consumed + 1⟩ } = .ok (plainText content)
      (s.elsewhere behind (consumed + 1 + (content.length + 2)) proofStart) := by
    rw [packageNames_ok hcontent.plain hbehind hrest, ht]
    rfl
  rw [← ht, hround]
  refine goingOn_congr ?_
  rw [inclusion_package, bind_ok hread, hcontent.split]

theorem load_elsewhere {kind : InclusionKind} {target : String} {found? : Option Found}
    (h : load setting kind target s = .ok found? t) (tokens : List Token)
    (consumed proofStart : Nat) :
    load setting kind target (s.elsewhere tokens consumed proofStart) =
      .ok found? (t.elsewhere tokens consumed proofStart) := by
  rcases load_cases setting kind target s.includes with hload | ⟨warning, hload⟩ | ⟨found, hload⟩
  all_goals
    rw [hload s rfl] at h
    cases h
    exact hload _ rfl

theorem followPackages_passed {name : String} (hload : load setting .package name s = .ok none t) :
    followPackages setting (name :: names) s = followPackages setting names t := by
  rw [followPackages, bind_ok hload]

theorem followPackages_read {name path : String} {tokens : List Token}
    (hload : load setting .package name s = .ok (some ⟨path, tokens⟩) s) :
    followPackages setting (name :: names) s = .ok ()
      { s with
        stream := ⟨tokens ++ packageCommand names ++ s.stream.ahead, s.consumed⟩
        includes := s.includes.enter path } := by
  rw [followPackages, bind_ok hload]
  rfl

end Command

/-! ### Lists that are written again -/

end Scan

theorem Text.trimBy_intercalate {p : Char → Bool} {c : Char} (hc : p c = false) :
    ∀ {parts : List (List Char)}, (∀ part ∈ parts, Text.trimBy p part = part) →
      Text.trimBy p ([c].intercalate parts) = [c].intercalate parts
  | [], _ => rfl
  | [part], h => by
    rw [List.intercalate_singleton]
    exact h part List.mem_cons_self
  | part :: next :: parts, h => by
    have hpart := h part List.mem_cons_self
    have hrest :
        Text.trimBy p ([c].intercalate (next :: parts)) = [c].intercalate (next :: parts) :=
      Text.trimBy_intercalate hc fun q hq => h q (List.mem_cons_of_mem part hq)
    rw [List.intercalate_cons_cons, List.append_assoc, List.singleton_append]
    refine Text.trimBy_of_ends (fun d hd => ?_) fun d hd => ?_
    · cases part with
      | nil =>
        cases hd
        exact hc
      | cons e part =>
        rw [List.cons_append, List.head?_cons] at hd
        cases hd
        exact Text.trimBy_head (congrArg List.head? hpart)
    · rw [List.getLast?_append_cons, List.getLast?_cons] at hd
      cases hlast : ([c].intercalate (next :: parts)).getLast? with
      | none =>
        rw [hlast] at hd
        cases hd
        exact hc
      | some e =>
        rw [hlast] at hd
        cases hd
        rw [← hrest] at hlast
        exact Text.trimBy_getLast hlast

namespace Scan

/-- A name that a list of packages has: trimmed, and without commas. -/
def IsListed (name : String) : Prop := Text.trim name = name ∧ ',' ∉ name.toList

instance (name : String) : Decidable (IsListed name) := inferInstanceAs (Decidable (_ ∧ _))

section Lists

variable {setting : Setting} {frame : Frame} {start : Nat} {s u : State} {names : List String}
  {outcomes : List Outcome} {content rest : List Token} {contents : List (List Token)}

theorem Names.isListed (h : Names content names) : ∀ name ∈ names, IsListed name := by
  intro name hname
  rw [← h.split] at hname
  obtain ⟨part, hpart, rfl⟩ := List.mem_map.mp hname
  refine ⟨Text.trim_trim part, fun hmem => Text.notMem_of_split hpart ?_⟩
  unfold Text.trim at hmem
  rw [String.toList_ofList] at hmem
  exact (Text.trimBy_isInfix _ _).subset hmem

theorem names_written (hne : names ≠ []) (hnames : ∀ name ∈ names, IsListed name) :
    Names (charTokens (String.intercalate "," names)) names where
  plain := standsInGroup_chars _
  split := by
    have hblank : Text.isBlank ',' = false := by decide
    have htrim : Text.trim (String.intercalate "," names) = String.intercalate "," names := by
      have hjoin : Text.trimBy Text.isBlank ([','].intercalate (names.map String.toList)) =
          [','].intercalate (names.map String.toList) := by
        refine Text.trimBy_intercalate hblank fun part hpart => ?_
        obtain ⟨name, hname, rfl⟩ := List.mem_map.mp hpart
        have htrim := congrArg String.toList (hnames name hname).1
        unfold Text.trim at htrim
        rwa [String.toList_ofList] at htrim
      have hlist : (String.intercalate "," names).toList =
          [','].intercalate (names.map String.toList) := String.toList_intercalate
      unfold Text.trim
      rw [hlist, hjoin, ← hlist, String.ofList_toList]
    have hsplit : Text.split ',' (String.intercalate "," names) = names :=
      Text.split_intercalate hne fun name hname => (hnames name hname).2
    rw [plainText_written, htrim, hsplit]
    conv_rhs => rw [← List.map_id names]
    exact List.map_congr_left fun name hname => (hnames name hname).1

theorem names_singles (hnames : ∀ name ∈ names, IsListed name) :
    List.Forall₂ (fun content name => Names content [name]) (names.map charTokens) names := by
  induction names with
  | nil => exact .nil
  | cons name names ih =>
    have hname : ∀ other ∈ [name], IsListed other := fun other hother =>
      hnames other (List.mem_singleton.mp hother ▸ List.mem_cons_self)
    exact .cons (names_written (List.cons_ne_nil name []) hname)
      (ih fun other hother => hnames other (List.mem_cons_of_mem name hother))

/-- What the loop comes to behind the packages: the state `u`, with the rest ahead. -/
def Behind (u : State) (rest : List Token) (t : State) : Prop :=
  u.Agrees t ∧ t.stream.ahead = rest

/-- **The list.** By induction on the packages. -/
theorem comesTo_list (hfollows : Follows setting frame start names s outcomes u)
    (hnames : ∀ name ∈ names, IsListed name) (hrest : NoOption rest) (consumed proofStart : Nat) :
    ∃ t, followPackages setting names (s.elsewhere rest consumed proofStart) = .ok () t ∧
      ComesTo setting frame start t outcomes (Behind u rest) := by
  induction hfollows generalizing consumed proofStart with
  | @nil s => exact ⟨_, rfl, comesTo_here ⟨rfl, rfl⟩⟩
  | passed hload _ ih =>
    rw [followPackages_passed (load_elsewhere hload rest consumed proofStart)]
    exact ih (fun name hname => hnames name (List.mem_cons_of_mem _ hname)) consumed proofStart
  | @read name names s v u path tokens outcomes outcomes' hload hfile hnamed _ ih =>
    have hlater : ∀ other ∈ names, IsListed other := fun other hother =>
      hnames other (List.mem_cons_of_mem _ hother)
    refine ⟨_, followPackages_read (load_elsewhere hload rest consumed proofStart), ?_⟩
    refine comesTo_file (packageCommand names ++ rest) hfile (fun consumed proofStart => ?_)
      (by simp [State.elsewhere, State.consumed])
    cases names with
    | nil =>
      obtain ⟨t, ht, hcomes⟩ := ih hlater consumed proofStart
      cases ht
      exact hcomes
    | cons other names =>
      have hcontent := names_written (List.cons_ne_nil other names) hlater
      have hround : round setting (scan setting) frame _ = _ :=
        round_packages (s := v.leaveFiles 1) (hnamed (List.cons_ne_nil other names)) hcontent hrest
          consumed proofStart
      obtain ⟨t, ht, hcomes⟩ := ih hlater _ proofStart
      have hbehind : packageCommand (other :: names) ++ rest =
          packageTokens (charTokens (String.intercalate "," (other :: names))) ++ rest := by
        simp [packageCommand, packageTokens]
      rw [hbehind]
      exact comesTo_goOn (hround.trans (bind_ok ht)) hcomes

/-- **The single commands.** By induction on the packages. -/
theorem comesTo_singles (hfollows : Follows setting frame start names s outcomes u)
    (hcommand : names ≠ [] → ReadsPackages s.dictionary)
    (hcontents : List.Forall₂ (fun content name => Names content [name]) contents names)
    (hrest : NoOption rest) (consumed proofStart : Nat) :
    ComesTo setting frame start
      (s.elsewhere (contents.flatMap packageTokens ++ rest) consumed proofStart) outcomes
      (Behind u rest) := by
  have hnone : ∀ contents : List (List Token),
      NoOption (contents.flatMap packageTokens ++ rest) := by
    intro contents
    cases contents with
    | nil => exact hrest
    | cons content contents =>
      rw [List.flatMap_cons, List.append_assoc]
      exact noOption_packageTokens _ _
  induction hfollows generalizing consumed proofStart contents with
  | nil =>
    cases hcontents
    exact comesTo_here ⟨rfl, rfl⟩
  | @passed name names s t u outcomes hload _ ih =>
    cases hcontents with
    | @cons content _ contents _ hcontent hcontents =>
      have hnext : names ≠ [] → ReadsPackages t.dictionary := by
        intro _
        rw [(load_sameSource hload).2.2]
        exact hcommand (List.cons_ne_nil name names)
      have hround : round setting (scan setting) frame _ = _ := round_packages
        (hcommand (List.cons_ne_nil name names)) hcontent (hnone contents) consumed proofStart
      have hread : followPackages setting [name] _ = _ :=
        followPackages_passed (load_elsewhere hload (contents.flatMap packageTokens ++ rest)
          (consumed + 1 + (content.length + 2)) proofStart)
      rw [List.flatMap_cons, List.append_assoc]
      exact comesTo_goOn (hround.trans (bind_ok hread)) (ih hnext hcontents _ proofStart)
  | @read name names s v u path tokens outcomes outcomes' hload hfile hnamed _ ih =>
    cases hcontents with
    | @cons content _ contents _ hcontent hcontents =>
      have hround : round setting (scan setting) frame _ = _ := round_packages
        (hcommand (List.cons_ne_nil name names)) hcontent (hnone contents) consumed proofStart
      have hread : followPackages setting [name] _ = _ :=
        followPackages_read (load_elsewhere hload (contents.flatMap packageTokens ++ rest)
          (consumed + 1 + (content.length + 2)) proofStart)
      rw [List.flatMap_cons, List.append_assoc]
      refine comesTo_goOn (hround.trans (bind_ok hread)) ?_
      refine comesTo_file (contents.flatMap packageTokens ++ rest) hfile
        (fun consumed proofStart => ih hnamed hcontents consumed proofStart) ?_
      simp [State.elsewhere, State.consumed, packageCommand]

end Lists

end Scan

open Scan
open Encoding (ofText)

/-- **A command for several packages** comes to what a command for each of them comes to. Let
`\usepackage` have its own meaning, let the packages be such that each one is passed over, is not
found or cannot be read, or is found and complete, and does not give `\usepackage` another meaning
if there are more behind it, and let no argument in brackets follow. Then the loop over the file
comes from the one command, and from the single ones in a row, to the rest with the same outcomes on
the way, unless a limit on tokens stops it, and in both cases the state is `u`: with the same
definitions, files being read, depths, draft and warnings. -/
theorem package_list_is_its_packages (setting : Setting) (frame : Frame) (start : Nat)
    {s u : State} {names : List String} {outcomes : List Outcome} {content rest : List Token}
    {contents : List (List Token)}
    (hcommand : ReadsPackages s.dictionary) (hcontent : Names content names)
    (hcontents : List.Forall₂ (fun content name => Names content [name]) contents names)
    (hrest : NoOption rest) (hfollows : Follows setting frame start names s outcomes u)
    (consumed proofStart : Nat) :
    ComesTo setting frame start
        (s.elsewhere (packageTokens content ++ rest) consumed proofStart) outcomes
        (Behind u rest) ∧
      ComesTo setting frame start
        (s.elsewhere (contents.flatMap packageTokens ++ rest) consumed proofStart) outcomes
        (Behind u rest) := by
  constructor
  · have hround : Scan.round setting (scan setting) frame _ = _ :=
      round_packages hcommand hcontent hrest consumed proofStart
    obtain ⟨t, ht, hcomes⟩ := comesTo_list hfollows hcontent.isListed hrest
      (consumed + 1 + (content.length + 2)) proofStart
    exact comesTo_goOn (hround.trans (bind_ok ht)) hcomes
  · exact comesTo_singles hfollows (fun _ => hcommand) hcontents hrest consumed proofStart

/-! ### A package of one's own -/

/-- Files are read with the usual options, and there is one package, which has this text. -/
def packageSetting (text : String) : Setting := ⟨.standard, .ofFiles [("a.sty", ofText text)]⟩

theorem passesOver_packageSetting {name : String} (text : String) (hname : name.isEmpty = false) :
    passesOver (packageSetting text) name = Catalogue.standard.knows name := by
  unfold passesOver
  rw [hname]
  rfl

theorem knows_standard (name : String) : Catalogue.standard.knows name =
    ((Catalogue.baseName name).isEmpty ||
      Catalogue.ignoredStyles.contains (Catalogue.stem (Catalogue.baseName name)) ||
      Catalogue.distributedFiles.contains (Catalogue.baseName name) ||
      Catalogue.endings.any fun ending =>
        Catalogue.distributedFiles.contains (Catalogue.baseName name ++ ending)) := by
  unfold Catalogue.knows Catalogue.standard Catalogue.ofList
  simp only [Std.HashSet.contains_ofList]

theorem load_found {text : String} {tokens : List Token}
    (h : ((search (packageSetting text) "a" "main.tex"
      (Inclusion.candidates .package "a")).toOption.map fun found => (found.path, found.tokens)) =
      some ("a.sty", tokens ++ [.endOfInput])) :
    load (packageSetting text) .package "a" (.start "main.tex" []) =
      .ok (some ⟨"a.sty", tokens ++ [.endOfInput]⟩) (.start "main.tex" []) := by
  have hpass : ¬ passesOver (packageSetting text) "a" = true := by
    rw [passesOver_packageSetting text (by decide), knows_standard]
    decide +kernel
  have hdepth : (State.start "main.tex" []).includes.depth <
      (packageSetting text).options.includeDepth := by
    show 0 < 5
    decide
  have hsearch : search (packageSetting text) "a" (State.start "main.tex" []).includes.current
      (Inclusion.candidates .package "a") = .ok ⟨"a.sty", tokens ++ [.endOfInput]⟩ := by
    show search (packageSetting text) "a" "main.tex" (Inclusion.candidates .package "a") = _
    cases hs : search (packageSetting text) "a" "main.tex" (Inclusion.candidates .package "a") with
    | error warning =>
      rw [hs] at h
      cases h
    | ok found =>
      rw [hs] at h
      obtain ⟨hpath, htokens⟩ := Prod.mk.inj (Option.some.inj h)
      rw [← hpath, ← htokens]
  rw [load_eq_search hpass hdepth, hsearch]

theorem effect?_def : effect? {} "def" = some (.definition .parameterText) :=
  effect?_empty (Structural.ofName?_eq_none_iff.mpr (by decide)) (by decide)
    (Effect.ofName?_of_lookup (by decide +kernel))

theorem readsPackages_empty : ReadsPackages {} :=
  effect?_empty (Structural.ofName?_eq_none_iff.mpr (by decide)) (by decide)
    (Effect.ofName?_of_lookup (by decide +kernel))

/-- The package defines `\x`. -/
def definingSetting : Setting := packageSetting "\\def\\x\x7by\x7d"

/-- What it comes to: nothing has changed but that `\x` is defined. -/
def definedState : State :=
  { State.start "main.tex" [] with
    dictionary := ({} : Dictionary).enter "x" (.defined (.simple 0 [.char 'y'])) }

/-- A package that consists of a definition is read, and another one is passed over. -/
theorem follows_definition {setting : Setting} {s : State} {package other path name : String}
    {body : List Token}
    (hload : load setting .package package s =
      .ok (some ⟨path, definitionTokens name [] body ++ [.endOfInput]⟩) s)
    (hdefinition : effect? s.dictionary "def" = some (.definition .parameterText))
    (hcommand : ReadsPackages s.dictionary) (hname : name ≠ "usepackage")
    (hfrozen : s.dictionary.isFrozen name = false) (hbody : ∀ t ∈ body, t.StandsInGroup)
    (hpass : passesOver setting other = true) :
    Follows setting .file 0 [package, other] s []
      { s with dictionary := s.dictionary.enter name (.defined (.simple 0 body)) } := by
  have hfile : Complete setting .file 0 _ { s with includes := s.includes.enter path } [] _ :=
    complete_definition hdefinition readParameterText_none hfrozen (protectedArity?_ne_zero name)
      hbody
  exact .read hload hfile (fun _ => (effect?_enter _ hname).trans hcommand)
    (.passed (load_of_passesOver hpass) .nil)

theorem follows_definedState :
    Follows definingSetting .file 0 ["a", "amsmath"] (.start "main.tex" []) [] definedState := by
  have hload : load definingSetting .package "a" (.start "main.tex" []) =
      .ok (some ⟨"a.sty", definitionTokens "x" [] [.char 'y'] ++ [.endOfInput]⟩)
        (.start "main.tex" []) :=
    load_found (by decide +kernel)
  have hpass : passesOver definingSetting "amsmath" = true := by
    rw [definingSetting, passesOver_packageSetting _ (by decide), knows_standard]
    decide +kernel
  exact follows_definition hload effect?_def readsPackages_empty (by decide)
    (Dictionary.isFrozen_empty "x") (standsInGroup_chars ['y']) hpass

/-- **A package of one's own and a distributed one**, named by one command or by two. -/
theorem own_and_distributed_package :
    ReadsPackages (State.start "main.tex" []).dictionary ∧
    Names (charTokens "a,amsmath") ["a", "amsmath"] ∧
    List.Forall₂ (fun content name => Names content [name])
      (["a", "amsmath"].map charTokens) ["a", "amsmath"] ∧
    NoOption [] ∧
    Follows definingSetting .file 0 ["a", "amsmath"] (.start "main.tex" []) [] definedState ∧
    ComesTo definingSetting .file 0
      ((State.start "main.tex" []).elsewhere (packageTokens (charTokens "a,amsmath") ++ []) 0 0) []
      (Behind definedState []) ∧
    ComesTo definingSetting .file 0
      ((State.start "main.tex" []).elsewhere
        ((["a", "amsmath"].map charTokens).flatMap packageTokens ++ []) 0 0) []
      (Behind definedState []) := by
  have hcommand : ReadsPackages (State.start "main.tex" []).dictionary := readsPackages_empty
  have hlisted : ∀ name ∈ ["a", "amsmath"], IsListed name := by decide
  have hcontent : Names (charTokens "a,amsmath") ["a", "amsmath"] :=
    names_written (List.cons_ne_nil _ _) hlisted
  have hcontents := names_singles hlisted
  have hrest : NoOption [] := nofun
  obtain ⟨hlist, hsingles⟩ := package_list_is_its_packages definingSetting .file 0 hcommand hcontent
    hcontents hrest follows_definedState 0 0
  exact ⟨hcommand, hcontent, hcontents, hrest, follows_definedState, hlist, hsingles⟩

/-! ### Packages that tell a list from single commands -/

/-- One command for some packages. -/
def listTokens (names : List String) : List Token :=
  packageTokens (charTokens (String.intercalate "," names))

/-- A command for each of them. -/
def singleTokens (names : List String) : List Token :=
  (names.map charTokens).flatMap packageTokens

/-- The loop goes over one command for some packages, and over a command for each, without passing a
limit, and what it has defined or warned of then differs. -/
def ToldApart (setting : Setting) (names : List String) : Prop :=
  ∃ t t',
    Comes setting .file 0 (.start "main.tex" (listTokens names)) [] t ∧
    Comes setting .file 0 (.start "main.tex" (singleTokens names)) [] t' ∧
    t.stream.ahead = [] ∧ t'.stream.ahead = [] ∧
    (t.dictionary ≠ t'.dictionary ∨ t.warnings ≠ t'.warnings)

/-- The state in the package, or behind it where `inner` is empty. -/
def State.inPackage (inner : List String) (dictionary : Dictionary) (tokens : List Token)
    (consumed : Nat) : State where
  stream := ⟨tokens, consumed⟩
  dictionary := dictionary
  includes := ⟨"main.tex", inner⟩

/-- The loop over these tokens comes to the mark of the end of the package, and reads it. -/
def ReadsMark (setting : Setting) (dictionary : Dictionary) (tokens : List Token) : Prop :=
  ∃ behind n, Comes setting .file 0 (.start "main.tex" tokens) []
    (.inPackage ["a.sty"] dictionary (.endOfInput :: behind) n)

section Apart

variable {setting : Setting} {P : State → Prop} {content behind tokens : List Token}
  {names : List String}

theorem reaches_package
    (hload : load setting .package "a" (.start "main.tex" []) =
      .ok (some ⟨"a.sty", tokens ++ [.endOfInput]⟩) (.start "main.tex" []))
    (hcontent : Names content ("a" :: names)) (hbehind : NoOption behind)
    (hrest : Reaches setting .file 0
      (.inPackage ["a.sty"] {} (tokens ++ .endOfInput :: (packageCommand names ++ behind))
        (content.length + 3)) [] P) :
    Reaches setting .file 0 (.start "main.tex" (packageTokens content ++ behind)) [] P := by
  have hround : Scan.round setting (scan setting) .file
      (.start "main.tex" (packageTokens content ++ behind)) = _ :=
    round_packages (s := .start "main.tex" []) readsPackages_empty hcontent hbehind 0 0
  have hread : followPackages setting ("a" :: names) _ = _ :=
    followPackages_read (load_elsewhere hload behind (0 + 1 + (content.length + 2)) 0)
  have hcount : content.length + 3 = 0 + 1 + (content.length + 2) := by omega
  have hahead : tokens ++ .endOfInput :: (packageCommand names ++ behind) =
      tokens ++ [.endOfInput] ++ packageCommand names ++ behind := by simp
  rw [hcount, hahead] at hrest
  exact reaches_goOn (Nat.zero_le _) rfl (hround.trans (bind_ok hread)) hrest

theorem reaches_behindPackage {d : Dictionary} (consumed : Nat)
    (hconsumed : consumed ≤ setting.options.fileLimit)
    (hrest : Reaches setting .file 0 (.inPackage [] d behind (consumed + 1)) [] P) :
    Reaches setting .file 0 (.inPackage ["a.sty"] d (.endOfInput :: behind) consumed) [] P :=
  reaches_goOn hconsumed rfl (round_fileEnd rfl) hrest

end Apart

/-! #### A package that defines the command -/

/-- The package gives `\usepackage` another meaning: `\usepackage` defines `\x`. -/
def renamingSetting : Setting := packageSetting "\\def\\usepackage\x7b\\def\\x\x7d"

/-- The tokens of the package. -/
def renamingTokens : List Token := definitionTokens "usepackage" [] [.control "def", .control "x"]

/-- What is defined behind it. -/
def renamedDictionary : Dictionary :=
  ({} : Dictionary).enter "usepackage" (.defined (.simple 0 [.control "def", .control "x"]))

/-- `\usepackage` defines `\x`. -/
structure DefinesInstead (d : Dictionary) : Prop where
  packages : d.find? "usepackage" = some (.simple 0 [.control "def", .control "x"])
  definition : effect? d "def" = some (.definition .parameterText)
  free : d.isFrozen "x" = false

theorem definesInstead_renamed : DefinesInstead renamedDictionary where
  packages := by rw [renamedDictionary, Dictionary.find?_enter, if_pos rfl]
  definition := (effect?_enter _ (by decide)).trans effect?_def
  free := by
    rw [renamedDictionary, Dictionary.isFrozen_enter, if_neg (by decide), Dictionary.isFrozen_empty]

theorem DefinesInstead.enter {d : Dictionary} (h : DefinesInstead d) (content : List Token) :
    DefinesInstead (d.enter "x" (.defined (.simple 0 content))) where
  packages := by rw [Dictionary.find?_enter, if_neg (by decide), h.packages]
  definition := (effect?_enter _ (by decide)).trans h.definition
  free := by
    rw [Dictionary.isFrozen_enter, if_pos rfl]
    rfl

theorem reaches_definesInstead {setting : Setting} {P : State → Prop} {d : Dictionary}
    (content behind : List Token) (consumed : Nat) (hcommand : DefinesInstead d)
    (hcontent : ∀ t ∈ content, t.StandsInGroup) (hconsumed : consumed < setting.options.fileLimit)
    (hrest : Reaches setting .file 0
      (.inPackage [] (d.enter "x" (.defined (.simple 0 content))) behind
        (consumed + (content.length + 5))) [] P) :
    Reaches setting .file 0 (.inPackage [] d (packageTokens content ++ behind) consumed) [] P := by
  have hs : packageTokens content ++ behind =
      .control "usepackage" :: .openGroup :: (content ++ .closeGroup :: behind) := by
    simp [packageTokens]
  have hname : Structural.ofName? "usepackage" = none :=
    Structural.ofName?_eq_none_iff.mpr (by decide)
  have hahead : Definition.substitute "usepackage" [.control "def", .control "x"] [] ++
      .openGroup :: (content ++ .closeGroup :: behind) =
        definitionTokens "x" [] content ++ behind := by
    have hbody : Definition.substitute "usepackage" [.control "def", .control "x"] [] =
        [.control "def", .control "x"] := rfl
    simp [hbody, definitionTokens]
  have hcount : consumed + (content.length + 5) = consumed + 1 + (content.length + 4) := by omega
  rw [hcount] at hrest
  refine reaches_goOn (Nat.le_of_lt hconsumed) rfl (round_call hname hcommand.packages hs) ?_
  exact reaches_goOn hconsumed rfl (round_definition hcommand.definition readParameterText_none
    hcommand.free (protectedArity?_ne_zero "x") hcontent hahead) hrest

/-- Nothing is ahead, and `\x` stands for a text. -/
def StandsFor (text : String) (t : State) : Prop :=
  t.stream.ahead = [] ∧ t.dictionary.find? "x" = some (.simple 0 (charTokens text))

theorem standsFor_enter (text : String) (d : Dictionary) (consumed : Nat) :
    StandsFor text (.inPackage [] (d.enter "x" (.defined (.simple 0 (charTokens text)))) []
      consumed) := by
  refine ⟨rfl, ?_⟩
  show (d.enter _ _).find? "x" = _
  rw [Dictionary.find?_enter, if_pos rfl]

theorem standsInGroup_renaming : ∀ t ∈ [Token.control "def", .control "x"], t.StandsInGroup := by
  intro t ht
  rcases List.mem_pair.mp ht with rfl | rfl <;> exact ⟨nofun, nofun, nofun, by decide⟩

/-- The command that reads the package, the package, and the mark of its end. -/
theorem reaches_behindRenaming {content behind : List Token} {names : List String}
    {P : State → Prop} (hcontent : Names content ("a" :: names)) (hbehind : NoOption behind)
    (hlength : content.length < 10)
    (hrest : Reaches renamingSetting .file 0
      (.inPackage [] renamedDictionary (packageCommand names ++ behind) (content.length + 10))
      [] P) :
    Reaches renamingSetting .file 0 (.start "main.tex" (packageTokens content ++ behind)) [] P := by
  have hlimit : renamingSetting.options.fileLimit = 20000000 := rfl
  have hload : load renamingSetting .package "a" (.start "main.tex" []) =
      .ok (some ⟨"a.sty", renamingTokens ++ [.endOfInput]⟩) (.start "main.tex" []) :=
    load_found (by decide +kernel)
  refine reaches_package hload hcontent hbehind ?_
  refine reaches_goOn ?_ rfl (round_definition effect?_def readParameterText_none
    (Dictionary.isFrozen_empty "usepackage") (protectedArity?_ne_zero _) standsInGroup_renaming
    rfl) ?_
  · show content.length + 3 ≤ _
    omega
  · exact reaches_behindPackage (content.length + 9) (by omega) hrest

/-- The package is complete, and the names behind it are one argument or several. -/
theorem told_apart_by_renaming :
    Complete renamingSetting .file 0 renamingTokens
      { State.start "main.tex" [] with includes := ⟨"main.tex", ["a.sty"]⟩ } []
      (.inPackage ["a.sty"] renamedDictionary [] 0) ∧
    ToldApart renamingSetting ["a", "b", "c"] := by
  have hlimit : renamingSetting.options.fileLimit = 20000000 := rfl
  have hfile : Complete renamingSetting .file 0 renamingTokens
      { State.start "main.tex" [] with includes := ⟨"main.tex", ["a.sty"]⟩ } [] _ :=
    complete_definition effect?_def readParameterText_none (Dictionary.isFrozen_empty "usepackage")
      (protectedArity?_ne_zero _) standsInGroup_renaming
  have hlist : Reaches renamingSetting .file 0
      (.start "main.tex" (listTokens ["a", "b", "c"])) [] (StandsFor "b,c") := by
    have hnames : Names (charTokens "a,b,c") ["a", "b", "c"] :=
      names_written (List.cons_ne_nil "a" ["b", "c"]) (by decide)
    have hnone : NoOption [] := nofun
    rw [listTokens, ← List.append_nil (packageTokens _)]
    refine reaches_behindRenaming hnames hnone (by decide) ?_
    exact reaches_definesInstead (charTokens "b,c") [] 15 definesInstead_renamed
      (standsInGroup_chars _) (by rw [hlimit]; decide) ⟨_, .here, standsFor_enter _ _ _⟩
  have hsingles : Reaches renamingSetting .file 0
      (.start "main.tex" (singleTokens ["a", "b", "c"])) [] (StandsFor "c") := by
    have hnames : Names (charTokens "a") ["a"] :=
      names_written (List.cons_ne_nil "a" []) (by decide)
    refine reaches_behindRenaming hnames (noOption_packageTokens (charTokens "b") _) (by decide) ?_
    refine reaches_definesInstead (charTokens "b") (packageTokens (charTokens "c")) 11
      definesInstead_renamed (standsInGroup_chars _) (by rw [hlimit]; decide) ?_
    exact reaches_definesInstead (charTokens "c") [] 17 (definesInstead_renamed.enter _)
      (standsInGroup_chars _) (by rw [hlimit]; decide) ⟨_, .here, standsFor_enter _ _ _⟩
  obtain ⟨t, hcomes, hahead, hx⟩ := hlist
  obtain ⟨t', hcomes', hahead', hx'⟩ := hsingles
  refine ⟨hfile, t, t', hcomes, hcomes', hahead, hahead', .inl fun heq => ?_⟩
  rw [heq, hx'] at hx
  exact absurd hx (by decide)

/-! #### A package that hands its end on -/

/-- A command that takes the next `\usepackage`, and puts back what stands before it only. -/
def passingDefinition : Definition where
  delimiters := [[.control "usepackage"], []]
  body := [.parameter 1]

/-- The package ends with this command, so that the mark of its end is put back. -/
def passingSetting : Setting := packageSetting "\\def\\n#1\\usepackage#2\x7b#1\x7d\\n"

/-- The tokens of the package. -/
def passingTokens : List Token :=
  definitionTokens "n" [.parameter 1, .control "usepackage", .parameter 2] [.parameter 1] ++
    [.control "n"]

/-- What is defined behind it. -/
def passingDictionary : Dictionary := ({} : Dictionary).enter "n" (.defined passingDefinition)

section Passing

variable {nested : Frame → Scan Flow} {frame : Frame} {s : State}
  {content taken behind rest : List Token} {names : List String}

/-- The command takes the mark and a command for packages, and puts the mark back. -/
theorem round_passing {setting : Setting} (hfind : s.dictionary.find? "n" = some passingDefinition)
    (htaken : ∀ t ∈ taken, t.StandsInGroup)
    (hs : s.stream.ahead = .control "n" :: .endOfInput :: (packageTokens taken ++ rest)) :
    Scan.round setting nested frame s = .ok .goOn
      { s with stream := ⟨.endOfInput :: rest, s.consumed + (taken.length + 5)⟩ } := by
  have hname : Structural.ofName? "n" = none := Structural.ofName?_eq_none_iff.mpr (by decide)
  obtain ⟨t, ht⟩ : ∃ t : State, t = { s with
    stream := ⟨.endOfInput :: (packageTokens taken ++ rest), s.consumed + 1⟩ } := ⟨_, rfl⟩
  obtain ⟨u, hu⟩ : ∃ u : State, u = { s with
    stream := ⟨.openGroup :: (taken ++ .closeGroup :: rest), s.consumed + 3⟩ } := ⟨_, rfl⟩
  have hmeaning : t.dictionary.meaning "n" = .defined passingDefinition := by
    rw [ht]
    exact (Dictionary.Means.defined hfind).meaning_eq
  have hfirst : parameterArgument [.control "usepackage"] t = .ok (some [.endOfInput]) u := by
    have htokens : packageTokens taken ++ rest =
        .control "usepackage" :: .openGroup :: (taken ++ .closeGroup :: rest) := by
      simp [packageTokens]
    rw [ht, hu, htokens]
    rfl
  have hargument : argument u = .ok taken
      { u with stream := ⟨rest, u.consumed + (taken.length + 2)⟩ } :=
    argument_group htaken (by rw [hu])
  have hsecond : parameterArgument [] u = .ok (some taken) _ := bind_ok hargument
  have harguments : callArguments passingDefinition t = .ok (some [[.endOfInput], taken]) _ :=
    (bind_ok hfirst).trans (bind_ok hsecond)
  have hlead : leadFrom [] passingDefinition.lead t = .ok true t := rfl
  have hexpansion : expansion? "n" passingDefinition t = .ok (some [.endOfInput])
      { u with stream := ⟨rest, u.consumed + (taken.length + 2)⟩ } := by
    unfold expansion?
    rw [bind_ok hlead]
    exact bind_ok harguments
  have hexpand : expand "n" passingDefinition t = .ok () _ := bind_ok hexpansion
  have hcount : s.consumed + (taken.length + 5) = s.consumed + 3 + (taken.length + 2) := by omega
  rw [round_cons hs]
  show Scan.command setting nested frame "n" _ = _
  rw [command_meaning hname, ← ht, hmeaning]
  refine (bind_ok hexpand).trans ?_
  rw [hu, hcount]
  rfl

theorem protectedArity?_passing :
    protectedArity? "n" ≠ some passingDefinition.delimiters.length := by
  rw [protectedArity?_eq_none (Effect.ofName?_eq_none (by decide +kernel))]
  nofun

/-- The loop comes to the mark; one command behind the package has been taken. -/
theorem comes_passing (hcontent : Names content ("a" :: names)) (hbehind : NoOption behind)
    (htaken : ∀ t ∈ taken, t.StandsInGroup)
    (hcommand : packageCommand names ++ behind = packageTokens taken ++ rest)
    (hlength : content.length < 10) :
    Comes passingSetting .file 0 (.start "main.tex" (packageTokens content ++ behind)) []
      (.inPackage ["a.sty"] passingDictionary (.endOfInput :: rest)
        (content.length + taken.length + 16)) := by
  have hlimit : passingSetting.options.fileLimit = 20000000 := rfl
  have hload : load passingSetting .package "a" (.start "main.tex" []) =
      .ok (some ⟨"a.sty", passingTokens ++ [.endOfInput]⟩) (.start "main.tex" []) :=
    load_found (by decide +kernel)
  have hbody : ∀ t ∈ [Token.parameter 1], t.StandsInGroup := by
    intro t ht
    rw [List.mem_singleton.mp ht]
    exact ⟨nofun, nofun, nofun, nofun⟩
  have hfind : passingDictionary.find? "n" = some passingDefinition := by
    rw [passingDictionary, Dictionary.find?_enter, if_pos rfl]
  have hahead : passingTokens ++ .endOfInput :: (packageTokens taken ++ rest) =
      definitionTokens "n" [.parameter 1, .control "usepackage", .parameter 2] [.parameter 1] ++
        .control "n" :: .endOfInput :: (packageTokens taken ++ rest) := by
    simp [passingTokens]
  have hcount : content.length + taken.length + 16 =
      content.length + 3 + 8 + (taken.length + 5) := by omega
  obtain ⟨t, hcomes, rfl⟩ : Reaches passingSetting .file 0
      (.start "main.tex" (packageTokens content ++ behind)) []
      (· = .inPackage ["a.sty"] passingDictionary (.endOfInput :: rest)
        (content.length + taken.length + 16)) := by
    refine reaches_package hload hcontent hbehind ?_
    rw [hcommand]
    refine reaches_goOn ?_ rfl (round_definition effect?_def (fun _ => rfl)
      (Dictionary.isFrozen_empty "n") protectedArity?_passing hbody hahead) ?_
    · show content.length + 3 ≤ _
      omega
    refine reaches_goOn ?_ rfl (round_passing hfind htaken rfl) ?_
    · show content.length + 3 + 8 ≤ _
      omega
    · rw [hcount]
      exact ⟨_, .here, rfl⟩
  exact hcomes

end Passing

theorem load_missing {s : State} (hs : s.includes = ⟨"main.tex", []⟩) :
    load passingSetting .package "c" s = .ok none (s.warn (.includeMissing "c" "main.tex")) := by
  have hpass : ¬ passesOver passingSetting "c" = true := by
    rw [passingSetting, passesOver_packageSetting _ (by decide), knows_standard]
    decide +kernel
  have hdepth : s.includes.depth < passingSetting.options.includeDepth := by
    rw [hs]
    show 0 < 5
    decide
  have hmain : s.includes.current = "main.tex" := by
    rw [hs]
    rfl
  have hcandidates : Inclusion.candidates .package "c" = ["c.sty"] := by decide +kernel
  have hpath : passingSetting.library.resolve "main.tex" "c.sty" = "c.sty" := by decide
  have hread : passingSetting.library.read "c.sty" = .error (.notFound "c.sty") := by
    decide
  have hsearch : search passingSetting "c" "main.tex" ["c.sty"] =
      .error (.includeMissing "c" "main.tex") := by
    unfold search
    dsimp only
    rw [hpath, hread]
    rfl
  rw [load_eq_search hpass hdepth, hmain, hcandidates, hsearch]

/-- The loop reads the mark, and more or fewer of the names behind the package are left. -/
theorem told_apart_by_passing_on :
    ReadsPackages passingDictionary ∧
    ReadsMark passingSetting passingDictionary (listTokens ["a", "b", "c"]) ∧
    ReadsMark passingSetting passingDictionary (singleTokens ["a", "b", "c"]) ∧
    ToldApart passingSetting ["a", "b", "c"] := by
  have hreads : ReadsPackages passingDictionary :=
    (effect?_enter _ (by decide)).trans readsPackages_empty
  have hlimit : passingSetting.options.fileLimit = 20000000 := rfl
  have hnone : NoOption [] := nofun
  have hlist : Comes passingSetting .file 0
      (.start "main.tex" (listTokens ["a", "b", "c"])) []
      (.inPackage ["a.sty"] passingDictionary [.endOfInput] 24) := by
    have hnames : Names (charTokens "a,b,c") ["a", "b", "c"] :=
      names_written (List.cons_ne_nil "a" ["b", "c"]) (by decide)
    rw [listTokens, ← List.append_nil (packageTokens _)]
    exact comes_passing hnames hnone (standsInGroup_chars "b,c".toList) rfl (by decide)
  have hsingles : Comes passingSetting .file 0
      (.start "main.tex" (singleTokens ["a", "b", "c"])) []
      (.inPackage ["a.sty"] passingDictionary
        (.endOfInput :: packageTokens (charTokens "c")) 18) := by
    have hnames : Names (charTokens "a") ["a"] :=
      names_written (List.cons_ne_nil "a" []) (by decide)
    exact comes_passing hnames (noOption_packageTokens (charTokens "b") _)
      (standsInGroup_chars "b".toList) rfl (by decide)
  obtain ⟨t, hcomes, hahead, hwarnings⟩ : Reaches passingSetting .file 0
      (.inPackage ["a.sty"] passingDictionary [.endOfInput] 24) []
      fun t => t.stream.ahead = [] ∧ t.warnings = #[] :=
    reaches_behindPackage 24 (by rw [hlimit]; decide) ⟨_, .here, rfl, rfl⟩
  obtain ⟨t', hcomes', hahead', hwarnings'⟩ : Reaches passingSetting .file 0
      (.inPackage ["a.sty"] passingDictionary (.endOfInput :: packageTokens (charTokens "c")) 18) []
      fun t => t.stream.ahead = [] ∧ t.warnings = #[.includeMissing "c" "main.tex"] := by
    have hnames : Names (charTokens "c") ["c"] :=
      names_written (List.cons_ne_nil "c" []) (by decide)
    have hround : Scan.round passingSetting (scan passingSetting) .file
        (.inPackage [] passingDictionary (packageTokens (charTokens "c") ++ []) 19) = _ :=
      round_packages (s := .inPackage [] passingDictionary [] 0) hreads hnames hnone 19 0
    have hread : followPackages passingSetting ["c"] _ = _ :=
      followPackages_passed
        (load_elsewhere (load_missing (s := .inPackage [] passingDictionary [] 0) rfl) [] 23 0)
    refine reaches_behindPackage 18 (by rw [hlimit]; decide) ?_
    exact reaches_goOn (by rw [hlimit]; decide) rfl (hround.trans (bind_ok hread))
      ⟨_, .here, rfl, rfl⟩
  refine ⟨hreads, ⟨_, _, hlist⟩, ⟨_, _, hsingles⟩, t, t', hlist.trans hcomes,
    hsingles.trans hcomes', hahead, hahead', .inr fun heq => ?_⟩
  rw [hwarnings, hwarnings'] at heq
  cases heq

/-- **Neither condition can be left out.** A package that gives `\usepackage` another meaning tells
a list from single commands, though it is complete. So does a package that ends with a command that
takes what stands behind the mark of its end, and puts the mark back: the loop reads the mark, and
`\usepackage` means there what it did. So what makes a file complete is not that the loop reads the
mark, but that the way to the mark is the same whatever stands behind it. -/
theorem lists_told_apart :
    (Complete renamingSetting .file 0 renamingTokens
      { State.start "main.tex" [] with includes := ⟨"main.tex", ["a.sty"]⟩ } []
      (.inPackage ["a.sty"] renamedDictionary [] 0) ∧
      ToldApart renamingSetting ["a", "b", "c"]) ∧
    ReadsPackages passingDictionary ∧
    ReadsMark passingSetting passingDictionary (listTokens ["a", "b", "c"]) ∧
    ReadsMark passingSetting passingDictionary (singleTokens ["a", "b", "c"]) ∧
    ToldApart passingSetting ["a", "b", "c"] :=
  ⟨told_apart_by_renaming, told_apart_by_passing_on⟩

end ProofProse
