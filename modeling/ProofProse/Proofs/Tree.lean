import ProofProse.Proofs.Edge
import ProofProse.Proofs.Inside
import ProofProse.Proofs.Lockstep
import ProofProse.Proofs.PlainProse
import ProofProse.Proofs.Undefined

/-! # Files in memory and on a disk

A disk holds exactly some files with plain paths below its working folder (`Disk.Holds`). The library
of the disk and the library of the same files in memory then answer every plain path alike, be it
that of a file, of a folder or of nothing (`Disk.Holds.read_eq`), and resolve targets alike. A run
whose targets stay inside asks for plain paths only, as the files that it reads are among those that
the memory has; so the two libraries have the same run (`extractFile_eq_extract`). -/

namespace ProofProse

open Encoding (Bytes ofText)

/-- A disk holds exactly some files below its working folder. -/
structure Disk.Holds (disk : Disk) (files : List (String × Bytes)) : Prop where
  plain : ∀ file ∈ files, Path.IsPlain file.1
  read : ∀ file ∈ files, disk.read ⟨file.1⟩ = .ok file.2
  only : ∀ names content, (∀ name ∈ names, Path.IsName name) →
    disk.entry? (disk.working ++ names) = some (.file content) →
    ((Path.ofParts false names).text, content) ∈ files

/-! ### The library in memory -/

namespace Library

variable {files : List (String × Bytes)} {path : String} {content : Bytes}

/-- Files with plain paths stand on the shelf as they were given, the last one first. -/
theorem shelf_of_plain : ∀ (files : List (String × Bytes)) (shelf : Shelf),
    (∀ file ∈ files, Path.IsPlain file.1) →
    files.foldl (fun shelf (path, content) => shelf.add path content) shelf = files.reverse ++ shelf
  | [], _, _ => rfl
  | (path, content) :: files, shelf, h => by
    have hadd : shelf.add path content = (path, content) :: shelf := by
      unfold Shelf.add
      rw [Path.siblingPath_plain (h (path, content) List.mem_cons_self)]
    have hrest := shelf_of_plain files (shelf.add path content) fun file hfile =>
      h file (List.mem_cons_of_mem _ hfile)
    rw [List.foldl_cons]
    show files.foldl _ (shelf.add path content) = _
    rw [hrest, hadd]
    simp

/-- The library in memory has the files that it was given, and no others. -/
theorem read_ofFiles (h : ∀ file ∈ files, Path.IsPlain file.1) (path : String) :
    (∃ content, (path, content) ∈ files ∧ (ofFiles files).read path = .ok content) ∨
      ((∀ content, (path, content) ∉ files) ∧
        (ofFiles files).read path = .error (.notFound path)) := by
  have hshelf : ofFiles files = ofShelf files.reverse := by
    unfold ofFiles
    rw [shelf_of_plain files [] h, List.append_nil]
  rw [hshelf]
  cases hlookup : files.reverse.lookup path with
  | some content =>
    obtain ⟨before, behind, hsplit, -⟩ := List.lookup_eq_some_iff.mp hlookup
    have hmem : (path, content) ∈ files.reverse := by
      rw [hsplit]
      simp
    refine .inl ⟨content, List.mem_reverse.mp hmem, ?_⟩
    unfold ofShelf
    dsimp only
    rw [hlookup]
  | none =>
    refine .inr ⟨fun content hmem => ?_, ?_⟩
    · have hne := List.lookup_eq_none_iff.mp hlookup (path, content) (List.mem_reverse.mpr hmem)
      simp at hne
    · unfold ofShelf
      dsimp only
      rw [hlookup]

end Library

/-! ### The library on a disk -/

namespace Disk

variable {disk : Disk} {files : List (String × Bytes)} {path : String} {content : Bytes}

theorem foldlM_enter : ∀ {names : List String} {start place : Place},
    (names.map Path.Component.name).foldlM disk.enter start = .ok place → place = start ++ names
  | [], _, _, h => by
    cases h
    simp
  | name :: names, start, place, h => by
    rw [List.map_cons, List.foldlM_cons] at h
    cases henter : disk.enter start (.name name) with
    | error fault =>
      rw [henter] at h
      cases h
    | ok next =>
      rw [henter] at h
      have hnext : next = start ++ [name] := by
        unfold enter at henter
        dsimp only at henter
        split at henter
        · cases henter
        · cases henter
        · split at henter
          · cases henter
          · cases henter
            rfl
      rw [foldlM_enter h, hnext]
      simp

theorem foldlM_enter_of_folders : ∀ {names : List String} {start : Place},
    (∀ n < names.length, disk.entry? (start ++ names.take n) = some .folder) →
    (∀ name ∈ names, name.utf8ByteSize ≤ nameLimit) →
    (names.map Path.Component.name).foldlM disk.enter start = .ok (start ++ names)
  | [], start, _, _ => by
    rw [List.append_nil]
    rfl
  | name :: names, start, hfolders, hsize => by
    have hstart : disk.entry? start = some .folder := by
      have hnone := hfolders 0 (Nat.zero_lt_succ _)
      rwa [List.take_zero, List.append_nil] at hnone
    have henter : disk.enter start (.name name) = .ok (start ++ [name]) := by
      unfold enter
      rw [hstart]
      dsimp only
      rw [if_neg (Nat.not_lt.mpr (hsize name List.mem_cons_self))]
    have hrest : (names.map Path.Component.name).foldlM disk.enter (start ++ [name]) =
        .ok (start ++ [name] ++ names) := by
      refine foldlM_enter_of_folders (fun n hn => ?_) fun other hother =>
        hsize other (List.mem_cons_of_mem _ hother)
      have hfolder := hfolders (n + 1) (Nat.succ_lt_succ hn)
      rwa [List.take_succ_cons, List.append_cons] at hfolder
    rw [List.append_cons]
    rw [List.map_cons, List.foldlM_cons, henter]
    exact hrest

/-- A file is read at a path that leads to it and does not ask for a folder. -/
theorem read_of_place {place : Place} {path : Path} (hplace : disk.place path = .ok place)
    (hentry : disk.entry? place = some (.file content)) (hpath : asksFolder path = false) :
    disk.read path = .ok content := by
  have hfind : disk.find path = .ok (place, .file content) := by
    unfold find
    rw [hplace]
    show (Except.ok place >>= _) = _
    dsimp only [bind, Except.bind]
    rw [hentry, hpath]
    rfl
  unfold read
  rw [hfind]

theorem read_of_folders {names : List String} {path : String}
    (hcomponents : Path.components ⟨path⟩ = names.map .name)
    (hpath : path.contains '\x00' = false ∧ path.isEmpty = false ∧ path.utf8ByteSize ≤ pathLimit)
    (hnames : ∀ name ∈ names, name.utf8ByteSize ≤ nameLimit) (hasks : asksFolder ⟨path⟩ = false)
    (hfolders : ∀ n < names.length, disk.entry? (disk.working ++ names.take n) = some .folder)
    (hentry : disk.entry? (disk.working ++ names) = some (.file content)) :
    disk.read ⟨path⟩ = .ok content := by
  obtain ⟨hzero, hempty, hsize⟩ := hpath
  have hplace : disk.place ⟨path⟩ = .ok (disk.working ++ names) := by
    unfold Disk.place
    rw [hzero, hempty, if_neg Bool.false_ne_true, if_neg Bool.false_ne_true,
      if_neg (Nat.not_lt.mpr hsize), hcomponents]
    exact foldlM_enter_of_folders hfolders hnames
  exact read_of_place hplace hentry hasks

theorem entry?_of_read {names : List String} (hnames : ∀ name ∈ names, Path.IsName name)
    (h : disk.read (Path.ofParts false names) = .ok content) :
    disk.entry? (disk.working ++ names) = some (.file content) := by
  have hplace : ∀ {place : Place}, disk.place (Path.ofParts false names) = .ok place →
      place = disk.working ++ names := by
    intro place hplace
    unfold Disk.place at hplace
    split at hplace
    · cases hplace
    split at hplace
    · cases hplace
    split at hplace
    · cases hplace
    · rw [Path.components_ofNames hnames] at hplace
      exact foldlM_enter hplace
  have hfind : ∀ {place : Place}, disk.find (Path.ofParts false names) = .ok (place, .file content) →
      disk.entry? place = some (.file content) ∧ place = disk.working ++ names := by
    intro place hfind
    unfold find at hfind
    cases hrun : disk.place (Path.ofParts false names) with
    | error fault =>
      rw [hrun] at hfind
      cases hfind
    | ok found =>
      rw [hrun] at hfind
      dsimp only [bind, Except.bind] at hfind
      split at hfind
      · cases hfind
      · cases hfind
      · next hentry =>
        split at hfind
        · cases hfind
        · cases hfind
          exact ⟨hentry, hplace hrun⟩
  unfold read at h
  split at h
  · next place found hrun =>
    cases h
    obtain ⟨hentry, rfl⟩ := hfind hrun
    exact hentry
  · cases h
  · cases h

theorem isFile_iff_read (disk : Disk) (path : Path) :
    disk.isFile path = true ↔ ∃ content, disk.read path = .ok content := by
  unfold isFile read
  cases disk.find path with
  | error fault => simp
  | ok found =>
    obtain ⟨place, entry⟩ := found
    cases entry <;> simp

theorem locate?_nil (disk : Disk) (path : Path) :
    Library.locate? disk [] path = if disk.isFile path then some path else none := by
  unfold Library.locate?
  split
  · rfl
  split
  · rfl
  · split <;> rfl

theorem read_onDisk (disk : Disk) (path : String) :
    (Library.onDisk disk []).read path =
      match disk.read ⟨path⟩ with
      | .ok content => .ok content
      | .error _ => .error (.notFound path) := by
  have hfile := disk.isFile_iff_read ⟨path⟩
  unfold Library.onDisk
  dsimp only
  rw [locate?_nil]
  cases hread : disk.read ⟨path⟩ with
  | ok content =>
    rw [if_pos (hfile.mpr ⟨content, hread⟩)]
    dsimp only
    rw [hread]
  | error fault =>
    have hnone : ¬disk.isFile ⟨path⟩ = true := by
      rw [hfile]
      rintro ⟨content, hcontent⟩
      rw [hread] at hcontent
      cases hcontent
    rw [if_neg hnone]

/-- **At a plain path** the disk has the file that the memory has, or neither has one. -/
theorem Holds.read_eq (h : disk.Holds files) (hpath : Path.IsPlain path) :
    (Library.onDisk disk []).read path = (Library.ofFiles files).read path := by
  rw [read_onDisk]
  rcases Library.read_ofFiles h.plain path with ⟨content, hmem, hread⟩ | ⟨hnone, hread⟩
  · have hdisk : disk.read ⟨path⟩ = .ok content := h.read _ hmem
    rw [hread, hdisk]
  · rw [hread]
    cases hdisk : disk.read ⟨path⟩ with
    | error fault => rfl
    | ok content =>
      obtain ⟨names, hnames, rfl⟩ := hpath
      exact absurd (h.only names content hnames (entry?_of_read hnames hdisk)) (hnone content)

end Disk

/-! ### Runs -/

theorem State.includes_ofSource (setting : Setting) (source path : String) :
    (State.ofSource setting source path).includes.toList = [path] := rfl

namespace Scan

variable {options : Options} {library library' : Library} {disk : Disk}
  {files : List (String × Bytes)}

/-- Two libraries that resolve targets alike, and have the same at the paths that these come to, have
the same answer to a search. -/
theorem search_congr {target including : String} (hresolve : library'.resolve = library.resolve) :
    ∀ {candidates : List String},
      (∀ candidate ∈ candidates, library'.read (library.resolve including candidate) =
        library.read (library.resolve including candidate)) →
      search ⟨options, library⟩ target including candidates =
        search ⟨options, library'⟩ target including candidates
  | [], _ => rfl
  | candidate :: candidates, h => by
    have hrest : search ⟨options, library⟩ target including candidates =
        search ⟨options, library'⟩ target including candidates :=
      search_congr hresolve fun c hc => h c (List.mem_cons_of_mem _ hc)
    unfold search
    dsimp only
    rw [hresolve, h candidate List.mem_cons_self, hrest]

/-- Every target that a run looks for is relative and never climbs above the folder that paths begin
in. -/
def TargetsInside (setting : Setting) (first : State) : Prop :=
  ∀ fuel frame start s, Visits setting first fuel frame start s →
    ∀ kind target u, LooksFor s kind target u → passesOver setting target = false →
      u.includes.depth < setting.options.includeDepth →
      ∀ candidate ∈ Inclusion.candidates kind target,
        Path.StaysInside ⟨u.includes.current⟩ ⟨candidate⟩

theorem isPlain_current {first s u : State} {fuel start : Nat} {frame : Frame} {target : String}
    {kind : InclusionKind} (h : ∀ file ∈ files, Path.IsPlain file.1)
    (hfirst : ∀ path ∈ first.includes.toList, Path.IsPlain path)
    (hv : Visits ⟨options, .ofFiles files⟩ first fuel frame start s)
    (hlooks : LooksFor s kind target u) : Path.IsPlain u.includes.current := by
  have henters : first.Enters (.ofFiles files) u :=
    (State.steady_enters _).trans (enters_of_visits hv) hlooks.enters
  rcases henters _ u.includes.current_mem with hpath | ⟨content, hread⟩
  · exact hfirst _ hpath
  · rcases Library.read_ofFiles h u.includes.current with ⟨found, hmem, -⟩ | ⟨-, hnone⟩
    · exact h _ hmem
    · rw [hnone] at hread
      cases hread

end Scan

/-- **Files in memory and on a disk** give the same extraction. Let a disk hold exactly some files
with plain paths below its working folder, and let one of them be the main file. If every target that
is looked for stays inside, what is extracted from the disk is what is extracted from the decoded
content of the main file with the same files in memory: the same proofs, dropped proofs, warnings and
count of tokens, or the same failure. -/
theorem extractFile_eq_extract {options : Options} {disk : Disk} {files : List (String × Bytes)}
    {main : String} {content : Bytes} (hdisk : disk.Holds files) (hmain : (main, content) ∈ files)
    (hinside : Scan.TargetsInside ⟨options, .ofFiles files⟩
      (.ofSource ⟨options, .ofFiles files⟩ (Encoding.decodeSource content) main)) :
    extractFile options disk ⟨main⟩ =
      extract ⟨options, .ofFiles files⟩ (Encoding.decodeSource content) main := by
  have hplain : ∀ path ∈ (State.ofSource ⟨options, .ofFiles files⟩
      (Encoding.decodeSource content) main).includes.toList, Path.IsPlain path := by
    intro path hpath
    rw [State.includes_ofSource] at hpath
    rw [List.mem_singleton.mp hpath]
    exact hdisk.plain _ hmain
  have hresolve : (Library.onDisk disk []).resolve = (Library.ofFiles files).resolve := rfl
  have hagree : Scan.AgreeAlong options (.ofFiles files) (.onDisk disk [])
      (.ofSource ⟨options, .ofFiles files⟩ (Encoding.decodeSource content) main) := by
    intro fuel frame start s hv kind target u hlooks hpass hdepth
    have hcurrent := Scan.isPlain_current hdisk.plain hplain hv hlooks
    apply Scan.search_congr hresolve
    intro candidate hcandidate
    have hstays := hinside fuel frame start s hv kind target u hlooks hpass hdepth candidate hcandidate
    exact hdisk.read_eq (Path.isPlain_sibling hcurrent hstays)
  have hread : disk.read ⟨main⟩ = .ok content := hdisk.read _ hmain
  unfold extractFile extract
  rw [hread]
  exact congrArg History.extraction (Scan.history_eq_of_agree hagree)

/-! ### A file that includes another one -/

/-- Ahead are no other tokens than characters and ends of files. -/
def State.Wordless (s : State) : Prop :=
  ∀ t ∈ s.stream.ahead, t = .endOfInput ∨ ∃ c, t = .char c

theorem State.Wordless.of_suffix {s t : State} (hs : s.Wordless)
    (h : t.stream.ahead <:+ s.stream.ahead) : t.Wordless := fun x hx => hs x (h.subset hx)

/-- The state with a file in front. -/
def State.reading (s : State) (path : String) (tokens : List Token) : State :=
  { s with
    stream := ⟨tokens ++ s.stream.ahead, s.consumed⟩
    includes := s.includes.enter path }

theorem Catalogue.contains_standard (name : String) :
    Catalogue.standard.names.contains name = distributedFiles.contains name :=
  Std.HashSet.contains_ofList

namespace Scan

variable {setting : Setting} {nested : Frame → Scan Flow} {frame : Frame}
  {first second s t u : State} {fuel start : Nat}

/-- Where no round opens a span, what each round keeps, and giving up a proof keeps, holds throughout
a run. -/
theorem holds_of_visits {P : State → Prop} (hfirst : P first)
    (hspan : ∀ s inner u, P s → ¬Opens setting .file s inner u)
    (hround : ∀ nested s, P s → P (after (round setting nested .file) s))
    (habandon : ∀ s, P s → P s.abandonProof) (hv : Visits setting first fuel frame start s) :
    frame = .file ∧ P s := by
  have hwithin : ∀ (fuel start : Nat) (s : State), P s →
      P (after (within setting fuel .file start) s) := by
    intro fuel start
    induction fuel with
    | zero => exact fun s hs => hs
    | succ fuel ih =>
      intro s hs
      have hone := hround (Scan.inner setting fuel) s hs
      rcases within_cases setting fuel .file start s with ⟨failure, h⟩ | ⟨-, h⟩ | ⟨t, ht, h⟩
      · rw [after_error h]
        exact hs
      · unfold after at *
        rwa [h]
      · rw [after_ok ht] at hone
        have hrest := ih t hone
        unfold after at *
        rwa [h]
  have hbegins : ∀ {s : State}, Begins setting first s → P s := by
    intro s hs
    induction hs with
    | first => exact hfirst
    | @proofEnd s t _ _ h ih =>
      have hscan := hwithin (rounds setting) s.consumed s ih
      rwa [after_ok (show within setting (rounds setting) .file s.consumed s = _ from h)] at hscan
    | @dropped s t _ _ h ih =>
      have hscan := hwithin (rounds setting) s.consumed s ih
      rw [after_error (show within setting (rounds setting) .file s.consumed s = _ from h)] at hscan
      exact habandon t hscan
  induction hv with
  | begins hs => exact ⟨rfl, hbegins hs⟩
  | @goOn fuel frame start s t _ _ h ih =>
    obtain ⟨rfl, hs⟩ := ih
    have hone := hround (Scan.inner setting fuel) s hs
    rw [after_ok h] at hone
    exact ⟨rfl, hone⟩
  | opens _ _ h ih =>
    obtain ⟨rfl, hs⟩ := ih
    exact absurd h (hspan _ _ _ hs)

/-- **A round without words** leaves no more than there was, and opens no span. -/
theorem round_wordless (setting : Setting) (hs : s.Wordless) :
    ∃ result, (∀ nested, round setting nested .file s = result) ∧ (lastState result).Wordless := by
  cases hahead : s.stream.ahead with
  | nil =>
    refine ⟨_, fun nested => round_nil hahead, ?_⟩
    exact hs.of_suffix (List.suffix_refl _)
  | cons x rest =>
    have hrest : ∀ t : State, t.stream.ahead = rest → t.Wordless := fun t ht =>
      hs.of_suffix (by rw [hahead, ht]; exact List.suffix_cons x rest)
    rcases hs x (by rw [hahead]; exact List.mem_cons_self) with rfl | ⟨c, rfl⟩
    · exact ⟨_, fun nested => round_cons hahead, hrest _ rfl⟩
    · obtain ⟨t, ht, hsource, -⟩ := character_ok c { s with stream := ⟨rest, s.consumed + 1⟩ }
      refine ⟨.ok .goOn t, fun nested => ?_, hrest t (by rw [hsource.1])⟩
      rw [round_cons hahead]
      exact bind_ok ht

theorem wordless_abandonProof (hs : s.Wordless) : s.abandonProof.Wordless :=
  hs.of_suffix (passes_proofRestFrom s.stream.ahead s.proofDepth 0 0 0).suffix

theorem inputTarget_written {target : String} {behind : List Token}
    (htarget : plainText (charTokens target) = target)
    (hs : s.stream.ahead = .openGroup :: charTokens target ++ .closeGroup :: behind) :
    inputTarget s =
      .ok target { s with stream := ⟨behind, s.consumed + (target.toList.length + 2)⟩ } := by
  have hskip : onStream Stream.skipSpaces s = .ok () s :=
    onStream_ok (Stream.skipWhile_of_head (by simp [hs, Token.isSpace]))
  have hpeek : peek s = .ok (some .openGroup) s := by
    unfold peek Stream.peek?
    rw [hs]
    rfl
  unfold inputTarget
  rw [bind_ok hskip, bind_ok hpeek]
  exact argumentText_written htarget hs

theorem inclusion_found {target : String} {found : Found} (htarget : inputTarget s = .ok target u)
    (hpass : ¬passesOver setting target = true)
    (hdepth : u.includes.depth < setting.options.includeDepth)
    (hfound : search setting target u.includes.current (Inclusion.candidates .input target) =
      .ok found) :
    inclusion setting .input s = .ok () (u.reading found.path found.tokens) := by
  have hload : load setting .input target u = _ := load_eq_search hpass hdepth
  rw [hfound] at hload
  exact (bind_ok htarget).trans (bind_ok hload)

/-- Ahead is the inclusion of a target and nothing else, and no proof is open. -/
structure NamesInput (target : String) (s : State) : Prop where
  ahead : s.stream.ahead =
    .control "input" :: (.openGroup :: charTokens target ++ [.closeGroup])
  effect : effect? s.dictionary "input" = some (.inclusion .input)
  plain : plainText (charTokens target) = target
  proofDepth : s.proofDepth = 0

namespace NamesInput

variable {target : String} (hs : NamesInput target s)

include hs

theorem inclusion? : s.inclusion? = some .input := by
  unfold State.inclusion?
  rw [hs.ahead]
  dsimp only
  rw [hs.effect]

theorem read {name : String} {rest : List Token} (hname : s.stream.ahead = .control name :: rest) :
    name = "input" ∧ inputTarget { s with stream := ⟨rest, s.consumed + 1⟩ } = .ok target
      { s with stream := ⟨[], s.consumed + 1 + (target.toList.length + 2)⟩ } := by
  rw [hs.ahead] at hname
  cases hname
  exact ⟨rfl, inputTarget_written hs.plain rfl⟩

theorem looksFor {kind : InclusionKind} {other : String} (h : LooksFor s kind other u) :
    kind = .input ∧ other = target ∧ u.includes = s.includes := by
  cases h with
  | input hname _ hother =>
    rw [(hs.read hname).2] at hother
    cases hother
    exact ⟨rfl, rfl, rfl⟩
  | package hname heffect =>
    rw [(hs.read hname).1, hs.effect] at heffect
    cases heffect

theorem wordless_round
    (hfound : ∀ found, search setting target s.includes.current
        (Inclusion.candidates .input target) = .ok found →
      ∀ t ∈ found.tokens, t = .endOfInput ∨ ∃ c, t = .char c) :
    (after (round setting nested .file) s).Wordless := by
  obtain ⟨name, rest, hname, -, hround⟩ := round_of_inclusion hs.inclusion?
  let u : State := { s with stream := ⟨[], s.consumed + 1 + (target.toList.length + 2)⟩ }
  have hread : inputTarget { s with stream := ⟨rest, s.consumed + 1⟩ } = .ok target u :=
    (hs.read hname).2
  have hafter : after (round setting nested .file) s =
      after (inclusion setting .input) { s with stream := ⟨rest, s.consumed + 1⟩ } := by
    rw [← after_goingOn]
    unfold after
    rw [hround]
  obtain ⟨found?, t, hload, -⟩ := load_ok setting .input target u
  have hempty : t.stream.ahead = [] := by rw [(load_sameSource hload).1]
  rw [hafter]
  unfold inclusion
  rw [after_bind_ok hread, after_bind_ok hload]
  cases found? with
  | none =>
    intro x hx
    rw [show (after (pure ()) t).stream.ahead = [] from hempty] at hx
    cases hx
  | some found =>
    have htokens : (after (splice found) t).stream.ahead = found.tokens ++ t.stream.ahead := rfl
    rw [hempty, List.append_nil] at htokens
    intro x hx
    exact hfound found (load_some hload).2.2 x (htokens ▸ hx)

theorem abandonProof : NamesInput target s.abandonProof ∧ s.abandonProof.includes = s.includes := by
  have hread : readProofRest s.proofDepth s.stream.ahead = ⟨(), s.stream.ahead, 0, 0⟩ := by
    unfold readProofRest
    rw [hs.proofDepth, proofRestFrom_zero]
  have hahead : s.abandonProof.stream.ahead = s.stream.ahead := by
    unfold State.abandonProof
    rw [hread]
    rfl
  refine ⟨⟨hahead.trans hs.ahead, hs.effect, hs.plain, rfl⟩, ?_⟩
  unfold State.abandonProof
  rw [hread]
  rfl

end NamesInput

/-- A file that only includes another one, which is made of characters, looks for no other file. -/
theorem targetsInside_of_input {target : String} (hfirst : NamesInput target first)
    (hfound : ∀ found, search setting target first.includes.current
        (Inclusion.candidates .input target) = .ok found →
      ∀ t ∈ found.tokens, t = .endOfInput ∨ ∃ c, t = .char c)
    (hstays : ∀ candidate ∈ Inclusion.candidates .input target,
      Path.StaysInside ⟨first.includes.current⟩ ⟨candidate⟩) : TargetsInside setting first := by
  let P : State → Prop := fun s =>
    s.Wordless ∨ NamesInput target s ∧ s.includes = first.includes
  have hspan : ∀ s inner u, P s → ¬Opens setting .file s inner u := by
    rintro s inner u (hs | ⟨hs, -⟩) hopens
    · obtain ⟨result, hresult, -⟩ := round_wordless setting hs
      exact hopens.not_const hresult
    · obtain ⟨name, rest, -, -, hround⟩ := round_of_inclusion hs.inclusion?
      exact hopens.not_const fun nested => hround setting nested .file
  have hround : ∀ nested s, P s → P (after (round setting nested .file) s) := by
    rintro nested s (hs | ⟨hs, hincludes⟩)
    · obtain ⟨result, hresult, hlast⟩ := round_wordless setting hs
      rw [after_eq_lastState, hresult]
      exact .inl hlast
    · exact .inl (hs.wordless_round (by rwa [hincludes]))
  have habandon : ∀ s, P s → P s.abandonProof := by
    rintro s (hs | ⟨hs, hincludes⟩)
    · exact .inl (wordless_abandonProof hs)
    · exact .inr ⟨hs.abandonProof.1, hs.abandonProof.2.trans hincludes⟩
  intro fuel frame start s hv kind other u hlooks _ _ candidate hcandidate
  obtain ⟨-, hs | ⟨hs, hincludes⟩⟩ :=
    holds_of_visits (P := P) (.inr ⟨hfirst, rfl⟩) hspan hround habandon hv
  · have hnone : ∀ {name : String} {rest : List Token}, s.stream.ahead ≠ .control name :: rest := by
      intro name rest hname
      rcases hs (.control name) (by rw [hname]; exact List.mem_cons_self) with h | ⟨c, h⟩ <;> cases h
    cases hlooks with
    | input hname => exact absurd hname hnone
    | package hname => exact absurd hname hnone
  · obtain ⟨rfl, rfl, hu⟩ := hs.looksFor hlooks
    rw [hu, hincludes]
    exact hstays candidate hcandidate

/-! ### A proof in front of the inclusion -/

/-- In front of a proof in plain prose with `behind` after it, or in the proof. -/
inductive InProse (path : String) (behind : List Token) : State → Prop
  | opening {period : Bool} {tokens : List Token} {consumed proofStart : Nat}
      (htokens : ∀ t ∈ tokens, t.isPlain) (hoption : NoOption tokens) :
      InProse path behind
        (outside path period (proofTokens tokens ++ behind) consumed proofStart)
  | body {draft : Draft} {period : Bool} {tokens : List Token} {consumed proofStart : Nat}
      (htokens : ∀ t ∈ tokens, t.isPlain) :
      InProse path behind (State.inBody path draft period
        (tokens ++ (environmentTokens "end" "proof" ++ behind)) consumed proofStart)

theorem effect?_of_structural {d : Dictionary} {name : String} {structural : Structural}
    (h : Structural.ofName? name = some structural) : effect? d name = none := by
  unfold effect?
  rw [h]
  rfl

namespace InProse

variable {path : String} {behind : List Token}

/-- A round in a proof does not depend on what spans come to, and stays in the proof unless it ends
it. -/
theorem round_eq (setting : Setting) (h : InProse path behind s) :
    ∃ result, (∀ nested, round setting nested .file s = result) ∧
      ∀ t, result = .ok .goOn t → InProse path behind t := by
  cases h with
  | @opening period tokens consumed proofStart htokens hoption =>
    have hlist : proofTokens tokens ++ behind =
        environmentTokens "begin" "proof" ++ (tokens ++ (environmentTokens "end" "proof" ++ behind)) := by
      unfold proofTokens
      rw [List.append_assoc, List.append_assoc]
    rw [hlist]
    refine ⟨_, fun nested => round_openProof
      (noOption_append (noOption_closeProof behind) tokens 0 hoption), fun t ht => ?_⟩
    cases ht
    exact .body htokens
  | @body draft period tokens consumed proofStart htokens =>
    cases tokens with
    | nil => exact ⟨_, fun nested => round_closeProof, nofun⟩
    | cons x tokens =>
      obtain ⟨hx, htokens⟩ := List.forall_mem_cons.mp htokens
      have hprose : x.IsProse := by cases x <;> trivial
      refine ⟨_, fun nested => round_prose hprose, fun t ht => ?_⟩
      cases ht
      exact .body htokens

theorem not_looksFor {kind : InclusionKind} {target : String} (h : InProse path behind s) :
    ¬LooksFor s kind target u := by
  have hnone : ∀ {name : String} {rest : List Token}, s.stream.ahead = .control name :: rest →
      effect? s.dictionary name = none := by
    intro name rest hname
    cases h with
    | opening htokens =>
      cases hname
      exact effect?_of_structural (Edge.ofName?_command (.environment true "proof"))
    | @body draft period tokens consumed proofStart htokens =>
      cases tokens with
      | nil =>
        cases hname
        exact effect?_of_structural (Edge.ofName?_command (.environment false "proof"))
      | cons x tokens =>
        cases hname
        cases htokens _ List.mem_cons_self
  intro hlooks
  cases hlooks with
  | input hname heffect => cases (hnone hname).symm.trans heffect
  | package hname heffect => cases (hnone hname).symm.trans heffect

end InProse

/-- A run that begins with a proof in plain prose visits states in the proof, and then those of the
run behind it. -/
theorem visits_proofTokens {path : String} {period : Bool} {tokens behind : List Token}
    {consumed proofStart : Nat} (htokens : ∀ t ∈ tokens, t.isPlain) (hoption : NoOption tokens)
    (hscan : scan setting .file
        (outside path period (proofTokens tokens ++ behind) consumed proofStart) =
      .ok (.proofEnd (proseProof? tokens)) second)
    (hv : Visits setting (outside path period (proofTokens tokens ++ behind) consumed proofStart)
      fuel frame start s) :
    frame = .file ∧ InProse path behind s ∨ Visits setting second fuel frame start s := by
  have hbegins : ∀ {s : State},
      Begins setting (outside path period (proofTokens tokens ++ behind) consumed proofStart) s →
      s = outside path period (proofTokens tokens ++ behind) consumed proofStart ∨
        Begins setting second s := by
    intro s hs
    induction hs with
    | first => exact .inl rfl
    | proofEnd _ h ih =>
      rcases ih with rfl | ih
      · rw [hscan] at h
        cases h
        exact .inr .first
      · exact .inr (ih.proofEnd h)
    | dropped _ h ih =>
      rcases ih with rfl | ih
      · rw [hscan] at h
        cases h
      · exact .inr (ih.dropped h)
  induction hv with
  | begins hs =>
    rcases hbegins hs with rfl | hs
    · exact .inl ⟨rfl, .opening htokens hoption⟩
    · exact .inr (.begins hs)
  | goOn _ hlimit h ih =>
    rcases ih with ⟨rfl, hs⟩ | ih
    · obtain ⟨result, hresult, hnext⟩ := hs.round_eq setting
      exact .inl ⟨rfl, hnext _ ((hresult _).symm.trans h)⟩
    · exact .inr (ih.goOn hlimit h)
  | opens _ hlimit h ih =>
    rcases ih with ⟨rfl, hs⟩ | ih
    · obtain ⟨result, hresult, -⟩ := hs.round_eq setting
      exact absurd hresult h.not_const
    · exact .inr (ih.opens hlimit h)

/-- A proof in plain prose looks for no file, so the targets are those of what stands behind it. -/
theorem targetsInside_proofTokens {path : String} {period : Bool} {tokens behind : List Token}
    {consumed proofStart : Nat} (htokens : ∀ t ∈ tokens, t.isPlain) (hoption : NoOption tokens)
    (hproof : tokens.length ≤ setting.options.environmentLimit)
    (hfile : consumed + 8 + tokens.length ≤ setting.options.fileLimit)
    (hbehind : ∀ period', TargetsInside setting
      (outside path period' behind (consumed + 8 + tokens.length + 8) (consumed + 8))) :
    TargetsInside setting (outside path period (proofTokens tokens ++ behind) consumed proofStart) := by
  obtain ⟨period', hscan⟩ : ∃ period', scan setting .file
      (outside path period (proofTokens tokens ++ behind) consumed proofStart) = _ :=
    scan_prose htokens hoption hproof hfile
  intro fuel frame start s hv kind target u hlooks
  rcases visits_proofTokens htokens hoption hscan hv with ⟨-, hs⟩ | hv
  · exact absurd hlooks hs.not_looksFor
  · exact hbehind period' fuel frame start s hv kind target u hlooks

end Scan

/-! ### An example -/

/-- A proof, and the inclusion of a file in a folder. -/
def chapterText : String := "\\begin\x7bproof\x7dSo.\\end\x7bproof\x7d\\input\x7bsub/a\x7d"

/-- The files. -/
def chapterFiles : List (String × Bytes) :=
  [("main.tex", ofText chapterText), ("sub/a.tex", ofText "y")]

/-- The disk that has them. -/
def chapterDisk : Disk :=
  ((({} : Disk).put ["main.tex"] (.file (ofText chapterText))).put ["sub"] .folder).put
    ["sub", "a.tex"] (.file (ofText "y"))

/-- The files in memory. -/
def chapterSetting : Setting := ⟨.standard, .ofFiles chapterFiles⟩

/-- The body of the proof. -/
def chapterBody : List Token := [.char 'S', .char 'o', .char '.']

/-- The inclusion behind it. -/
def chapterInput : List Token :=
  .control "input" :: (.openGroup :: charTokens "sub/a" ++ [.closeGroup])

theorem entry?_chapterDisk (place : Place) : chapterDisk.entry? place =
    if place = [] then some .folder
    else if ["sub", "a.tex"] = place then some (.file (ofText "y"))
    else if ["sub"] = place then some .folder
    else if ["main.tex"] = place then some (.file (ofText chapterText))
    else none := by
  unfold Disk.entry? chapterDisk Disk.put
  simp only [Std.HashMap.getElem?_insert, Std.HashMap.getElem?_empty, List.isEmpty_iff, beq_iff_eq]

theorem holds_chapterDisk : chapterDisk.Holds chapterFiles where
  plain := by
    intro file hfile
    rcases List.mem_pair.mp hfile with rfl | rfl
    · exact ⟨["main.tex"], by decide, by decide⟩
    · exact ⟨["sub", "a.tex"], by decide, by decide⟩
  read := by
    have hread : ∀ (path : String) (names : List String) (content : Bytes),
        Path.components ⟨path⟩ = names.map .name →
        (path.contains '\x00' = false ∧ path.isEmpty = false ∧
          path.utf8ByteSize ≤ Disk.pathLimit) →
        (∀ name ∈ names, name.utf8ByteSize ≤ Disk.nameLimit) → Disk.asksFolder ⟨path⟩ = false →
        (∀ n < names.length, chapterDisk.entry? (names.take n) = some .folder) →
        chapterDisk.entry? names = some (.file content) → chapterDisk.read ⟨path⟩ = .ok content :=
      fun _ _ _ => Disk.read_of_folders
    simp only [entry?_chapterDisk] at hread
    intro file hfile
    rcases List.mem_pair.mp hfile with rfl | rfl
    · exact hread "main.tex" ["main.tex"] _ (by decide) ⟨by simp, by decide, by decide⟩ (by decide)
        (by decide) (by decide) rfl
    · exact hread "sub/a.tex" ["sub", "a.tex"] _ (by decide) ⟨by simp, by decide, by decide⟩
        (by decide) (by decide) (by decide) rfl
  only := by
    intro names content _ hentry
    have hworking : chapterDisk.working = [] := rfl
    rw [hworking, List.nil_append, entry?_chapterDisk] at hentry
    split at hentry
    · cases hentry
    split at hentry
    · next hplace =>
      cases hentry
      subst hplace
      decide
    split at hentry
    · cases hentry
    split at hentry
    · next hplace =>
      cases hentry
      subst hplace
      decide
    · cases hentry

theorem ofSource_chapter :
    State.ofSource chapterSetting (Encoding.decodeSource (ofText chapterText)) "main.tex" =
      Scan.outside "main.tex" false (proofTokens chapterBody ++ chapterInput) 0 0 := by
  have htokens : Source.tokens (Encoding.decodeSource (ofText chapterText)) "main.tex" [] =
      proofTokens chapterBody ++ chapterInput := by
    decide +kernel
  unfold State.ofSource
  rw [show chapterSetting.options.corrections = [] from rfl, htokens]
  rfl

namespace Scan

theorem search_chapter : search chapterSetting "sub/a" "main.tex"
    (Inclusion.candidates .input "sub/a") = .ok ⟨"sub/a.tex", [.char 'y', .endOfInput]⟩ := by
  have hfound : (search chapterSetting "sub/a" "main.tex"
      (Inclusion.candidates .input "sub/a")).toOption.map (fun found => (found.path, found.tokens)) =
        some ("sub/a.tex", [.char 'y', .endOfInput]) := by
    decide +kernel
  cases hsearch : search chapterSetting "sub/a" "main.tex" (Inclusion.candidates .input "sub/a") with
  | error warning =>
    rw [hsearch] at hfound
    cases hfound
  | ok found =>
    rw [hsearch] at hfound
    obtain ⟨hpath, htokens⟩ := Prod.mk.inj (Option.some.inj hfound)
    rw [← hpath, ← htokens]

theorem namesInput_chapter (period : Bool) (consumed proofStart : Nat) :
    NamesInput "sub/a" (outside "main.tex" period chapterInput consumed proofStart) where
  ahead := rfl
  effect := effect?_empty (Structural.ofName?_eq_none_iff.mpr (by decide)) (by decide)
    (Effect.ofName?_of_lookup (by decide +kernel))
  plain := by decide
  proofDepth := rfl

theorem targetsInside_chapter : TargetsInside chapterSetting
    (outside "main.tex" false (proofTokens chapterBody ++ chapterInput) 0 0) := by
  refine targetsInside_proofTokens (by decide) (fun _ => nofun) (by decide) (by decide)
    fun period => targetsInside_of_input (namesInput_chapter period _ _) ?_ ?_
  · intro found hfound
    cases search_chapter.symm.trans hfound
    simp
  · have hstays : ∀ candidate ∈ Inclusion.candidates .input "sub/a",
        Path.StaysInside ⟨"main.tex"⟩ ⟨candidate⟩ := by
      decide +kernel
    exact hstays

theorem passesOver_chapter : passesOver chapterSetting "sub/a" = false := by
  have hknows : Catalogue.standard.knows "sub/a" = false := by
    unfold Catalogue.knows
    simp only [Catalogue.contains_standard]
    decide +kernel
  unfold passesOver
  rw [show chapterSetting.options.catalogue = .standard from rfl, hknows]
  decide

theorem round_chapter (period : Bool) :
    round chapterSetting (scan chapterSetting) .file
        (outside "main.tex" period chapterInput 19 8) =
      .ok .goOn ((outside "main.tex" period [] 27 8).reading "sub/a.tex" [.char 'y', .endOfInput]) := by
  have hs := namesInput_chapter period 19 8
  obtain ⟨name, rest, hname, -, hround⟩ := round_of_inclusion hs.inclusion?
  have hpass : ¬passesOver chapterSetting "sub/a" = true := by
    rw [passesOver_chapter]
    exact Bool.false_ne_true
  rw [hround]
  exact bind_ok (inclusion_found (hs.read hname).2 hpass (Nat.zero_lt_succ 4) search_chapter)

/-- The characters of the file outside proofs leave nothing, and the file is left again. -/
theorem rounds_chapter (period : Bool) : Rounds chapterSetting .file 0
    ((outside "main.tex" period [] 27 8).reading "sub/a.tex" [.char 'y', .endOfInput])
    (outside "main.tex" period [] 29 8) := by
  have hlimit : ∀ consumed tokens, consumed ≤ 29 → passedLimit? chapterSetting .file 0
      { (outside "main.tex" period [] 27 8).reading "sub/a.tex" [] with
        stream := ⟨tokens, consumed⟩ } = none := by
    intro consumed tokens hconsumed
    exact passedLimit?_eq_none_iff.mpr ⟨Nat.le_trans hconsumed (by decide), nofun, nofun⟩
  exact .head ⟨hlimit 27 _ (by decide), rfl⟩ (.head ⟨hlimit 28 _ (by decide), rfl⟩ .refl)

/-- The run comes to the proof, and then through the other file to its end. -/
theorem extraction_chapter : ((outside "main.tex" false (proofTokens chapterBody ++ chapterInput) 0
    0).history chapterSetting).extraction = .ok ⟨[⟨"So ."⟩], [], [], 29⟩ := by
  have hproof? : proseProof? chapterBody = some ⟨"So ."⟩ := by decide
  obtain ⟨period, hscan⟩ : ∃ period, scan chapterSetting .file
      (outside "main.tex" false (proofTokens chapterBody ++ chapterInput) 0 0) =
        .ok (.proofEnd (proseProof? chapterBody)) (outside "main.tex" period chapterInput 19 8) :=
    scan_prose (by decide) (fun _ => nofun) (by decide) (by decide)
  rw [hproof?] at hscan
  have hproof : GoesOn chapterSetting
      (outside "main.tex" false (proofTokens chapterBody ++ chapterInput) 0 0)
      [.completed ⟨"So ."⟩] (outside "main.tex" period chapterInput 19 8) :=
    goesOn_of_proofEnd hscan
  have hfile : Rounds chapterSetting .file 0 (outside "main.tex" period chapterInput 19 8)
      (outside "main.tex" period [] 29 8) :=
    .head ⟨passedLimit?_outside (by decide), round_chapter period⟩ (rounds_chapter period)
  rw [(hproof.trans hfile.goesOn).extraction_eq (history_nil rfl (passedLimit?_outside (by decide)))]
  rfl

end Scan

/-- **A file in a folder** is found on the disk as in memory. -/
theorem a_chapter_is_found :
    chapterDisk.Holds chapterFiles ∧
    ("main.tex", ofText chapterText) ∈ chapterFiles ∧
    Scan.TargetsInside chapterSetting
      (.ofSource chapterSetting (Encoding.decodeSource (ofText chapterText)) "main.tex") ∧
    extractFile .standard chapterDisk ⟨"main.tex"⟩ = .ok ⟨[⟨"So ."⟩], [], [], 29⟩ := by
  have hmain : ("main.tex", ofText chapterText) ∈ chapterFiles := List.mem_cons_self
  have hinside := Scan.targetsInside_chapter
  rw [← ofSource_chapter] at hinside
  refine ⟨holds_chapterDisk, hmain, hinside, ?_⟩
  rw [extractFile_eq_extract holds_chapterDisk hmain hinside]
  unfold extract
  rw [show (⟨.standard, .ofFiles chapterFiles⟩ : Setting) = chapterSetting from rfl,
    ofSource_chapter]
  exact Scan.extraction_chapter

end ProofProse
