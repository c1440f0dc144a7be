import ProofProse.Proofs.Folders
import ProofProse.Proofs.Sharing

/-! # Walks below folders

A walk asks for each path it comes to whether it is that of a folder, and a path that the system
does not take (`Path.IsTaken`) is not. Below a folder that was found, all other paths lead where
their names say (`Batch.place_pathBelow`). So a walk ends at everything below the folder that is no
folder itself, and at folders whose paths are too long, as far as the folders above have paths that
are taken (`Batch.mem_filesBelow_iff_walkEnds`). What is collected are the given paths that are no folders
and the sources at which walks end (`Batch.inputs_are_collected_exactly`). -/

namespace ProofProse

open ProofProse.Path (Component)

/-- The system takes a path: its text may be given to the system, and no name is too long. -/
structure Path.IsTaken (path : Path) : Prop where
  sound : path.IsSound
  fits : ∀ c ∈ path.components, c.Fits

theorem Path.text_join (path : Path) {name : String} (hname : Path.IsName name) :
    ∃ glue, (path.join ⟨name⟩).text = path.text ++ glue ++ name := by
  have halone : (⟨name⟩ : Path) = .ofParts false [name] := Path.eq_of_text (by simp [Path.ofParts])
  have hrelative : Path.isRooted ⟨name⟩ = false := by
    rw [halone]
    exact Path.isRooted_ofNames (by simpa using hname)
  unfold Path.join
  rw [hrelative, if_neg Bool.false_ne_true]
  split
  · next hempty =>
    have htext : path.text = "" := String.toList_eq_nil_iff.mp (List.getLast?_eq_none_iff.mp hempty)
    exact ⟨"", by rw [htext]; simp⟩
  · exact ⟨"", by simp⟩
  · exact ⟨"/", rfl⟩

namespace Disk

variable {disk : Disk}

theorem IsTree.folder_above (hdisk : disk.IsTree) : ∀ {names : List String}, names ≠ [] →
    ∀ {place : Place}, disk.entry? (place ++ names) ≠ none → disk.entry? place = some .folder
  | [name], _, place, h => hdisk.above place name h
  | name :: next :: names, _, place, h => by
    rw [List.append_cons] at h
    have hnext := hdisk.folder_above (List.cons_ne_nil next names) h
    exact hdisk.above place name (by rw [hnext]; exact nofun)

theorem IsTree.passed_names (hdisk : disk.IsTree) : ∀ {names : List String} {start : Place},
    disk.entry? (start ++ names) ≠ none →
    ∀ q ∈ passed start (names.map .name), disk.entry? q = some .folder
  | name :: names, start, h, q, hq => by
    rcases List.mem_cons.mp hq with rfl | hq
    · exact hdisk.folder_above (List.cons_ne_nil name names) h
    · rw [List.append_cons] at h
      exact hdisk.passed_names h q hq

end Disk

namespace Batch

variable {disk : Disk} {folder path : Path} {paths : List Path} {names : List String}

/-! ### Where a walk comes to -/

theorem components_pathBelow (folder : Path) (hnames : ∀ n ∈ names, Path.IsName n) :
    (pathBelow folder names).components = folder.components ++ names.map .name := by
  cases names with
  | nil => exact (List.append_nil _).symm
  | cons name names =>
    rw [pathBelow_names folder (List.cons_ne_nil _ _) hnames,
      Path.components_join folder (List.cons_ne_nil _ _) hnames]

theorem place_of_isFolder (h : disk.isFolder folder = true) :
    disk.place folder = .ok (disk.destination folder) := by
  cases hplace : disk.place folder with
  | ok place => rw [(Disk.eq_destination hplace).1]
  | error fault =>
    unfold Disk.isFolder at h
    rw [Disk.find_of_fault hplace] at h
    cases h

theorem isTaken_of_isFolder (h : disk.isFolder path = true) : path.IsTaken :=
  ⟨(Disk.eq_destination (place_of_isFolder h)).2.1, (Disk.eq_destination (place_of_isFolder h)).2.2⟩

/-- **Below a folder** a path that is taken leads where its names say. -/
theorem place_pathBelow (hdisk : disk.IsTree) (hfolder : disk.isFolder folder = true)
    (hentry : disk.entry? (disk.destination folder ++ names) ≠ none)
    (htaken : (pathBelow folder names).IsTaken) :
    disk.place (pathBelow folder names) = .ok (disk.destination folder ++ names) := by
  have hcomponents := components_pathBelow folder (hdisk.names_below hentry)
  have hdestination : disk.destination (pathBelow folder names) =
      disk.destination folder ++ names := by
    unfold Disk.destination
    rw [hcomponents, List.foldl_append, Disk.foldl_next_names]
  rw [← hdestination]
  refine Disk.place_ok htaken.sound htaken.fits fun q hq => ?_
  rw [hcomponents, Disk.passed_append] at hq
  rcases List.mem_append.mp hq with hq | hq
  · exact Disk.folders_of_place hdisk.working (place_of_isFolder hfolder) q hq
  · exact hdisk.passed_names hentry q hq

/-- What is below a folder is found to be one if it is one and its path is taken. -/
theorem isFolder_pathBelow_iff (hdisk : disk.IsTree) (hfolder : disk.isFolder folder = true)
    (hentry : disk.entry? (disk.destination folder ++ names) ≠ none) :
    disk.isFolder (pathBelow folder names) = true ↔ (pathBelow folder names).IsTaken ∧
      disk.entry? (disk.destination folder ++ names) = some .folder := by
  constructor
  · intro h
    have htaken := isTaken_of_isFolder h
    exact ⟨htaken, (Disk.isFolder_of_place (place_pathBelow hdisk hfolder hentry htaken)).mp h⟩
  · rintro ⟨htaken, h⟩
    exact (Disk.isFolder_of_place (place_pathBelow hdisk hfolder hentry htaken)).mpr h

/-- A walk from a folder ends at some names: they lead to something below the folder, the path of
what is above it is taken, and it is no folder or its own path is not taken. -/
structure WalkEnds (disk : Disk) (folder : Path) (names : List String) : Prop where
  ne_nil : names ≠ []
  entry : disk.entry? (disk.destination folder ++ names) ≠ none
  entered : (pathBelow folder names.dropLast).IsTaken
  closed : disk.entry? (disk.destination folder ++ names) = some .folder →
    ¬(pathBelow folder names).IsTaken

/-- **What a walk comes to** and does not enter is at the names at which it ends. -/
theorem mem_filesBelow_iff_walkEnds (hdisk : disk.IsTree) (hfolder : disk.isFolder folder = true) :
    path ∈ filesBelow disk folder ↔ ∃ names, WalkEnds disk folder names ∧
      path = pathBelow folder names := by
  have habove : ∀ {names : List String}, names ≠ [] →
      disk.entry? (disk.destination folder ++ names) ≠ none →
      disk.entry? (disk.destination folder ++ names.dropLast) = some .folder := by
    intro names hne hentry
    refine hdisk.above _ (names.getLast hne) ?_
    rwa [List.append_assoc, List.dropLast_concat_getLast hne]
  have hopen : ∀ {names : List String}, names ≠ [] →
      disk.entry? (disk.destination folder ++ names) ≠ none →
      (disk.isFolder (pathBelow folder names.dropLast) = true ↔
        (pathBelow folder names.dropLast).IsTaken) := by
    intro names hne hentry
    have hlast := habove hne hentry
    rw [isFolder_pathBelow_iff hdisk hfolder (by rw [hlast]; exact nofun)]
    exact and_iff_left hlast
  rw [mem_filesBelow_iff]
  constructor
  · rintro ⟨place, names, hplace, hne, hentry, hwalked⟩
    obtain ⟨rfl, -⟩ := Disk.eq_destination hplace
    unfold walked? at hwalked
    dsimp only at hwalked
    split at hwalked
    · next hwalk =>
      rw [Bool.and_eq_true, Bool.not_eq_true', ← Bool.not_eq_true,
        isFolder_pathBelow_iff hdisk hfolder hentry] at hwalk
      exact ⟨names, ⟨hne, hentry, (hopen hne hentry).mp hwalk.1,
        fun h htaken => hwalk.2 ⟨htaken, h⟩⟩, (Option.some.inj hwalked).symm⟩
    · cases hwalked
  · rintro ⟨names, hends, rfl⟩
    refine ⟨_, names, place_of_isFolder hfolder, hends.ne_nil, hends.entry, ?_⟩
    unfold walked?
    dsimp only
    rw [if_pos]
    rw [Bool.and_eq_true, Bool.not_eq_true', ← Bool.not_eq_true,
      isFolder_pathBelow_iff hdisk hfolder hends.entry]
    exact ⟨(hopen hends.ne_nil hends.entry).mpr hends.entered, fun h => hends.closed h.2 h.1⟩

/-! ### Everything that is collected -/

/-- A name that ends in a dot and the letters of the ending of sources, small or capital, with
something before the dot. -/
def IsSourceName (name : String) : Prop :=
  ∃ stem ending, name = stem ++ "." ++ ending ∧ stem ≠ "" ∧
    ending.toList.map Char.toLower = "tex".toList

theorem isSource_iff_isSourceName {name : String} (h : path.fileName? = some name) :
    isSource path = true ↔ IsSourceName name := by
  have hsmall : "tex".toList.map Char.toLower = "tex".toList := by decide
  rw [isSource_iff h]
  refine exists_congr fun stem => exists_congr fun ending => and_congr_right fun _ =>
    and_congr_right fun _ => ?_
  rw [Path.sameIgnoringCase_iff, hsmall]
  refine and_iff_right_of_imp fun hending hdot => ?_
  have hlower : Char.toLower '.' ∈ ending.toList.map Char.toLower := List.mem_map_of_mem hdot
  rw [hending] at hlower
  exact absurd hlower (by decide)

theorem fileName?_pathBelow (hne : names ≠ []) (hnames : ∀ n ∈ names, Path.IsName n) :
    (pathBelow folder names).fileName? = some (names.getLast hne) := by
  refine Path.fileName?_eq_some_iff.mpr ⟨folder.components ++ names.dropLast.map .name, ?_⟩
  rw [components_pathBelow folder hnames, List.append_assoc]
  conv => lhs; rw [← List.dropLast_concat_getLast hne, List.map_append]
  rfl

theorem mem_inputsOf_iff (hdisk : disk.IsTree) (hfolder : disk.isFolder folder = true) :
    path ∈ inputsOf disk folder ↔ ∃ names, WalkEnds disk folder names ∧
      (∃ name ∈ names.getLast?, IsSourceName name) ∧ path = pathBelow folder names := by
  unfold inputsOf
  rw [if_pos hfolder, List.mem_filter, mem_filesBelow_iff_walkEnds hdisk hfolder]
  have hsource : ∀ {names : List String}, WalkEnds disk folder names →
      (isSource (pathBelow folder names) = true ↔ ∃ name ∈ names.getLast?, IsSourceName name) := by
    intro names hends
    have hnames := hdisk.names_below hends.entry
    rw [isSource_iff_isSourceName (fileName?_pathBelow hends.ne_nil hnames),
      List.getLast?_eq_some_getLast hends.ne_nil]
    simp
  constructor
  · rintro ⟨⟨names, hends, rfl⟩, h⟩
    exact ⟨names, hends, (hsource hends).mp h, rfl⟩
  · rintro ⟨names, hends, h, rfl⟩
    exact ⟨⟨names, hends, rfl⟩, (hsource hends).mpr h⟩

/-- **Inputs are collected exactly**, in the order of paths and each once: the given paths that are
no folders, and the sources at which the walks from the given folders end. -/
theorem inputs_are_collected_exactly (hdisk : disk.IsTree) (paths : List Path) :
    ((collect disk paths).Pairwise fun p q => p.compare q = .lt) ∧
    ∀ components, (∃ p ∈ collect disk paths, p.components = components) ↔
      (∃ p ∈ paths, disk.isFolder p = false ∧ p.components = components) ∨
      ∃ folder ∈ paths, disk.isFolder folder = true ∧ ∃ names, WalkEnds disk folder names ∧
        (∃ name ∈ names.getLast?, IsSourceName name) ∧
        folder.components ++ names.map .name = components := by
  refine ⟨pairwise_lt_collect disk paths, fun components => ?_⟩
  have hbelow : ∀ {folder : Path} {names : List String}, WalkEnds disk folder names →
      (pathBelow folder names).components = folder.components ++ names.map .name :=
    fun hends => components_pathBelow _ (hdisk.names_below hends.entry)
  rw [exists_mem_collect_iff]
  constructor
  · rintro ⟨given, hgiven, p, hp, rfl⟩
    cases hfolder : disk.isFolder given with
    | false =>
      rw [inputsOf, hfolder, if_neg Bool.false_ne_true, List.mem_singleton] at hp
      exact .inl ⟨given, hgiven, hfolder, by rw [hp]⟩
    | true =>
      obtain ⟨names, hends, hsource, rfl⟩ := (mem_inputsOf_iff hdisk hfolder).mp hp
      exact .inr ⟨given, hgiven, hfolder, names, hends, hsource, (hbelow hends).symm⟩
  · rintro (⟨given, hgiven, hfolder, rfl⟩ | ⟨folder, hgiven, hfolder, names, hends, hsource, rfl⟩)
    · refine ⟨given, hgiven, given, ?_, rfl⟩
      rw [inputsOf, hfolder, if_neg Bool.false_ne_true, List.mem_singleton]
    · exact ⟨folder, hgiven, _, (mem_inputsOf_iff hdisk hfolder).mpr ⟨names, hends, hsource, rfl⟩,
        hbelow hends⟩

/-! ### A folder that is taken for a source -/

/-- The entries of `nestedDisk`. -/
def nestedEntries : List (Place × DiskEntry) :=
  [(["d"], .folder), (["d", "s.tex"], .folder), (["d", "s.tex", "a.tex"], .file [])]

/-- A source in a folder that has the ending of a source. -/
def nestedDisk : Disk := .ofList nestedEntries

theorem lookup_nested (place : Place) : nestedDisk.entry? place =
    if place = [] then some .folder else nestedEntries.lookup place :=
  Disk.entry?_ofList (by decide) place

theorem isSourceName_nested : IsSourceName "s.tex" ∧ IsSourceName "a.tex" :=
  ⟨⟨"s", "tex", by decide, by decide, by decide⟩, ⟨"a", "tex", by decide, by decide, by decide⟩⟩

/-- A source below two folders that are both given is collected, beside a path that is no folder. -/
theorem source_below_two_folders :
    nestedDisk.IsTree ∧
    ((collect nestedDisk [⟨"x"⟩, ⟨"d"⟩, ⟨"d/s.tex"⟩]).Pairwise fun p q => p.compare q = .lt) ∧
    (∃ p ∈ collect nestedDisk [⟨"x"⟩, ⟨"d"⟩, ⟨"d/s.tex"⟩],
      p.components = [.name "d", .name "s.tex", .name "a.tex"]) ∧
    ∃ p ∈ collect nestedDisk [⟨"x"⟩, ⟨"d"⟩, ⟨"d/s.tex"⟩], p.components = [.name "x"] := by
  have hdisk : nestedDisk.IsTree := Disk.isTree_ofList (by decide)
  have hplace : nestedDisk.place ⟨"d"⟩ = .ok ["d"] :=
    Disk.place_of_entries rfl lookup_nested (by decide) (by decide) (by decide)
  have hfolder : nestedDisk.isFolder ⟨"d"⟩ = true :=
    (Disk.isFolder_of_place hplace).mpr (by rw [lookup_nested]; decide)
  have hmissing : nestedDisk.isFolder ⟨"x"⟩ = false := by
    have hx : nestedDisk.place ⟨"x"⟩ = .ok ["x"] :=
      Disk.place_of_entries rfl lookup_nested (by decide) (by decide) (by decide)
    rw [← Bool.not_eq_true, Disk.isFolder_of_place hx, lookup_nested]
    decide
  have hfile : nestedDisk.entry? ["d", "s.tex", "a.tex"] = some (.file []) := by
    rw [lookup_nested]
    decide
  have hends : WalkEnds nestedDisk ⟨"d"⟩ ["s.tex", "a.tex"] := by
    have hdestination := (Disk.eq_destination hplace).1
    refine ⟨List.cons_ne_nil _ _, ?_, ⟨by decide, by decide⟩, ?_⟩
    · rw [← hdestination]
      exact hfile ▸ nofun
    · rw [← hdestination]
      exact hfile ▸ nofun
  have hcollected := inputs_are_collected_exactly hdisk [⟨"x"⟩, ⟨"d"⟩, ⟨"d/s.tex"⟩]
  refine ⟨hdisk, hcollected.1, (hcollected.2 _).mpr (.inr ?_), (hcollected.2 _).mpr (.inl ?_)⟩
  · exact ⟨⟨"d"⟩, by simp, hfolder, _, hends, ⟨"a.tex", rfl, isSourceName_nested.2⟩, by decide⟩
  · exact ⟨⟨"x"⟩, by simp, hmissing, by decide⟩

/-- The path of the folder, with slashes behind it. -/
def slashed (count : Nat) : Path := .ofParts false ("d" :: List.replicate count "")

theorem text_slashed (count : Nat) :
    (slashed count).text = "d" ++ String.ofList (List.replicate count '/') := by
  unfold slashed
  induction count with
  | zero => decide
  | succ count ih =>
    rw [List.replicate_succ', ← List.cons_append,
      Path.text_ofParts_append false (List.cons_ne_nil _ _), ih, List.replicate_succ',
      String.ofList_append, String.append_empty, String.append_assoc]

theorem utf8ByteSize_slashed (count : Nat) : (slashed count).text.utf8ByteSize = count + 1 := by
  rw [text_slashed]
  induction count with
  | zero => decide
  | succ count ih =>
    rw [List.replicate_succ', String.ofList_append, ← String.append_assoc,
      String.utf8ByteSize_append, ih]
    rfl

theorem components_slashed (count : Nat) : (slashed count).components = [.name "d"] := by
  have hparts : Path.AreParts false ("d" :: List.replicate count "") := by
    refine ⟨fun part hpart => ?_, by simp⟩
    rcases List.mem_cons.mp hpart with rfl | hpart
    · decide
    · rw [List.eq_of_mem_replicate hpart]
      decide
  have hsilent : Path.partComponents false (List.replicate count "") = [] := by
    clear hparts
    induction count with
    | zero => rfl
    | succ count ih =>
      rw [List.replicate_succ, Path.partComponents, ih]
      decide
  rw [slashed, Path.components_ofParts hparts, Bool.not_false, Path.partComponents, hsilent]
  decide

theorem isTaken_slashed {count : Nat} (hcount : count < Disk.pathLimit) :
    (slashed count).IsTaken := by
  refine ⟨⟨?_, ?_, ?_⟩, ?_⟩
  · rw [String.contains_char_eq, decide_eq_false_iff_not, text_slashed, String.toList_append,
      String.toList_ofList, String.toList_ofList, List.mem_append, List.mem_replicate]
    rintro (hzero | ⟨-, hzero⟩)
    · exact absurd hzero (by decide)
    · exact absurd hzero (by decide)
  · intro hempty
    have hsize := utf8ByteSize_slashed count
    rw [hempty] at hsize
    cases hsize
  · rw [utf8ByteSize_slashed]
    exact hcount
  · rw [components_slashed]
    decide

/-- With so many slashes the path of what is in the folder is too long. -/
theorem not_isTaken_below_slashed {name : String} {count : Nat} (hname : Path.IsName name)
    (hcount : Disk.pathLimit ≤ count + name.utf8ByteSize) :
    ¬(pathBelow (slashed count) [name]).IsTaken := by
  intro htaken
  obtain ⟨glue, htext⟩ := (slashed count).text_join hname
  have hshort : ((slashed count).join ⟨name⟩).text.utf8ByteSize ≤ Disk.pathLimit :=
    htaken.sound.short
  rw [htext, String.utf8ByteSize_append, String.utf8ByteSize_append,
    utf8ByteSize_slashed] at hshort
  omega

/-- **A folder is collected** and what is in it is not, because the path of the folder is one byte
too long to be asked for. -/
theorem folder_with_a_long_path :
    nestedDisk.IsTree ∧
    nestedDisk.isFolder (slashed 4090) = true ∧
    nestedDisk.destination (slashed 4090) = ["d"] ∧
    nestedDisk.entry? ["d", "s.tex"] = some .folder ∧
    nestedDisk.entry? ["d", "s.tex", "a.tex"] = some (.file []) ∧
    (∃ p ∈ collect nestedDisk [slashed 4090], p.components = [.name "d", .name "s.tex"]) ∧
    ∀ p ∈ collect nestedDisk [slashed 4090],
      p.components ≠ [.name "d", .name "s.tex", .name "a.tex"] := by
  have hdisk : nestedDisk.IsTree := Disk.isTree_ofList (by decide)
  have hplace : nestedDisk.place (slashed 4090) = .ok ["d"] := by
    have htaken : (slashed 4090).IsTaken := isTaken_slashed (by decide)
    have hlocated := Disk.place_of_entries rfl lookup_nested htaken.sound htaken.fits
    rw [components_slashed] at hlocated
    exact hlocated (by decide)
  have hdestination := (Disk.eq_destination hplace).1
  have hfolder : nestedDisk.isFolder (slashed 4090) = true :=
    (Disk.isFolder_of_place hplace).mpr (by rw [lookup_nested]; decide)
  have hlong : ¬(pathBelow (slashed 4090) ["s.tex"]).IsTaken :=
    not_isTaken_below_slashed (by decide) (by decide)
  have hinner : nestedDisk.entry? ["d", "s.tex"] = some .folder := by
    rw [lookup_nested]
    decide
  have hends : WalkEnds nestedDisk (slashed 4090) ["s.tex"] := by
    refine ⟨List.cons_ne_nil _ _, ?_, isTaken_of_isFolder hfolder, fun _ => hlong⟩
    rw [← hdestination]
    exact hinner ▸ nofun
  refine ⟨hdisk, hfolder, hdestination.symm, hinner, by rw [lookup_nested]; decide,
    exists_mem_collect_iff.mpr ?_, fun p hp hcomponents => ?_⟩
  · refine ⟨_, List.mem_singleton_self _, _, (mem_inputsOf_iff hdisk hfolder).mpr
      ⟨_, hends, ⟨"s.tex", rfl, isSourceName_nested.1⟩, rfl⟩, ?_⟩
    rw [components_pathBelow _ (by decide), components_slashed]
    decide
  · obtain ⟨given, hgiven, q, hq, hsame⟩ := exists_mem_collect_iff.mp ⟨p, hp, hcomponents⟩
    rw [List.mem_singleton.mp hgiven] at hq
    obtain ⟨names, hopen, -, rfl⟩ := (mem_inputsOf_iff hdisk hfolder).mp hq
    rw [components_pathBelow _ (hdisk.names_below hopen.entry), components_slashed] at hsame
    have htail : names.map Component.name = ["s.tex", "a.tex"].map .name :=
      (List.cons.inj hsame).2
    rw [(List.map_inj_right fun _ _ => Component.name.inj).mp htail] at hopen
    exact hlong hopen.entered

end Batch

end ProofProse
