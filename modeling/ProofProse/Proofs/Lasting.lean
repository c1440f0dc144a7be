import ProofProse.Proofs.Growth
import ProofProse.Proofs.Pool
import ProofProse.Proofs.Schedule
import ProofProse.Proofs.Sharing

/-! # What lasts

What an operation of the work on an input can do to the disk is said once (`Batch.goes_work`): nothing
is lost, and only where the results of the input stand a file may be another one than before
(`Disk.Adds`); or it is the last one, and takes a result away (`Batch.Takes`). So the disk stays a
tree, and an input that has a result keeps it, if the other input of which a result is taken away has
one then: what was taken away may have been the result of both, but then both have the other one
(`Batch.Takes.hasResult`).

Where nothing is found at a path there was nothing, unless the path steps up from where there is no
folder (`Disk.Aims.missing`). -/

namespace ProofProse

open ProofProse.Path (Component)

namespace Disk

variable {disk disk' : Disk} {place start q : Place} {path : Path} {paths : List Path}
  {content : Encoding.Bytes} {components : List Component}

/-! ### Places that paths aim at -/

/-- A path aims at a place if it leads there as soon as there are folders on the way, and does not ask
for a folder. -/
structure Aims (disk : Disk) (path : Path) (place : Place) : Prop where
  sound : path.IsSound
  fits : ∀ c ∈ path.components, c.Fits
  asks : asksFolder path = false
  destination : disk.destination path = place

theorem aims_of_place (hplace : disk.place path = .ok place) (hasks : asksFolder path = false) :
    disk.Aims path place := by
  obtain ⟨rfl, hsound, hfits⟩ := eq_destination hplace
  exact ⟨hsound, hfits, hasks, rfl⟩

theorem Aims.congr (h : disk.Aims path place) (hworking : disk'.working = disk.working) :
    disk'.Aims path place :=
  ⟨h.sound, h.fits, h.asks, (destination_congr hworking path).trans h.destination⟩

/-- A path steps up from where there is no folder. -/
def Climbs (disk : Disk) (path : Path) : Prop :=
  ∃ front behind, path.components = front ++ .parent :: behind ∧
    disk.entry? (front.foldl next disk.working) ≠ some .folder

/-- What is on the way to something is a folder: by induction from the end. -/
theorem folder_of_destination (hdisk : disk.IsTree) : ∀ {components : List Component} {start : Place},
    disk.entry? (components.foldl next start) ≠ none →
    (∀ d ∈ components, d = .parent ∨ ∃ s, d = .name s) →
    (∀ front behind, components = front ++ .parent :: behind →
      disk.entry? (front.foldl next start) = some .folder) →
    components ≠ [] → disk.entry? start = some .folder
  | c :: components, start, hsome, hinner, hup, _ => by
    have hlast : disk.entry? (components.foldl next (next start c)) ≠ none := hsome
    have hnext : disk.entry? (next start c) ≠ none := by
      by_cases hempty : components = []
      · rwa [hempty] at hlast
      · rw [folder_of_destination hdisk hlast (fun d hd => hinner d (List.mem_cons_of_mem c hd))
          (fun front behind hsplit => hup (c :: front) behind (congrArg (c :: ·) hsplit)) hempty]
        exact nofun
    rcases hinner c List.mem_cons_self with rfl | ⟨s, rfl⟩
    · exact hup [] components rfl
    · exact hdisk.above start s hnext

theorem folders_of_destination (hdisk : disk.IsTree) (hstart : disk.entry? start = some .folder)
    (hsome : disk.entry? (components.foldl next start) ≠ none)
    (hinner : ∀ d ∈ components.tail, d = .parent ∨ ∃ s, d = .name s)
    (hup : ∀ front behind, components = front ++ .parent :: behind →
      disk.entry? (front.foldl next start) = some .folder) :
    ∀ q ∈ passed start components, disk.entry? q = some .folder := by
  induction components generalizing start with
  | nil => exact fun q hq => absurd hq List.not_mem_nil
  | cons c components ih =>
    have hup' : ∀ front behind, components = front ++ .parent :: behind →
        disk.entry? (front.foldl next (next start c)) = some .folder := fun front behind hsplit =>
      hup (c :: front) behind (congrArg (c :: ·) hsplit)
    intro q hq
    rcases List.mem_cons.mp hq with rfl | hq
    · exact hstart
    · have hlast : disk.entry? (components.foldl next (next start c)) ≠ none := hsome
      have hne : components ≠ [] := by
        rintro rfl
        exact absurd hq List.not_mem_nil
      exact ih (folder_of_destination hdisk hlast hinner hup' hne) hlast
        (fun d hd => hinner d (List.mem_of_mem_tail hd)) hup' q hq

/-- **Where nothing is found** there is nothing, unless the path steps up from where there is no
folder. -/
theorem Aims.missing (h : disk.Aims path place) (hdisk : disk.IsTree) (hclimbs : ¬disk.Climbs path)
    (hfree : disk.occupied path = false) : disk.entry? place = none := by
  by_contra hsome
  rw [← h.destination] at hsome
  have hfolders := folders_of_destination hdisk hdisk.working hsome
    (fun d hd => later_component path hd) fun front behind hsplit => by
      by_contra hup
      exact hclimbs ⟨front, behind, hsplit, hup⟩
  have hfound := (occupied_iff_of_place (place_ok h.sound h.fits hfolders)).mpr (.inr ⟨hsome, h.asks⟩)
  rw [hfree] at hfound
  cases hfound

/-! ### Operations that lose nothing -/

/-- Nothing is lost, and only at places that some paths aim at a file may be another one. -/
structure Adds (paths : List Path) (disk disk' : Disk) : Prop where
  isTree : disk'.IsTree
  working : disk'.working = disk.working
  folder : ∀ q, disk.entry? q = some .folder → disk'.entry? q = some .folder
  there : ∀ q, disk.entry? q ≠ none → disk'.entry? q ≠ none
  elsewhere : ∀ q, (∀ path ∈ paths, ¬disk.Aims path q) → disk.entry? q ≠ none →
    disk'.entry? q = disk.entry? q

theorem Adds.of_keeps (htree : disk'.IsTree) (h : disk.Keeps disk') : Adds paths disk disk' where
  isTree := htree
  working := h.working
  folder _ hq := h.folder hq
  there q hq := by rwa [h.entries q hq]
  elsewhere q _ hq := h.entries q hq

theorem Adds.refl (hdisk : disk.IsTree) : Adds paths disk disk := .of_keeps hdisk (.refl disk)

theorem Adds.occupied (h : Adds paths disk disk') (hdisk : disk.IsTree)
    (hfound : disk.occupied path = true) : disk'.occupied path = true := by
  refine occupied_of_folders hdisk h.working h.folder (h.there _ fun hmissing => ?_) hfound
  rw [occupied_of_missing hmissing] at hfound
  cases hfound

/-- A file is put where one was, or where there was nothing below a folder. -/
theorem adds_put (hpath : path ∈ paths) (haims : disk.Aims path place)
    (hfree : disk.entry? place ≠ some .folder)
    (htree : (disk.put place (.file content)).IsTree) :
    Adds paths disk (disk.put place (.file content)) where
  isTree := htree
  working := rfl
  folder _ hq := folder_put hfree hq
  there q hq := by
    rw [entry?_put (ne_nil_of_entry hfree)]
    split
    · exact nofun
    · exact hq
  elsewhere q hoff _ := by
    have hne : q ≠ place := fun heq => hoff path hpath (heq ▸ haims)
    rw [entry?_put (ne_nil_of_entry hfree), if_neg hne]

theorem create_cases (h : disk.create path = .ok (place, disk')) :
    disk.place path = .ok place ∧ asksFolder path = false ∧
      disk.entry? place ≠ some .folder ∧ disk' = disk.put place (.file []) := by
  cases hplace : disk.place path with
  | error fault =>
    rw [create_of_fault hplace] at h
    cases h
  | ok place' =>
    unfold create at h
    rw [hplace] at h
    dsimp only [bind, Except.bind] at h
    split at h
    · cases h
    next hfree =>
    split at h
    · cases h
    next hdot =>
    split at h
    · cases h
    · next hslash =>
      cases h
      exact ⟨rfl, Bool.or_eq_false_iff.mpr ⟨Bool.eq_false_iff.mpr hslash,
        Bool.eq_false_iff.mpr hdot⟩, hfree, rfl⟩

theorem adds_create (hdisk : disk.IsTree) (hpath : path ∈ paths)
    (h : disk.create path = .ok (place, disk')) :
    Adds paths disk disk' ∧ disk.Aims path place := by
  obtain ⟨hplace, hasks, hfree, rfl⟩ := create_cases h
  have haims := aims_of_place hplace hasks
  obtain ⟨above, name, -, hname, rfl, hfolder⟩ := exists_name_of_place hdisk hplace hfree
  exact ⟨adds_put hpath haims hfree (hdisk.put hfolder hname hfree), haims⟩

theorem adds_fill (hdisk : disk.IsTree) (hpath : path ∈ paths) (haims : disk.Aims path place)
    (start : Nat) (piece : Encoding.Bytes) : Adds paths disk (disk.fill place start piece) := by
  unfold fill
  split
  · next old hfile =>
    have hfree : disk.entry? place ≠ some .folder := by
      rw [hfile]
      exact nofun
    refine adds_put hpath haims hfree ?_
    rcases List.eq_nil_or_concat place with hnil | ⟨above, name, rfl⟩
    · exact absurd hnil (ne_nil_of_entry hfree)
    · rw [List.concat_eq_append] at hfile hfree ⊢
      have hsome : disk.entry? (above ++ [name]) ≠ none := by
        rw [hfile]
        exact nofun
      exact hdisk.put (hdisk.above above name hsome)
        (hdisk.names _ hsome name (List.mem_append_right _ List.mem_cons_self)) hfree
  · exact .refl hdisk

/-! ### A file that is taken away -/

/-- A file that a path leads to. -/
structure Finds (disk : Disk) (path : Path) (place : Place) : Prop where
  leads : disk.place path = .ok place
  asks : asksFolder path = false
  file : ∃ content, disk.entry? place = some (.file content)

theorem finds_of_remove (h : disk.remove path = .ok disk') :
    ∃ place, disk.Finds path place ∧ disk' = disk.erase place := by
  cases hplace : disk.place path with
  | error fault =>
    rw [remove_of_fault hplace] at h
    cases h
  | ok place =>
    unfold remove at h
    rw [find_of_place hplace] at h
    cases hentry : disk.entry? place with
    | none =>
      rw [hentry] at h
      cases h
    | some entry =>
      rw [hentry] at h
      cases entry with
      | folder => cases h
      | file content =>
        cases hasks : asksFolder path with
        | true =>
          rw [hasks] at h
          cases h
        | false =>
          rw [hasks] at h
          cases h
          exact ⟨place, ⟨hplace, hasks, content, hentry⟩, rfl⟩

theorem Finds.free (h : disk.Finds path place) : disk.entry? place ≠ some .folder := by
  obtain ⟨content, hfile⟩ := h.file
  rw [hfile]
  exact nofun

theorem Finds.ne_nil (h : disk.Finds path place) : place ≠ [] := ne_nil_of_entry h.free

theorem Finds.isTree (h : disk.Finds path place) (hdisk : disk.IsTree) :
    (disk.erase place).IsTree := by
  obtain ⟨content, hfile⟩ := h.file
  exact hdisk.erase hfile

theorem Finds.occupied (h : disk.Finds path place) (hdisk : disk.IsTree) {other : Path}
    (hne : disk.destination other ≠ place) (hfound : disk.occupied other = true) :
    occupied (disk.erase place) other = true := by
  refine occupied_of_folders hdisk rfl (fun q hq => folder_erase h.free hq) ?_ hfound
  rw [entry?_erase h.ne_nil, if_neg hne]
  intro hmissing
  rw [occupied_of_missing hmissing] at hfound
  cases hfound

theorem Finds.aims (h : disk.Finds path place) : disk.Aims path place := aims_of_place h.leads h.asks

end Disk

namespace Batch

open Work (Goes IfOk Never)

variable {batch : BatchOptions} {disk disk' : Disk} {input other path written stale : Path}
  {place start : Place} {paths : List Path} {L : Disk → Disk → Prop} {a b : String}
  {chance : Chance}

/-! ### What the work on an input may do -/

/-- A tree with a working folder. -/
def IsTreeAt (start : Place) (disk : Disk) : Prop := disk.IsTree ∧ disk.working = start

theorem goes_makeFolder (path : Path) :
    Goes (IsTreeAt start) (Disk.Adds paths) Never (IfOk fun _ => True)
      (Work.once (.ofChange (·.makeFolder path))).run := by
  refine Work.goes_once fun disk hdisk => ?_
  unfold DiskAction.on DiskAction.ofChange
  dsimp only
  cases hmake : disk.makeFolder path with
  | ok disk' =>
    obtain ⟨htree, hkeeps⟩ := Disk.makeFolder_adds hdisk.1 hmake
    exact ⟨.of_keeps htree hkeeps, trivial⟩
  | error fault => exact ⟨.refl hdisk.1, trivial⟩

theorem goes_unlessFolder (path : Path) (fault : DiskFault) :
    Goes (IsTreeAt start) (Disk.Adds paths) Never (IfOk fun _ => True)
      (unlessFolder path fault).run := by
  refine Work.goes_look (fun disk hdisk => .refl hdisk.1) fun disk _ => ?_
  split <;> trivial

theorem goes_ensureFolderWork (path : Path) :
    Goes (IsTreeAt start) (Disk.Adds paths) Never (IfOk fun _ => True) (ensureFolderWork path).run :=
  (goes_makeFolder path).tryCatch (goes_unlessFolder path)

/-- By induction on the folders above. -/
theorem goes_makeFoldersWork : ∀ (fuel : Nat) (path : Path),
    Goes (IsTreeAt start) (Disk.Adds paths) Never (IfOk fun _ => True) (makeFoldersWork fuel path).run
  | 0, _ => trivial
  | fuel + 1, path => by
    unfold makeFoldersWork
    split
    · trivial
    refine (goes_makeFolder path).tryCatch fun fault => ?_
    split
    · exact (goes_makeFoldersWork fuel _).bindOk fun _ _ => goes_ensureFolderWork path
    · exact goes_unlessFolder path _

theorem goes_makeFolderOfWork (path : Path) :
    Goes (IsTreeAt start) (Disk.Adds paths) Never (IfOk fun _ => True) (makeFolderOfWork path).run := by
  unfold makeFolderOfWork
  split
  · split
    · trivial
    · exact goes_makeFoldersWork _ _
  · trivial

theorem goes_openFile (hpath : path ∈ paths) :
    Goes (IsTreeAt start) (Disk.Adds paths) Never
      (IfOk fun place => ∀ disk : Disk, disk.working = start → disk.Aims path place)
      (Work.once (openFile path)).run := by
  refine Work.goes_once fun disk hdisk => ?_
  unfold DiskAction.on openFile
  cases hcreate : disk.create path with
  | ok result =>
    obtain ⟨hadds, haims⟩ := Disk.adds_create hdisk.1 hpath hcreate
    exact ⟨hadds, fun other hworking => haims.congr (hworking.trans hdisk.2.symm)⟩
  | error fault => exact ⟨.refl hdisk.1, trivial⟩

/-- By induction on the pieces. -/
theorem goes_writePieces (hpath : path ∈ paths)
    (haims : ∀ disk : Disk, disk.working = start → disk.Aims path place) (reaches : Disk → Bool) :
    ∀ (first : Nat) (pieces : List Encoding.Bytes),
    Goes (IsTreeAt start) (Disk.Adds paths) Never (IfOk fun _ => True)
      (writePieces reaches place first pieces).run
  | _, [] => trivial
  | first, piece :: pieces => by
    have hfirst : ∀ disk, IsTreeAt start disk →
        Disk.Adds paths disk (if reaches disk then disk.fill place first piece else disk) := by
      intro disk hdisk
      split
      · exact Disk.adds_fill hdisk.1 hpath (haims disk hdisk.2) first piece
      · exact .refl hdisk.1
    refine Goes.bindOk (P := fun _ => True) (Work.goes_once fun disk hdisk => ?_) fun _ _ =>
      goes_writePieces hpath haims reaches _ pieces
    exact ⟨hfirst disk hdisk, trivial⟩

theorem goes_writeFileWork (chance : Chance) (hwritten : written ∈ paths) (text : String) :
    Goes (IsTreeAt start) (Disk.Adds paths) Never (IfOk fun _ => True)
      (writeFileWork chance written text).run := by
  refine (goes_openFile hwritten).bindOk fun place haims => ?_
  exact goes_writePieces hwritten haims chance.reaches 0 _

/-- The last operation of a replacement takes the other result away, if there is one. -/
theorem goes_replaceFileWork (chance : Chance) (hwritten : written ∈ paths)
    (htakes : ∀ {disk gone}, Disk.Finds disk stale gone → L disk (disk.erase gone)) (text : String) :
    Goes (IsTreeAt start) (Disk.Adds paths) L (IfOk fun _ => True)
      (replaceFileWork chance written stale text).run := by
  refine (goes_makeFolderOfWork written).bindOk fun _ _ => ?_
  refine (goes_writeFileWork chance hwritten text).bindOk fun _ _ => ?_
  refine Work.goes_last fun disk hdisk => ?_
  unfold DiskAction.on removeStale
  cases hremove : disk.remove stale with
  | ok disk' =>
    obtain ⟨gone, hfinds, rfl⟩ := Disk.finds_of_remove hremove
    exact .inr (htakes hfinds)
  | error fault =>
    left
    cases fault <;> exact .refl hdisk.1

/-- The endings of the result that is written and of the one that is taken away. -/
inductive AreEndings : String → String → Prop
  | proofs : AreEndings "txt" "err"
  | failure : AreEndings "err" "txt"

/-- The paths of the results of an input. -/
def results (batch : BatchOptions) (input : Path) : List Path :=
  [(outputs batch input).proofs, (outputs batch input).failure]

theorem proofs_mem_results (batch : BatchOptions) (input : Path) :
    (outputs batch input).proofs ∈ results batch input := by
  unfold results
  exact List.mem_cons_self

theorem failure_mem_results (batch : BatchOptions) (input : Path) :
    (outputs batch input).failure ∈ results batch input := by
  unfold results
  exact List.mem_cons_of_mem _ List.mem_cons_self

/-- A result of an input is taken away. -/
def Takes (batch : BatchOptions) (input : Path) (disk disk' : Disk) : Prop :=
  ∃ a b gone, AreEndings a b ∧ disk.Finds (resultPath batch input b) gone ∧ disk' = disk.erase gone

theorem takes_failure (batch : BatchOptions) (input : Path) {disk : Disk} {gone : Place}
    (h : disk.Finds (outputs batch input).failure gone) :
    Takes batch input disk (disk.erase gone) := by
  rw [outputs_eq] at h
  dsimp only at h
  exact ⟨"txt", "err", gone, .proofs, h, rfl⟩

theorem takes_proofs (batch : BatchOptions) (input : Path) {disk : Disk} {gone : Place}
    (h : disk.Finds (outputs batch input).proofs gone) :
    Takes batch input disk (disk.erase gone) := by
  rw [outputs_eq] at h
  dsimp only at h
  exact ⟨"err", "txt", gone, .failure, h, rfl⟩

/-- What is reported of an input, by what its extraction came to. -/
inductive Reports (input : Path) : Except Failure Extraction → FileReport → Prop
  | written (extraction : Extraction) :
      Reports input (.ok extraction) (successReport input extraction)
  | unwritten (extraction : Extraction) (fault : DiskFault) :
      Reports input (.ok extraction) (faultReport input extraction fault)
  | failed (failure : Failure) : Reports input (.error failure) (failureReport input failure)

theorem goes_resultWork {outputs : Outputs} (chance : Chance) (input : Path)
    (outcome : Except Failure Extraction) (hproofs : outputs.proofs ∈ paths)
    (hfailure : outputs.failure ∈ paths)
    (htakes : ∀ {disk gone}, Disk.Finds disk outputs.failure gone → L disk (disk.erase gone))
    (htakes' : ∀ {disk gone}, Disk.Finds disk outputs.proofs gone → L disk (disk.erase gone)) :
    Goes (IsTreeAt start) (Disk.Adds paths) L (Reports input outcome)
      (resultWork chance outputs input outcome) := by
  cases outcome with
  | ok extraction =>
    rw [resultWork]
    refine (goes_replaceFileWork chance hproofs htakes _).map fun result _ => ?_
    cases result with
    | ok => exact ⟨_, rfl, .written extraction⟩
    | error fault => exact ⟨_, rfl, .unwritten extraction fault⟩
  | error failure =>
    rw [resultWork]
    exact (goes_replaceFileWork chance hfailure htakes' _).map
      fun result _ => ⟨_, rfl, .failed failure⟩

/-- **What the work on an input may do** once it has been extracted: lose nothing, or in the end take
one of its results away. -/
theorem goes_result (start : Place) (batch : BatchOptions) (chance : Chance) (input : Path)
    (outcome : Except Failure Extraction) :
    Goes (IsTreeAt start) (Disk.Adds (results batch input)) (Takes batch input)
      (Reports input outcome) (resultWork chance (outputs batch input) input outcome) :=
  goes_resultWork chance input outcome (proofs_mem_results batch input)
    (failure_mem_results batch input) (takes_failure batch input) (takes_proofs batch input)

/-! ### Results stay -/

theorem AreEndings.isEnding (h : AreEndings a b) : Path.IsEnding a ∧ Path.IsEnding b := by
  cases h with
  | proofs => exact ⟨isEnding_txt, isEnding_err⟩
  | failure => exact ⟨isEnding_err, isEnding_txt⟩

theorem AreEndings.symm (h : AreEndings a b) : AreEndings b a := by
  cases h with
  | proofs => exact .failure
  | failure => exact .proofs

theorem AreEndings.ne (h : AreEndings a b) : a ≠ b := by
  cases h <;> decide

theorem AreEndings.length_eq (h : AreEndings a b) : a.toList.length = 3 := by
  cases h <;> rfl

theorem AreEndings.size_eq (h : AreEndings a b) : a.utf8ByteSize = 3 := by
  cases h <;> rfl

theorem hasResult_iff : hasResult disk (outputs batch input) = true ↔
    ∃ a b, AreEndings a b ∧ disk.occupied (resultPath batch input a) = true := by
  unfold hasResult
  rw [outputs_eq, Bool.or_eq_true]
  dsimp only
  constructor
  · rintro (h | h)
    · exact ⟨"txt", "err", .proofs, h⟩
    · exact ⟨"err", "txt", .failure, h⟩
  · rintro ⟨a, b, hends, h⟩
    cases hends with
    | proofs => exact .inl h
    | failure => exact .inr h

/-- The text of a result with a file name is one text with the ending behind it. -/
theorem exists_text_of_fileName (h : (resultPath batch input a).fileName? ≠ none) :
    ∃ front, ∀ ending, (resultPath batch input ending).text = front ++ ending := by
  unfold resultPath Path.withEnding at *
  generalize (batch.outputRoot.join (relativePath batch input)).dropEnding = base at *
  cases hname : base.fileName? with
  | none =>
    unfold Path.setEnding at h
    rw [hname] at h
    exact absurd hname h
  | some name =>
    refine ⟨(Path.ofParts base.isRooted
      (base.trimmedParts.dropLast ++ [(Path.splitName name).1 ++ "."])).text, fun ending => ?_⟩
    unfold Path.setEnding
    rw [hname]
    exact Path.text_ofParts_concat _ _ _ _

/-- The system takes the path of one result if it takes that of the other. -/
theorem isSound_resultPath (hends : AreEndings a b)
    (hname : (resultPath batch input a).fileName? ≠ none)
    (hsound : (resultPath batch input a).IsSound) : (resultPath batch input b).IsSound := by
  obtain ⟨front, htext⟩ := exists_text_of_fileName hname
  have hzero : '\x00' ∉ b.toList ∧ b ≠ "" := by
    cases hends <;> decide
  have hnoZero := hsound.noZero
  have hshort := hsound.short
  rw [htext, String.utf8ByteSize_append] at hshort
  rw [htext, String.contains_char_eq, decide_eq_false_iff_not, String.toList_append] at hnoZero
  refine ⟨?_, ?_, ?_⟩
  · rw [htext, String.contains_char_eq, decide_eq_false_iff_not, String.toList_append]
    intro hmem
    rcases List.mem_append.mp hmem with hmem | hmem
    · exact hnoZero (List.mem_append_left _ hmem)
    · exact hzero.1 hmem
  · rw [htext]
    exact fun hempty => hzero.2 (String.append_eq_empty_iff.mp hempty).2
  · rw [htext, String.utf8ByteSize_append, hends.symm.size_eq, ← hends.size_eq]
    exact hshort

theorem resultPath_mem_results {a b : String} (hends : AreEndings a b) :
    resultPath batch input b ∈ results batch input := by
  unfold results
  rw [outputs_eq]
  dsimp only
  cases hends with
  | proofs => exact List.mem_cons_of_mem _ List.mem_cons_self
  | failure => exact List.mem_cons_self

theorem place_other_result (hends : AreEndings a b) (hdisk : disk.IsTree)
    (hname : (resultPath batch input b).fileName? ≠ none)
    (hplace : disk.place (resultPath batch input b) = .ok place) :
    disk.place (resultPath batch input a) = .ok (disk.destination (resultPath batch input a)) := by
  obtain ⟨above, stem, hresults⟩ := results_of_fileName hname
  obtain ⟨hending, hending'⟩ := hends.isEnding
  have hcomponents := (hresults a hending).1
  have hcomponents' := (hresults b hending').1
  obtain ⟨-, hsound, hfits⟩ := Disk.eq_destination hplace
  have hfolders := Disk.folders_of_place hdisk.working hplace
  refine Disk.place_ok (isSound_resultPath hends.symm hname hsound) (fun e he => ?_)
    fun q hq => hfolders q ?_
  · rw [hcomponents'] at hfits
    rw [hcomponents] at he
    rcases List.mem_append.mp he with he | he
    · exact hfits e (List.mem_append_left _ he)
    · have hsize := hfits _ (List.mem_append_right _ List.mem_cons_self)
      rw [List.mem_singleton.mp he]
      show (stem ++ "." ++ a).utf8ByteSize ≤ Disk.nameLimit
      change (stem ++ "." ++ b).utf8ByteSize ≤ Disk.nameLimit at hsize
      rwa [String.utf8ByteSize_append, hends.symm.size_eq, ← hends.size_eq,
        ← String.utf8ByteSize_append] at hsize
  · rw [hcomponents, Disk.passed_append] at hq
    rw [hcomponents', Disk.passed_append]
    exact hq

/-- The results of an input lead to one folder, and are named by one stem and their endings. -/
theorem destination_results (disk : Disk) (hname : (resultPath batch input a).fileName? ≠ none) :
    ∃ folder stem, ∀ ending, Path.IsEnding ending →
      disk.destination (resultPath batch input ending) = folder ++ [stem ++ "." ++ ending] ∧
      Disk.asksFolder (resultPath batch input ending) = false := by
  obtain ⟨above, stem, hresults⟩ := results_of_fileName hname
  refine ⟨above.foldl Disk.next disk.working, stem, fun ending hending => ?_⟩
  obtain ⟨hcomponents, hasks⟩ := hresults ending hending
  refine ⟨?_, hasks⟩
  unfold Disk.destination
  rw [hcomponents, List.foldl_append]
  rfl

/-- **The other result.** When the result that is taken away belongs to another input as well, the
one that has been written is the other result of that input. -/
theorem occupied_other_result (hends : AreEndings a b) (hdisk : disk.IsTree)
    (hwrites : disk.place (resultPath batch input a) = .ok place)
    (hfile : disk.entry? place ≠ none) {gone : Place}
    (hfinds : disk.Finds (resultPath batch input b) gone) {c d : String} (hends' : AreEndings c d)
    (hresult : disk.place (resultPath batch other c) = .ok gone) :
    disk.occupied (resultPath batch other a) = true ∧
      disk.destination (resultPath batch other a) = place ∧ place ≠ gone := by
  have hname : ∀ {path : Path}, disk.place path = .ok gone → path.fileName? ≠ none :=
    fun hplace hnone => hfinds.free (Disk.entry?_of_no_fileName hdisk hnone hplace)
  obtain ⟨folder, stem, hleads⟩ := destination_results disk (hname hfinds.leads)
  obtain ⟨folder', stem', hleads'⟩ := destination_results disk (hname hresult)
  obtain ⟨hending, hending'⟩ := hends.isEnding
  have hwritten := (Disk.eq_destination hwrites).1.trans (hleads a hending).1
  have hgone := (Disk.eq_destination hfinds.leads).1.trans (hleads b hending').1
  have hgone' := (Disk.eq_destination hresult).1.trans (hleads' c hends'.isEnding.1).1
  have hlength : b.toList.length = c.toList.length :=
    hends.symm.length_eq.trans hends'.length_eq.symm
  -- Both inputs have the same stem, and their results stand in the same folder.
  obtain ⟨rfl, hlast⟩ := List.append_inj' (hgone.symm.trans hgone') rfl
  obtain ⟨rfl, rfl⟩ := Path.append_ending_inj hlength (List.singleton_inj.mp hlast)
  have hdestination : disk.destination (resultPath batch other a) = place :=
    (hleads' a hending).1.trans hwritten.symm
  have hplace := place_other_result hends hdisk (hname hresult) hresult
  rw [hdestination] at hplace
  refine ⟨(Disk.occupied_iff_of_place hplace).mpr (.inr ⟨hfile, (hleads' a hending).2⟩),
    hdestination, ?_⟩
  rw [hwritten, hgone]
  intro heq
  have hlengths : a.toList.length = b.toList.length :=
    hends.length_eq.trans hends.symm.length_eq.symm
  have hendings := List.singleton_inj.mp (List.append_cancel_left heq)
  exact hends.ne (Path.append_ending_inj hlengths hendings).2

/-- A path at which something is found when a file has been taken away led there before. -/
theorem place_of_occupied_erase {gone : Place} {found : Path} (hdisk : disk.IsTree)
    (hfinds : disk.Finds path gone) (h : Disk.occupied (disk.erase gone) found = true) :
    disk.place found = .ok (disk.destination found) ∧ disk.destination found ≠ gone ∧
      disk.entry? (disk.destination found) ≠ none := by
  have hplace := Disk.place_of_occupied h
  have htree : Disk.IsTree (disk.erase gone) := hfinds.isTree hdisk
  have hkept : ∀ q, Disk.entry? (disk.erase gone) q ≠ none →
      q ≠ gone ∧ disk.entry? q = Disk.entry? (disk.erase gone) q := by
    intro q hq
    rw [Disk.entry?_erase hfinds.ne_nil] at hq ⊢
    split at hq
    · exact absurd rfl hq
    · next hne => exact ⟨hne, (if_neg hne).symm⟩
  have hworking : disk.working = Disk.working (disk.erase gone) := rfl
  have hplace' : disk.place found = .ok (disk.destination found) := by
    refine (Disk.place_congr hworking fun q hq => ?_).trans hplace
    have hfolder := Disk.folders_of_place htree.working hplace q hq
    exact (hkept q (by rw [hfolder]; exact nofun)).2
  have hsome : Disk.entry? (disk.erase gone) (disk.destination found) ≠ none := by
    intro hmissing
    have hfree : Disk.occupied (disk.erase gone) found = false := Disk.occupied_of_missing hmissing
    rw [hfree] at h
    cases h
  obtain ⟨hne, hsame⟩ := hkept _ hsome
  exact ⟨hplace', hne, hsame ▸ hsome⟩

theorem AreEndings.eq_or_eq (h : AreEndings a b) {c d : String} (h' : AreEndings c d) :
    c = a ∨ c = b := by
  cases h <;> cases h' <;> simp

/-- **When a result is taken away** and the input has the other one, other inputs that have a result
have one then. -/
theorem Takes.hasResult (h : Takes batch input disk disk') (hdisk : disk.IsTree)
    (hown : hasResult disk' (outputs batch input) = true)
    (hother : Batch.hasResult disk (outputs batch other) = true) :
    Batch.hasResult disk' (outputs batch other) = true := by
  obtain ⟨a, b, gone, hends, hfinds, rfl⟩ := h
  obtain ⟨c, d, hends', hfound⟩ := hasResult_iff.mp hother
  rw [hasResult_iff]
  by_cases hgone : disk.destination (resultPath batch other c) = gone
  · obtain ⟨e, f, hends'', hfound'⟩ := hasResult_iff.mp hown
    obtain ⟨hplace, hne, hsome⟩ := place_of_occupied_erase hdisk hfinds hfound'
    -- The result that the input has is not the one that has been taken away.
    have hwritten : e = a := by
      refine (hends.eq_or_eq hends'').resolve_right fun heq => hne ?_
      rw [heq]
      exact (Disk.eq_destination hfinds.leads).1.symm
    subst hwritten
    have hresult := Disk.place_of_occupied hfound
    rw [hgone] at hresult
    obtain ⟨hother', hdestination, hne'⟩ :=
      occupied_other_result hends hdisk hplace hsome hfinds hends' hresult
    exact ⟨e, b, hends, hfinds.occupied hdisk (by rwa [hdestination]) hother'⟩
  · exact ⟨c, d, hends', hfinds.occupied hdisk hgone hfound⟩

end Batch

end ProofProse
