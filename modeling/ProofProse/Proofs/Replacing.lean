import ProofProse.Batch
import ProofProse.Proofs.Folders
import ProofProse.Proofs.Line
import ProofProse.Proofs.Outputs
import ProofProse.Proofs.Tree

/-! # Results that replace others

A result is written in three steps: its folder is made, the file is written, and the other result is
taken away. When nothing is in the way the three steps come to an end, whatever results there were
before, and nothing else has changed (`Batch.replaceFile_ok`). So each input that is worked on has
one result, and which one it is tells what became of the input
(`Batch.one_result_per_input`). -/

namespace ProofProse

open Encoding (Bytes)
open ProofProse.Path (Component)

namespace Disk

variable {disk disk' : Disk} {place : Place} {path : Path} {content : Bytes} {fault : DiskFault}
  {above : List Component} {name : String}

/-! ### Writing and taking away -/

theorem create_of_fault (h : disk.place path = .error fault) : disk.create path = .error fault := by
  unfold create
  rw [h]
  rfl

theorem create_of_place (h : disk.place path = .ok place) (hasks : asksFolder path = false) :
    disk.create path =
      if disk.entry? place = some .folder then .error .isFolder
      else .ok (place, disk.put place (.file [])) := by
  obtain ⟨hslash, hdot⟩ := Bool.or_eq_false_iff.mp hasks
  unfold create
  rw [h, hslash, hdot]
  dsimp only [bind, Except.bind]
  split
  · next hentry => rw [if_pos hentry]
  · next hentry => rw [if_neg hentry]; rfl

/-- A new file with its content is at a place. -/
def putFile (disk : Disk) (place : Place) (content : Bytes) : Disk :=
  (disk.put place (.file [])).fill place 0 content

theorem putFile_eq (hplace : place ≠ []) (content : Bytes) : disk.putFile place content =
    (disk.put place (.file [])).put place (.file content) := by
  unfold putFile fill
  rw [entry?_put hplace, if_pos rfl]
  simp

theorem entry?_putFile (disk : Disk) (hplace : place ≠ []) (content : Bytes) (q : Place) :
    Disk.entry? (disk.putFile place content) q =
      if q = place then some (.file content) else disk.entry? q := by
  rw [putFile_eq hplace, entry?_put hplace, entry?_put hplace]
  split <;> rfl

theorem working_putFile (disk : Disk) (hplace : place ≠ []) (content : Bytes) :
    (disk.putFile place content).working = disk.working := by
  rw [putFile_eq hplace]
  rfl

theorem write_of_fault (h : disk.place path = .error fault) :
    disk.write path content = .error fault := by
  unfold write
  rw [create_of_fault h]
  rfl

theorem write_of_place (h : disk.place path = .ok place) (hasks : asksFolder path = false) :
    disk.write path content =
      if disk.entry? place = some .folder then .error .isFolder
      else .ok (disk.putFile place content) := by
  unfold write
  rw [create_of_place h hasks]
  split <;> rfl

theorem write_of_folder (h : disk.entry? (disk.destination path) = some .folder)
    (content : Bytes) : ∃ fault, disk.write path content = .error fault := by
  cases hplace : disk.place path with
  | error fault => exact ⟨fault, write_of_fault hplace⟩
  | ok place =>
    rw [← (eq_destination hplace).1] at h
    refine ⟨.isFolder, ?_⟩
    unfold write create
    rw [hplace]
    dsimp only [bind, Except.bind]
    rw [h]
    rfl

theorem remove_of_fault (h : disk.place path = .error fault) : disk.remove path = .error fault := by
  unfold remove
  rw [find_of_fault h]
  rfl

theorem remove_of_place (h : disk.place path = .ok place) (hasks : asksFolder path = false) :
    disk.remove path =
      match disk.entry? place with
      | none => .error .notFound
      | some .folder => .error .isFolder
      | some (.file _) => .ok (disk.erase place) := by
  unfold remove
  rw [find_of_place h, hasks]
  cases disk.entry? place with
  | none => rfl
  | some entry => cases entry <;> rfl

/-! ### The folder of a file -/

/-- Where no name is too long and no file is in the way, all places are reached. -/
theorem along_of_no_file : ∀ {components : List Component} {start : Place} (made : Bool),
    (∀ c ∈ components, c.Fits) →
    (∀ q ∈ (passed start components ++ [components.foldl next start]).tail,
      ∀ content, disk.entry? q ≠ some (.file content)) →
    obstacle? disk made start components = none ∧
      reached disk start components =
        (passed start components ++ [components.foldl next start]).tail
  | [], _, _, _, _ => ⟨rfl, rfl⟩
  | c :: components, start, made, hfits, hfiles => by
    rw [tail_passed_cons] at hfiles ⊢
    obtain ⟨hobstacle, hreached⟩ :=
      along_open (hfits c List.mem_cons_self) (hfiles _ List.mem_cons_self) components
    obtain ⟨hnone, hplaces⟩ := along_of_no_file _ (fun d hd => hfits d (List.mem_cons_of_mem c hd))
      fun q hq => hfiles q (List.mem_cons_of_mem _ hq)
    rw [hobstacle, hreached]
    exact ⟨hnone, by rw [hplaces]⟩

/-- A file can be written at a path: the system takes the path and its names, the path ends in a
name, and no file stands where it needs a folder, and no folder where it needs a file. -/
structure CanHold (disk : Disk) (path : Path) : Prop where
  sound : path.IsSound
  fits : ∀ c ∈ path.components, c.Fits
  fileName : path.fileName? ≠ none
  above : ∀ q ∈ passed disk.working path.components,
    ∀ content, disk.entry? q ≠ some (.file content)
  notFolder : disk.entry? (disk.destination path) ≠ some .folder

end Disk

namespace Batch

variable {disk disk' : Disk} {place : Place} {path : Path} {content : Bytes} {fault : DiskFault}
  {above : List Component} {c : Component} {name : String}

theorem exists_parent (h : path.components = above ++ [c]) (hroot : c ≠ .root) :
    ∃ folder, path.parent? = some folder ∧ folder.components = above ∧
      folder.text.toList <+: path.text.toList := by
  rcases path.parent?_cases with ⟨-, htop⟩ | ⟨folder, d, hparent, hcomponents, htext⟩
  · rw [htop] at h
    have hlast := congrArg List.getLast? h
    rw [List.getLast?_concat] at hlast
    unfold Path.topOf at hlast
    split at hlast
    · exact absurd (Option.some.inj hlast).symm hroot
    · cases hlast
  · rw [hcomponents] at h
    exact ⟨folder, hparent, (List.append_inj' h rfl).1, htext⟩

/-- What making the folder of a file comes to: the text of its path is refused on every disk, or the
folder is made as the path says. -/
inductive FolderOf (path : Path) (above : List Component) : Prop
  | refused (fault : DiskFault) (hunsound : ¬path.IsSound)
      (hrefused : ∀ disk, makeFolderOf path disk = DiskAction.ended (some fault) disk)
  | made (hmade : ∀ disk : Disk, disk.entry? disk.working = some .folder →
      ∃ disk', makeFolderOf path disk =
          DiskAction.ended (disk.obstacle? false disk.working above) disk' ∧
        disk.Made (disk.reached disk.working above) disk')

theorem folderOf (hcomponents : path.components = above ++ [c]) (hroot : c ≠ .root) :
    FolderOf path above := by
  obtain ⟨folder, hparent, rfl, htext⟩ := exists_parent hcomponents hroot
  have hmake : folder.text ≠ "" → makeFolderOf path = Disk.makeFolders folder := by
    intro hne
    unfold makeFolderOf
    rw [hparent]
    dsimp only
    rw [if_neg (mt String.isEmpty_iff.mp hne)]
  by_cases hempty : folder.text = ""
  · refine .made fun disk _ => ⟨disk, ?_, .of_folders ?_⟩
    · unfold makeFolderOf
      rw [hparent, Path.eq_of_text (q := ⟨""⟩) hempty]
      rfl
    · rw [Path.eq_of_text (q := ⟨""⟩) hempty]
      exact fun q hq => absurd hq List.not_mem_nil
  by_cases hsound : folder.IsSound
  · refine .made fun disk hworking => ?_
    rw [hmake hempty]
    exact Disk.makeFolders_ended hworking hsound (Path.isTrimmed_of_parent hparent)
  · obtain ⟨fault, hfault, hplace⟩ := (Disk.place_cases folder).resolve_left hsound
    refine .refused fault (fun hpath => hsound (hpath.of_text hempty htext)) fun disk => ?_
    rw [hmake hempty]
    exact Disk.makeFolders_of_fault hempty (mt hfault hempty) (hplace disk)

/-! ### Replacing a result -/

variable {batch : BatchOptions} {options : Options} {input written stale : Path} {stem a b : String}

/-- Two results stand in the same folder under different names, and do not ask for folders. -/
structure SideBySide (above : List Component) (a b : String) (written stale : Path) : Prop where
  ofWritten : written.components = above ++ [.name a]
  ofStale : stale.components = above ++ [.name b]
  differ : a ≠ b
  asksWritten : Disk.asksFolder written = false
  asksStale : Disk.asksFolder stale = false

theorem SideBySide.symm (h : SideBySide above a b written stale) :
    SideBySide above b a stale written :=
  ⟨h.ofStale, h.ofWritten, h.differ.symm, h.asksStale, h.asksWritten⟩

/-- The results of an input stand side by side, if one has a file name. -/
theorem sideBySide_outputs (h : (outputs batch input).proofs.fileName? ≠ none) :
    ∃ above stem, SideBySide above (stem ++ "." ++ "txt") (stem ++ "." ++ "err")
      (outputs batch input).proofs (outputs batch input).failure := by
  rw [outputs_eq] at h ⊢
  dsimp only at h ⊢
  obtain ⟨above, stem, hresults⟩ := results_of_fileName h
  obtain ⟨hproofs, hasks⟩ := hresults "txt" isEnding_txt
  obtain ⟨hfailure, hasks'⟩ := hresults "err" isEnding_err
  refine ⟨above, stem, hproofs, hfailure, fun heq => ?_, hasks, hasks'⟩
  exact absurd ((String.append_right_inj (stem ++ ".")).mp heq) (by decide)

theorem SideBySide.fits (h : SideBySide above a b written stale)
    (hfits : ∀ c ∈ written.components, c.Fits) :
    (∀ c ∈ above, c.Fits) ∧ (Component.name a).Fits := by
  rw [h.ofWritten] at hfits
  exact ⟨fun c hc => hfits c (List.mem_append_left _ hc),
    hfits _ (List.mem_append_right _ List.mem_cons_self)⟩

theorem SideBySide.destination (h : SideBySide above a b written stale) (disk : Disk) :
    disk.destination written = above.foldl Disk.next disk.working ++ [a] := by
  unfold Disk.destination
  rw [h.ofWritten, List.foldl_append]
  rfl

theorem SideBySide.passed (h : SideBySide above a b written stale) (start : Place) :
    Disk.passed start written.components =
      Disk.passed start above ++ [above.foldl Disk.next start] := by
  rw [h.ofWritten, Disk.passed_append]
  rfl

theorem SideBySide.passed_eq (h : SideBySide above a b written stale) (start : Place) :
    Disk.passed start stale.components = Disk.passed start written.components := by
  rw [h.symm.passed, h.passed]

theorem SideBySide.destination_ne (h : SideBySide above a b written stale) (disk : Disk) :
    disk.destination stale ≠ disk.destination written := by
  rw [h.destination, h.symm.destination]
  exact fun heq => h.differ.symm (List.singleton_inj.mp (List.append_cancel_left heq))

theorem removeStale_of_fault (h : disk.place path = .error fault) :
    removeStale path disk =
      DiskAction.ended (if fault = .notFound then none else some fault) disk := by
  unfold removeStale
  rw [Disk.remove_of_fault h]
  cases fault <;> rfl

theorem removeStale_of_place (h : disk.place path = .ok place)
    (hasks : Disk.asksFolder path = false) :
    removeStale path disk =
      match disk.entry? place with
      | none => DiskAction.ended none disk
      | some .folder => DiskAction.ended (some .isFolder) disk
      | some (.file _) => DiskAction.ended none (disk.erase place) := by
  unfold removeStale
  rw [Disk.remove_of_place h hasks]
  cases disk.entry? place with
  | none => rfl
  | some entry => cases entry <;> rfl

/-- Writes a file whose folder is there, and takes another away. -/
def settle (written stale : Path) (text : String) : DiskAction Unit := do
  .ofChange (·.write written (Encoding.ofText text))
  removeStale stale

theorem replaceFile_eq (written stale : Path) (text : String) :
    replaceFile written stale text =
      makeFolderOf written >>= fun _ => settle written stale text := rfl

/-- The two results have the same folder, so a path to one of them leads to it when a path to the
other does. -/
theorem SideBySide.place_eq (h : SideBySide above a b written stale) (hsound : written.IsSound)
    (hfits : ∀ c ∈ above, c.Fits)
    (hfolders : ∀ q ∈ Disk.passed disk.working written.components, disk.entry? q = some .folder) :
    disk.place written = if (Component.name a).Fits then .ok (disk.destination written)
      else .error .nameTooLong := by
  rw [h.passed] at hfolders
  rw [Disk.place_concat hsound h.ofWritten hfits hfolders, h.destination]
  rfl

theorem settle_of_fault {text : String}
    (h : disk.write written (Encoding.ofText text) = .error fault) :
    settle written stale text disk = DiskAction.ended (some fault) disk := by
  show EStateM.bind _ _ disk = _
  unfold EStateM.bind
  rw [DiskAction.ofChange_error h]
  rfl

theorem settle_of_write {text : String}
    (h : disk.write written (Encoding.ofText text) = .ok disk') :
    settle written stale text disk = removeStale stale disk' := by
  show EStateM.bind _ _ disk = _
  unfold EStateM.bind
  rw [DiskAction.ofChange_ok h]
  rfl

theorem settle_ok (h : SideBySide above a b written stale) (text : String)
    (hwritten : written.IsSound) (hfits : ∀ c ∈ written.components, c.Fits)
    (hstale : stale.IsSound) (hfits' : ∀ c ∈ stale.components, c.Fits)
    (hfolders : ∀ q ∈ Disk.passed disk.working written.components, disk.entry? q = some .folder)
    (hfree : disk.entry? (disk.destination written) ≠ some .folder)
    (hfree' : disk.entry? (disk.destination stale) ≠ some .folder) :
    ∃ disk', settle written stale text disk = .ok () disk' ∧ disk'.working = disk.working ∧
      ∀ q, disk'.entry? q =
        if q = disk.destination written then some (.file (Encoding.ofText text))
        else if q = disk.destination stale then none
        else disk.entry? q := by
  obtain ⟨habove, hname⟩ := h.fits hfits
  obtain ⟨-, hname'⟩ := h.symm.fits hfits'
  have hplace : disk.place written = .ok (disk.destination written) := by
    rw [h.place_eq hwritten habove hfolders, if_pos hname]
  have hwrite : disk.write written (Encoding.ofText text) =
      .ok (disk.putFile (disk.destination written) (Encoding.ofText text)) := by
    rw [Disk.write_of_place hplace h.asksWritten, if_neg hfree]
  have hput := Disk.entry?_putFile disk (Disk.ne_nil_of_entry hfree) (Encoding.ofText text)
  have hworking := Disk.working_putFile disk (Disk.ne_nil_of_entry hfree) (Encoding.ofText text)
  generalize disk.putFile (disk.destination written) (Encoding.ofText text) = disk₁ at *
  have hne := h.destination_ne disk
  -- What has been written is no folder on the way to the other result.
  have hplace' : disk₁.place stale = .ok (disk.destination stale) := by
    rw [h.symm.place_eq hstale habove fun q hq => ?_, if_pos hname',
      Disk.destination_congr hworking]
    · rw [hworking] at hq
      have hfolder : disk.entry? q = some .folder := hfolders q (by rwa [← h.passed_eq])
      have hother : q ≠ disk.destination written := by
        rintro rfl
        exact hfree hfolder
      rw [hput, if_neg hother]
      exact hfolder
  rw [settle_of_write hwrite, removeStale_of_place hplace' h.asksStale, hput, if_neg hne]
  cases hentry : disk.entry? (disk.destination stale) with
  | none =>
    refine ⟨_, rfl, hworking, fun q => ?_⟩
    rw [hput]
    split
    · rfl
    · split
      · next heq => rw [heq, hentry]
      · rfl
  | some entry =>
    cases entry with
    | folder => exact absurd hentry hfree'
    | file content =>
      refine ⟨_, rfl, hworking, fun q => ?_⟩
      rw [Disk.entry?_erase (Disk.ne_nil_of_entry hfree'), hput]
      by_cases hq : q = disk.destination stale
      · rw [if_pos hq, if_neg (hq ▸ hne), if_pos hq]
      · rw [if_neg hq, if_neg hq]

/-- A result has been written and the other one is gone, and all that has changed else are folders
that were missing on the way. -/
structure Replaced (disk : Disk) (written stale : Path) (text : String) (disk' : Disk) : Prop where
  working : disk'.working = disk.working
  entries : ∀ q, disk'.entry? q =
    if q = disk.destination written then some (.file (Encoding.ofText text))
    else if q = disk.destination stale then none
    else if q ∈ Disk.passed disk.working written.components then some .folder
    else disk.entry? q

/-- **A result replaces another** when nothing is in the way. -/
theorem replaceFile_ok (h : SideBySide above a b written stale) (text : String)
    (hworking : disk.entry? disk.working = some .folder) (hwritten : disk.CanHold written)
    (hstale : disk.CanHold stale)
    (hapart : ∀ q ∈ Disk.passed disk.working written.components,
      q ≠ disk.destination written ∧ q ≠ disk.destination stale) :
    ∃ disk', replaceFile written stale text disk = DiskAction.ended none disk' ∧
      Replaced disk written stale text disk' := by
  have hpassed := h.passed disk.working
  obtain ⟨hnone, hreached⟩ := Disk.along_of_no_file false
    (h.fits hwritten.fits).1
    fun q hq => hwritten.above q (hpassed ▸ List.mem_of_mem_tail hq)
  obtain ⟨disk₁, hmake, hmade⟩ : ∃ disk', makeFolderOf written disk =
      DiskAction.ended (disk.obstacle? false disk.working above) disk' ∧
      disk.Made (disk.reached disk.working above) disk' := by
    cases folderOf h.ofWritten nofun with
    | refused _ hunsound => exact absurd hwritten.sound hunsound
    | made hmade => exact hmade disk hworking
  have hfolders := Disk.folders_of_made hworking hnone hmade
  rw [hnone] at hmake
  have hentries : ∀ q, disk₁.entry? q = if q ∈ Disk.passed disk.working written.components
      then some .folder else disk.entry? q := by
    intro q
    split
    · next hq => exact hfolders q (by rwa [hmade.working, ← hpassed])
    · next hq =>
      rw [hmade.entries, if_neg fun hmem => hq (hpassed ▸ List.mem_of_mem_tail (hreached ▸ hmem))]
  have hdestination := Disk.destination_congr hmade.working
  have hkept : ∀ path, disk.destination path ∉ Disk.passed disk.working written.components →
      disk₁.entry? (disk₁.destination path) = disk.entry? (disk.destination path) := by
    intro path hpath
    rw [hdestination, hentries, if_neg hpath]
  rw [← h.passed] at hfolders
  obtain ⟨disk', hsettle, hworking', hentries'⟩ := settle_ok h text hwritten.sound hwritten.fits
    hstale.sound hstale.fits hfolders
    (by rw [hkept written fun hq => (hapart _ hq).1 rfl]; exact hwritten.notFolder)
    (by rw [hkept stale fun hq => (hapart _ hq).2 rfl]; exact hstale.notFolder)
  refine ⟨disk', ?_, hworking'.trans hmade.working, fun q => ?_⟩
  · rw [replaceFile_eq, Disk.bind_ended_none hmake, hsettle]
    rfl
  · rw [hentries', hdestination, hdestination, hentries]

/-- Behind a replacement the result is read, and the other one is not there. -/
theorem read_of_replaced {text : String} (h : SideBySide above a b written stale)
    (hwritten : disk.CanHold written) (hstale : disk.CanHold stale)
    (hapart : ∀ q ∈ Disk.passed disk.working written.components,
      q ≠ disk.destination written ∧ q ≠ disk.destination stale)
    (h' : Replaced disk written stale text disk') :
    disk'.read written = .ok (Encoding.ofText text) ∧ disk'.occupied stale = false := by
  obtain ⟨hfits, hname⟩ := h.fits hwritten.fits
  obtain ⟨-, hname'⟩ := h.symm.fits hstale.fits
  have hfolders : ∀ q ∈ Disk.passed disk'.working written.components,
      disk'.entry? q = some .folder := by
    intro q hq
    rw [h'.working] at hq
    rw [h'.entries, if_neg (hapart q hq).1, if_neg (hapart q hq).2, if_pos hq]
  have hdestination := Disk.destination_congr h'.working
  have hplace : disk'.place written = .ok (disk.destination written) := by
    rw [h.place_eq hwritten.sound hfits hfolders, if_pos hname, hdestination]
  have hplace' : disk'.place stale = .ok (disk.destination stale) := by
    rw [← h.passed_eq] at hfolders
    rw [h.symm.place_eq hstale.sound hfits hfolders, if_pos hname', hdestination]
  constructor
  · exact Disk.read_of_place hplace (by rw [h'.entries, if_pos rfl]) h.asksWritten
  · unfold Disk.occupied
    rw [Disk.find_of_place hplace', h'.entries, if_neg (h.destination_ne disk), if_pos rfl]
    rfl

/-! ### Working on an input -/

/-- Nothing is in the way of the results of an input: both can be written, and neither stands where
a folder is needed for them. -/
structure Outputs.Writable (outputs : Outputs) (disk : Disk) : Prop where
  proofs : disk.CanHold outputs.proofs
  failure : disk.CanHold outputs.failure
  apart : ∀ q ∈ Disk.passed disk.working outputs.proofs.components,
    q ≠ disk.destination outputs.proofs ∧ q ≠ disk.destination outputs.failure

theorem process_of_not_skipped (h : (process batch options disk input).report.status ≠ .skipped) :
    process batch options disk input =
      extractAndWrite options (outputs batch input) disk input := by
  unfold process at *
  dsimp only at *
  split at h
  · exact absurd rfl h
  · next hdone => rw [if_neg hdone]

/-- The report of an input whose proofs were extracted, when something may have kept them from being
written. -/
def writtenReport (input : Path) (extraction : Extraction) : Option DiskFault → FileReport
  | none => successReport input extraction
  | some fault =>
    { successReport input extraction with status := .failed, error := some fault.message }

theorem extractAndWrite_of_ok {results : Outputs} {extraction : Extraction}
    {fault? : Option DiskFault} (hextract : extractFile options disk input = .ok extraction)
    (hwrite : writeProofs results extraction disk = DiskAction.ended fault? disk') :
    extractAndWrite options results disk input =
      ⟨writtenReport input extraction fault?, fault?.map fun fault => .io fault.message,
        disk'⟩ := by
  unfold extractAndWrite
  rw [hextract]
  dsimp only
  rw [hwrite]
  cases fault? <;> rfl

theorem extractAndWrite_of_error {results : Outputs} {failure : Failure} {fault? : Option DiskFault}
    (hextract : extractFile options disk input = .error failure)
    (hwrite : writeFailure results input failure disk = DiskAction.ended fault? disk') :
    extractAndWrite options results disk input =
      ⟨failureReport input failure, some failure, disk'⟩ := by
  unfold extractAndWrite
  rw [hextract]
  dsimp only
  rw [hwrite]
  cases fault? <;> rfl

theorem isFile_of_read (h : disk.read path = .ok content) : disk.isFile path = true :=
  (Disk.isFile_iff_read disk path).mpr ⟨content, h⟩

theorem isFile_of_no_file (h : ∀ place content, disk.entry? place ≠ some (.file content))
    (path : Path) : disk.isFile path = false := by
  unfold Disk.isFile
  split
  · next place content hfind => exact absurd (Disk.entry?_of_find hfind) (h place content)
  · rfl

theorem isFile_of_not_occupied (h : disk.occupied path = false) : disk.isFile path = false := by
  unfold Disk.occupied at h
  unfold Disk.isFile
  split
  · next hfind =>
    rw [hfind] at h
    cases h
  · rfl

theorem message_isPrefix (input : Path) (failure : Failure) :
    failure.message.toList <+: (failureText input failure).toList := by
  unfold failureText
  simp only [String.toList_append, List.append_assoc]
  exact List.prefix_append _ _

theorem lines_of_extractFile {extraction : Extraction}
    (h : extractFile options disk input = .ok extraction) :
    Text.lines (proofLines extraction.proofs).toList =
      extraction.proofs.map fun proof => proof.text.toList := by
  unfold extractFile at h
  split at h
  · cases h
  · refine lines_proofLines fun proof hproof => ?_
    rw [proofs_of_extract h] at hproof
    exact isLine_of_history hproof

theorem Outputs.Writable.symm_apart {results : Outputs}
    (h : SideBySide above a b results.proofs results.failure) (hwritable : results.Writable disk) :
    ∀ q ∈ Disk.passed disk.working results.failure.components,
      q ≠ disk.destination results.failure ∧ q ≠ disk.destination results.proofs := by
  rw [h.passed_eq]
  exact fun q hq => (hwritable.apart q hq).symm

/-- The report of an input that is given up does not tell whether its failure was written. -/
theorem report_of_error {results : Outputs} {failure : Failure}
    (hextract : extractFile options disk input = .error failure) :
    (extractAndWrite options results disk input).report = failureReport input failure := by
  unfold extractAndWrite
  rw [hextract]
  dsimp only
  split <;> rfl

theorem failure_is_written {results : Outputs} {failure : Failure}
    (h : SideBySide above a b results.proofs results.failure)
    (hworking : disk.entry? disk.working = some .folder) (hwritable : results.Writable disk)
    (hextract : extractFile options disk input = .error failure) :
    ∃ disk', extractAndWrite options results disk input =
        ⟨failureReport input failure, some failure, disk'⟩ ∧
      Replaced disk results.failure results.proofs (failureText input failure) disk' := by
  obtain ⟨disk', hwrite, hreplaced⟩ := replaceFile_ok h.symm (failureText input failure) hworking
    hwritable.failure hwritable.proofs (hwritable.symm_apart h)
  exact ⟨disk', extractAndWrite_of_error hextract hwrite, hreplaced⟩

/-- What becomes of an input that is worked on: which result there is, and what the report says. -/
def Settled (input : Path) (results : Outputs) (outcome : Except Failure Extraction)
    (report : FileReport) (disk : Disk) : Prop :=
  match outcome with
  | .ok extraction =>
    report.status = .succeeded ∧
    disk.read results.proofs = .ok (Encoding.ofText (proofLines extraction.proofs)) ∧
    Text.lines (proofLines extraction.proofs).toList =
      extraction.proofs.map (fun proof => proof.text.toList) ∧
    disk.occupied results.failure = false
  | .error failure =>
    report.status = .failed ∧
    disk.read results.failure = .ok (Encoding.ofText (failureText input failure)) ∧
    failure.message.toList <+: (failureText input failure).toList ∧
    disk.occupied results.proofs = false

/-- **One result for each input.** Whatever is on the disk, let nothing be in the way of the results
of an input, and let the input not be passed over. Then it has one result afterwards: the proofs,
one to a line, exactly if they could be extracted, and else a file that begins with the message of
the failure; the report tells which. The other result is not there, whichever there were before. All
that has changed else are folders that were missing on the way to the results. -/
theorem one_result_for_each_input (hworking : disk.entry? disk.working = some .folder)
    (hwritable : (outputs batch input).Writable disk)
    (hdone : (process batch options disk input).report.status ≠ .skipped) :
    let results := outputs batch input
    let outcome := extractFile options disk input
    let processed := process batch options disk input
    Settled input results outcome processed.report processed.disk ∧
    (processed.disk.isFile results.proofs = true ↔ ∃ extraction, outcome = .ok extraction) ∧
    (processed.disk.isFile results.failure = true ↔ ∃ failure, outcome = .error failure) ∧
    processed.disk.working = disk.working ∧
    ∀ q, q ≠ disk.destination results.proofs → q ≠ disk.destination results.failure →
      processed.disk.entry? q =
        if q ∈ Disk.passed disk.working results.proofs.components then some .folder
        else disk.entry? q := by
  intro results outcome processed
  obtain ⟨above, stem, hbeside⟩ := sideBySide_outputs hwritable.proofs.fileName
  have hprocess : processed = extractAndWrite options results disk input :=
    process_of_not_skipped hdone
  cases houtcome : outcome with
  | ok extraction =>
    obtain ⟨disk', hwrite, hreplaced⟩ := replaceFile_ok hbeside (proofLines extraction.proofs)
      hworking hwritable.proofs hwritable.failure hwritable.apart
    obtain ⟨hread, hgone⟩ := read_of_replaced hbeside hwritable.proofs hwritable.failure
      hwritable.apart hreplaced
    have hrun : processed = ⟨successReport input extraction, none, disk'⟩ :=
      hprocess.trans (extractAndWrite_of_ok houtcome hwrite)
    rw [hrun]
    refine ⟨⟨rfl, hread, lines_of_extractFile houtcome, hgone⟩, ?_, ?_, hreplaced.working, ?_⟩
    · exact iff_of_true (isFile_of_read hread) ⟨extraction, rfl⟩
    · refine iff_of_false ?_ (by rintro ⟨failure, hfailure⟩; cases hfailure)
      rw [isFile_of_not_occupied hgone]
      exact Bool.false_ne_true
    · intro q hq hq'
      rw [hreplaced.entries, if_neg hq, if_neg hq']
  | error failure =>
    obtain ⟨disk', hwritten, hreplaced⟩ :=
      failure_is_written hbeside hworking hwritable houtcome
    obtain ⟨hread, hgone⟩ := read_of_replaced hbeside.symm hwritable.failure hwritable.proofs
      (hwritable.symm_apart hbeside) hreplaced
    have hrun : processed = ⟨failureReport input failure, some failure, disk'⟩ :=
      hprocess.trans hwritten
    rw [hrun]
    refine ⟨⟨rfl, hread, message_isPrefix input failure, hgone⟩, ?_, ?_, hreplaced.working, ?_⟩
    · refine iff_of_false ?_ (by rintro ⟨extraction, hextraction⟩; cases hextraction)
      rw [isFile_of_not_occupied hgone]
      exact Bool.false_ne_true
    · exact iff_of_true (isFile_of_read hread) ⟨failure, rfl⟩
    · intro q hq hq'
      rw [hreplaced.entries, if_neg hq', if_neg hq, hbeside.passed_eq]

/-- Whether nothing is in the way of results can be seen from the list of a disk. -/
theorem writable_ofList {entries : List (Place × DiskEntry)} {results : Outputs}
    (h : ∀ e ∈ entries, e.1 ≠ [])
    (hpaths : ∀ path ∈ [results.proofs, results.failure],
      path.IsSound ∧ (∀ c ∈ path.components, c.Fits) ∧ path.fileName? ≠ none ∧
      (∀ q ∈ Disk.passed [] path.components,
        q = [] ∨ entries.lookup q = none ∨ entries.lookup q = some .folder) ∧
      path.components.foldl Disk.next [] ≠ [] ∧
      entries.lookup (path.components.foldl Disk.next []) ≠ some .folder)
    (hapart : ∀ q ∈ Disk.passed [] results.proofs.components,
      q ≠ results.proofs.components.foldl Disk.next [] ∧
      q ≠ results.failure.components.foldl Disk.next []) :
    results.Writable (.ofList entries) := by
  have hentry := Disk.entry?_ofList h
  have hhold : ∀ path ∈ [results.proofs, results.failure], (Disk.ofList entries).CanHold path := by
    intro path hpath
    obtain ⟨hsound, hfits, hname, hpassed, hne, hfree⟩ := hpaths path hpath
    refine ⟨hsound, hfits, hname, fun q hq content => ?_, ?_⟩
    · rw [Disk.working_ofList] at hq
      rw [hentry]
      rcases hpassed q hq with rfl | hnone | hfolder
      · exact nofun
      · rw [hnone]
        split <;> exact nofun
      · rw [hfolder]
        split <;> exact nofun
    · rw [Disk.destination, Disk.working_ofList, hentry, if_neg hne]
      exact hfree
  refine ⟨hhold _ List.mem_cons_self, hhold _ (List.mem_cons_of_mem _ List.mem_cons_self), ?_⟩
  rw [Disk.destination, Disk.destination, Disk.working_ofList]
  exact hapart

/-- A file of proofs whose source is gone. -/
def staleDisk : Disk := .ofList [(["proofs"], .folder), (["proofs", "a.txt"], .file [])]

/-- **A file of proofs is replaced** by one that tells that the source is not there. -/
theorem stale_proofs_are_replaced :
    staleDisk.entry? staleDisk.working = some .folder ∧
    (outputs {} ⟨"texes/a.tex"⟩).Writable staleDisk ∧
    (process {} .standard staleDisk ⟨"texes/a.tex"⟩).report.status = .failed ∧
    (process {} .standard staleDisk ⟨"texes/a.tex"⟩).disk.isFile ⟨"proofs/a.txt"⟩ = false ∧
    (process {} .standard staleDisk ⟨"texes/a.tex"⟩).disk.isFile ⟨"proofs/a.err"⟩ = true := by
  have houtputs : outputs {} ⟨"texes/a.tex"⟩ = ⟨⟨"proofs/a.txt"⟩, ⟨"proofs/a.err"⟩⟩ := by decide
  have hentry : ∀ place, staleDisk.entry? place = _ := Disk.entry?_ofList (by decide)
  have hworking : staleDisk.entry? staleDisk.working = some .folder := rfl
  have hwritable : (outputs {} ⟨"texes/a.tex"⟩).Writable staleDisk := by
    rw [houtputs]
    exact writable_ofList (by decide) (by decide) (by decide)
  have hcomponents : Path.components ⟨"texes/a.tex"⟩ = [.name "texes", .name "a.tex"] := by decide
  have hgone : staleDisk.read ⟨"texes/a.tex"⟩ = .error .notFound :=
    Disk.read_ofList_missing (by decide) (by decide) hcomponents (List.cons_ne_nil _ _)
      (by decide) (by decide)
  have hextract : extractFile .standard staleDisk ⟨"texes/a.tex"⟩ =
      .error (.io DiskFault.notFound.message) := by
    unfold extractFile
    rw [hgone]
  have hdone : (process {} .standard staleDisk ⟨"texes/a.tex"⟩).report.status ≠ .skipped := by
    show (extractAndWrite .standard _ staleDisk ⟨"texes/a.tex"⟩).report.status ≠ _
    rw [report_of_error hextract]
    exact nofun
  obtain ⟨hsettled, hproofs, hfailure, -⟩ := one_result_for_each_input hworking hwritable hdone
  rw [houtputs] at hsettled hproofs hfailure
  rw [hextract] at hsettled hproofs hfailure
  refine ⟨hworking, hwritable, hsettled.1, ?_, hfailure.mpr ⟨_, rfl⟩⟩
  rw [Bool.eq_false_iff, Ne, hproofs]
  rintro ⟨extraction, hextraction⟩
  cases hextraction

theorem no_file_of_blocked {results : Outputs} {failure : Failure}
    (hworking : disk.entry? disk.working = some .folder)
    (hfiles : ∀ place content, disk.entry? place ≠ some (.file content))
    (hextract : extractFile options disk input = .error failure)
    (hcomponents : results.failure.components = above ++ [c]) (hroot : c ≠ .root)
    (hblocked : disk.obstacle? false disk.working above = none →
      ∀ disk', disk.Made (disk.reached disk.working above) disk' →
        disk'.entry? (disk'.destination results.failure) = some .folder) :
    ∃ disk', extractAndWrite options results disk input =
        ⟨failureReport input failure, some failure, disk'⟩ ∧
      ∀ place content, disk'.entry? place ≠ some (.file content) := by
  have hkept : ∀ {places disk'}, disk.Made places disk' →
      ∀ place content, disk'.entry? place ≠ some (.file content) := by
    intro places disk' hmade place content
    rw [hmade.entries]
    split
    · exact nofun
    · exact hfiles place content
  have hended : ∀ {fault disk'}, makeFolderOf results.failure disk =
      DiskAction.ended (some fault) disk' → extractAndWrite options results disk input =
        ⟨failureReport input failure, some failure, disk'⟩ := fun hmake =>
    extractAndWrite_of_error hextract (Disk.bind_ended_some hmake)
  cases folderOf hcomponents hroot with
  | refused fault _ hrefused => exact ⟨disk, hended (hrefused disk), hfiles⟩
  | made hfolder =>
    obtain ⟨disk', hmake, hmade⟩ := hfolder disk hworking
    cases hobstacle : disk.obstacle? false disk.working above with
    | some fault =>
      rw [hobstacle] at hmake
      exact ⟨disk', hended hmake, hkept hmade⟩
    | none =>
      rw [hobstacle] at hmake
      obtain ⟨fault, hwrite⟩ := Disk.write_of_folder (hblocked hobstacle disk' hmade)
        (Encoding.ofText (failureText input failure))
      have hfailed : writeFailure results input failure disk =
          DiskAction.ended (some fault) disk' :=
        (Disk.bind_ended_none hmake).trans (settle_of_fault hwrite)
      exact ⟨disk', extractAndWrite_of_error hextract hfailed, hkept hmade⟩

theorem extractFile_of_no_file (hfiles : ∀ place content, disk.entry? place ≠ some (.file content))
    (options : Options) (input : Path) :
    ∃ failure, extractFile options disk input = .error failure := by
  unfold extractFile
  cases hread : disk.read input with
  | error fault => exact ⟨_, rfl⟩
  | ok content =>
    have hfile := isFile_of_read hread
    rw [isFile_of_no_file hfiles input] at hfile
    cases hfile

theorem isFolder_empty {rest : List Component} (h : path.components = .name name :: c :: rest) :
    Disk.isFolder {} path = false := by
  cases hplace : Disk.place {} path with
  | error fault =>
    unfold Disk.isFolder
    rw [Disk.find_of_fault hplace]
  | ok place =>
    have hmem : [name] ∈ Disk.passed [] path.components := by
      rw [h]
      exact List.mem_cons_of_mem _ List.mem_cons_self
    have hfolder := Disk.folders_of_place rfl hplace _ hmem
    rw [Disk.entry?_empty, if_neg (List.cons_ne_nil _ _)] at hfolder
    cases hfolder

/-- A name of some letters. -/
def longName (n : Nat) : String := String.ofList (List.replicate n 'x')

theorem utf8ByteSize_longName (n : Nat) : (longName n).utf8ByteSize = n := by
  unfold longName
  induction n with
  | zero => rfl
  | succ n ih =>
    rw [List.replicate_succ', String.ofList_append, String.utf8ByteSize_append, ih]
    rfl

theorem isName_longName {n : Nat} (hn : 2 < n) : Path.IsName (longName n) := by
  have hne : ∀ name : String, name.utf8ByteSize ≤ 2 → longName n ≠ name := by
    rintro name hsize rfl
    rw [utf8ByteSize_longName] at hsize
    omega
  refine ⟨hne "" (by decide), hne "." (by decide), hne ".." (by decide), fun hmem => ?_⟩
  rw [longName, String.toList_ofList] at hmem
  exact absurd (List.eq_of_mem_replicate hmem) (by decide)

/-- The results of a source below a folder for results that is one name. -/
theorem components_below_name {ending : String} (hname : Path.IsName name)
    (hending : Path.IsEnding ending) :
    (resultPath { outputRoot := ⟨name⟩ } ⟨"texes/a.tex"⟩ ending).components =
      [.name name] ++ [.name ("a" ++ "." ++ ending)] := by
  have hrelative : relativePath { outputRoot := ⟨name⟩ } ⟨"texes/a.tex"⟩ =
      .ofParts false ["a" ++ "." ++ "tex"] := by
    unfold relativePath
    dsimp only
    decide
  have hsource : ∀ n ∈ ["a" ++ "." ++ "tex"], Path.IsName n := by decide
  have hroot : Path.components ⟨name⟩ = [.name name] := by
    have hsingle : (⟨name⟩ : Path) = .ofParts false [name] :=
      Path.eq_of_text (by simp [Path.ofParts])
    rw [hsingle, Path.components_ofNames (by simpa using hname)]
    rfl
  have hparts := Path.areParts_folderParts ⟨name⟩ hsource
  unfold resultPath
  rw [hrelative, Path.join_ofNames _ (by simp) hsource,
    Path.components_withEnding hparts (hsource _ (by simp)) (by decide) (by decide) hending,
    Path.partComponents_folderParts, hroot, if_neg (by decide)]

theorem no_file_empty (place : Place) (content : Bytes) :
    Disk.entry? {} place ≠ some (.file content) := by
  rw [Disk.entry?_empty]
  split <;> exact nofun

/-- On the empty disk no folder stands where the results of an input are to be; the input fails, and
has neither result afterwards. -/
def LacksResult (batch : BatchOptions) (input : Path) : Prop :=
  let results := outputs batch input
  let processed := process batch .standard {} input
  (Disk.isFolder {} results.proofs = false ∧ Disk.isFolder {} results.failure = false) ∧
  processed.report.status = .failed ∧
  processed.disk.isFile results.proofs = false ∧
  processed.disk.isFile results.failure = false

theorem lacksResult_of_blocked {results : Outputs} (hresults : outputs batch input = results)
    (hskip : batch.skipExisting = false) (hproofs : Disk.isFolder {} results.proofs = false)
    (hfailure : Disk.isFolder {} results.failure = false)
    (hcomponents : results.failure.components = above ++ [c]) (hroot : c ≠ .root)
    (hblocked : Disk.obstacle? {} false [] above = none →
      ∀ disk', Disk.Made {} (Disk.reached {} [] above) disk' →
        disk'.entry? (disk'.destination results.failure) = some .folder) :
    LacksResult batch input := by
  obtain ⟨failure, hextract⟩ := extractFile_of_no_file no_file_empty .standard input
  obtain ⟨disk', hrun, hfiles⟩ :=
    no_file_of_blocked rfl no_file_empty hextract hcomponents hroot hblocked
  have hprocess : process batch .standard {} input =
      ⟨failureReport input failure, some failure, disk'⟩ := by
    unfold process
    rw [hresults, hskip]
    exact hrun
  unfold LacksResult
  rw [hresults, hprocess]
  exact ⟨⟨hproofs, hfailure⟩, rfl, isFile_of_no_file hfiles _, isFile_of_no_file hfiles _⟩

/-- **Three inputs without a result.** The disk is empty, so no file stands above the place of a
result either. One input has no file name for its result, one has a result that leads through its
own place, and for one the name of the folder for results is too long. -/
theorem inputs_without_result :
    (∀ place content, Disk.entry? {} place ≠ some (.file content)) ∧
    LacksResult {} ⟨".."⟩ ∧ LacksResult {} ⟨"texes/a.err/../a.tex"⟩ ∧
    LacksResult { outputRoot := ⟨longName 256⟩ } ⟨"texes/a.tex"⟩ := by
  refine ⟨no_file_empty, ?_, ?_, ?_⟩
  · have houtputs : outputs {} ⟨".."⟩ = ⟨⟨"proofs/.."⟩, ⟨"proofs/.."⟩⟩ := by decide
    have hcomponents : Path.components ⟨"proofs/.."⟩ = [.name "proofs"] ++ [.parent] := by decide
    have hfolder := isFolder_empty hcomponents
    refine lacksResult_of_blocked houtputs rfl hfolder hfolder hcomponents (by simp) ?_
    -- The path leads back to the top.
    intro _ disk' hmade
    rw [Disk.destination, hcomponents, hmade.working]
    rfl
  · have houtputs : outputs {} ⟨"texes/a.err/../a.tex"⟩ =
        ⟨⟨"proofs/a.err/../a.txt"⟩, ⟨"proofs/a.err/../a.err"⟩⟩ := by decide
    have hother : Path.components ⟨"proofs/a.err/../a.txt"⟩ =
        [.name "proofs", .name "a.err", .parent] ++ [.name "a.txt"] := by decide
    have hcomponents : Path.components ⟨"proofs/a.err/../a.err"⟩ =
        [.name "proofs", .name "a.err", .parent] ++ [.name "a.err"] := by decide
    refine lacksResult_of_blocked houtputs rfl (isFolder_empty hother)
      (isFolder_empty hcomponents) hcomponents (by simp) ?_
    -- At the place of the result a folder has been made.
    intro hnone disk' hmade
    refine Disk.folders_of_made rfl hnone hmade _ ?_
    rw [Disk.destination, hcomponents, hmade.working]
    decide
  · have hname : Path.IsName (longName 256) := isName_longName (by decide)
    have hlong : ¬(Component.name (longName 256)).Fits := by
      show ¬(longName 256).utf8ByteSize ≤ Disk.nameLimit
      rw [utf8ByteSize_longName]
      decide
    generalize longName 256 = name at *
    have hproofs := components_below_name hname isEnding_txt
    have hfailure := components_below_name hname isEnding_err
    have houtputs := outputs_eq { outputRoot := ⟨name⟩ } ⟨"texes/a.tex"⟩
    generalize resultPath _ _ "txt" = proofs at hproofs houtputs
    generalize resultPath _ _ "err" = failure at hfailure houtputs
    refine lacksResult_of_blocked houtputs rfl (isFolder_empty hproofs)
      (isFolder_empty hfailure) hfailure (by simp) ?_
    intro hnone
    exact absurd ((Disk.passed_of_none hnone).2 (.name name) (by simp)) hlong

end Batch

end ProofProse
