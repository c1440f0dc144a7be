import ProofProse.Proofs.Alike

/-! # Undisturbed work

The work on an input reads some paths (`Batch.Reads`), looks whether there are results already, and
changes the places of its results and missing folders on the way to them (`Batch.changed_cases`). On
another disk it is the same if that has the same wherever something is read and at the places of the
results; on the way to the results it may have folders more (`Batch.Undisturbed`). Then the report
is the same, and the same is changed (`Batch.process_alike`). -/

namespace ProofProse

open Encoding (Bytes)

/-! ### What is read -/

namespace Library

/-- The paths that are asked for when candidates are tried one after the other: all of them up to
the first that there is a file for. -/
def asked (library : Library) (including : String) : List String → List String
  | [] => []
  | candidate :: candidates =>
    let path := library.resolve including candidate
    match library.read path with
    | .error (.notFound _) => path :: asked library including candidates
    | _ => [path]

end Library

namespace Scan

variable {options : Options} {library library' : Library}

/-- Two libraries that have the same at the paths that are asked for have the same answer to a
search. -/
theorem search_of_asked {target including : String}
    (hresolve : library'.resolve = library.resolve) :
    ∀ {candidates : List String},
      (∀ path ∈ library.asked including candidates, library'.read path = library.read path) →
      search ⟨options, library⟩ target including candidates =
        search ⟨options, library'⟩ target including candidates
  | [], _ => rfl
  | candidate :: candidates, h => by
    unfold Library.asked at h
    unfold search
    dsimp only at h ⊢
    rw [hresolve]
    split at h
    · next hread =>
      rw [h _ List.mem_cons_self, hread]
      exact search_of_asked hresolve fun path hpath => h path (List.mem_cons_of_mem _ hpath)
    · next hread =>
      rw [h _ List.mem_cons_self]
      split
      · rfl
      · next hfound => exact absurd hfound (hread _)
      · rfl

variable {setting : Setting} {first s : State} {fuel start : Nat} {frame : Frame}

end Scan

namespace Batch

variable {batch : BatchOptions} {options : Options} {disk disk' : Disk} {input other : Path}
  {inputs order done : List Path}

/-- Whether an input is passed over. -/
def passesOver (batch : BatchOptions) (disk : Disk) (input : Path) : Bool :=
  batch.skipExisting && hasResult disk (outputs batch input)

theorem passesOver_of_hasResult (hskip : batch.skipExisting = true)
    (h : hasResult disk (outputs batch input) = true) : passesOver batch disk input = true := by
  unfold passesOver
  rw [hskip, h, Bool.and_true]

theorem passesOver_of_no_result (h : hasResult disk (outputs batch input) = false) :
    passesOver batch disk input = false := by
  unfold passesOver
  rw [h, Bool.and_false]

theorem process_of_passesOver (options : Options) (h : passesOver batch disk input = true) :
    process batch options disk input = ⟨skippedReport input, none, disk⟩ := if_pos h

theorem process_of_not_passesOver (options : Options) (h : passesOver batch disk input = false) :
    process batch options disk input =
      extractAndWrite options (outputs batch input) disk input :=
  if_neg (Bool.eq_false_iff.mp h)

/-- The paths that are read while an input is worked on: its own, and those that are asked for when
the file is looked for that a target names. -/
inductive Reads (batch : BatchOptions) (options : Options) (disk : Disk) (input : Path) : Path → Prop
  | source (hdone : passesOver batch disk input = false) : Reads batch options disk input input
  | target {content : Bytes} {fuel start : Nat} {frame : Frame} {s u : State} {kind : InclusionKind}
      {target path : String} (hdone : passesOver batch disk input = false)
      (hread : disk.read input = .ok content)
      (hvisits : Scan.Visits ⟨options, .onDisk disk []⟩
        (.ofSource ⟨options, .onDisk disk []⟩ (Encoding.decodeSource content) input.text)
        fuel frame start s)
      (hlooks : Scan.LooksFor s kind target u)
      (hpass : Scan.passesOver ⟨options, .onDisk disk []⟩ target = false)
      (hdepth : u.includes.depth < options.includeDepth)
      (hasked : path ∈ (Library.onDisk disk []).asked u.includes.current
        (Inclusion.candidates kind target)) : Reads batch options disk input ⟨path⟩

theorem extractFile_of_reads (hworking : disk'.working = disk.working)
    (hdone : passesOver batch disk input = false)
    (h : ∀ path, Reads batch options disk input path →
      ∀ q ∈ disk.trail path, disk'.entry? q = disk.entry? q) :
    extractFile options disk' input = extractFile options disk input := by
  have hinput : disk'.read input = disk.read input := Disk.read_congr hworking (h _ (.source hdone))
  unfold extractFile
  rw [hinput]
  cases hread : disk.read input with
  | error fault => rfl
  | ok content =>
    have hagree : Scan.AgreeAlong options (.onDisk disk []) (.onDisk disk' [])
        (.ofSource ⟨options, .onDisk disk []⟩ (Encoding.decodeSource content) input.text) := by
      intro fuel frame start s hvisits kind target u hlooks hpass hdepth
      have hresolve : (Library.onDisk disk' []).resolve = (Library.onDisk disk []).resolve := rfl
      apply Scan.search_of_asked hresolve
      intro path hpath
      have htrail := h ⟨path⟩ (.target hdone hread hvisits hlooks hpass hdepth hpath)
      rw [Disk.read_onDisk, Disk.read_onDisk, Disk.read_congr hworking htrail]
    exact congrArg History.extraction (Scan.history_eq_of_agree hagree)

/-- The places of the results of an input. -/
def resultPlaces (batch : BatchOptions) (disk : Disk) (input : Path) : List Place :=
  [disk.destination (outputs batch input).proofs, disk.destination (outputs batch input).failure]

/-- An input that can be worked on beside others: its results have file names, they do not stand on
the way to each other, and the way does not lead up from a missing place. -/
structure Separate (batch : BatchOptions) (disk : Disk) (input : Path) : Prop where
  fileName : (outputs batch input).proofs.fileName? ≠ none
  apart : ∀ q ∈ Disk.passed disk.working (outputs batch input).proofs.components,
    q ∉ resultPlaces batch disk input
  proofs : disk.Descends disk.working (outputs batch input).proofs.components
  failure : disk.Descends disk.working (outputs batch input).failure.components

/-- The work on an input does not come across anything that another disk has otherwise, folders on
the way to its results left aside. -/
structure Undisturbed (batch : BatchOptions) (options : Options) (disk : Disk) (input : Path)
    (disk' : Disk) : Prop where
  working : disk'.working = disk.working
  results : ∀ q ∈ resultPlaces batch disk input, disk'.entry? q = disk.entry? q
  grown : disk.Grown disk' (Disk.passed disk.working (outputs batch input).proofs.components)
  reads : ∀ path, Reads batch options disk input path →
    ∀ q ∈ disk.trail path, disk'.entry? q = disk.entry? q

theorem Undisturbed.refl (batch : BatchOptions) (options : Options) (disk : Disk) (input : Path) :
    Undisturbed batch options disk input disk :=
  ⟨rfl, fun _ _ => rfl, fun _ _ => .inl rfl, fun _ _ _ _ => rfl⟩

end Batch

namespace Disk

variable {disk disk' : Disk} {path : Path}

theorem occupied_of_missing (h : disk.entry? (disk.destination path) = none) :
    disk.occupied path = false := by
  cases hplace : disk.place path with
  | error fault => exact occupied_of_fault hplace
  | ok place =>
    unfold occupied
    rw [find_of_place hplace, (eq_destination hplace).1, h]
    rfl

theorem occupied_grown (hdisk : disk.IsTree) (hworking : disk'.working = disk.working)
    (hdescends : disk.Descends disk.working path.components)
    (hgrown : disk.Grown disk' (passed disk.working path.components))
    (hsame : disk'.entry? (disk.destination path) = disk.entry? (disk.destination path)) :
    disk'.occupied path = disk.occupied path := by
  have hdestination := destination_congr hworking path
  by_cases hmissing : disk.entry? (disk.destination path) = none
  · rw [occupied_of_missing hmissing,
      occupied_of_missing (by rw [hdestination, hsame, hmissing])]
  · have hworkingSome : disk.entry? disk.working ≠ none := by
      rw [hdisk.working]
      exact nofun
    have hfound : disk'.find path = disk.find path := by
      refine find_congr hworking fun q hq => ?_
      rcases List.mem_append.mp hq with hq | hq
      · refine (hgrown q hq).resolve_right fun hnone => hmissing ?_
        exact Descends.destination_of_missing hdisk hdescends (fun d hd => later_component path hd)
          hworkingSome q hq hnone.1
      · rw [List.mem_singleton.mp hq, hsame]
    unfold occupied
    rw [hfound]

end Disk

namespace Batch

variable {batch : BatchOptions} {options : Options} {disk disk' : Disk} {input other : Path}
  {inputs order done : List Path}

theorem passesOver_eq (hdisk : disk.IsTree) (hseparate : Separate batch disk input)
    (h : Undisturbed batch options disk input disk') :
    passesOver batch disk' input = passesOver batch disk input := by
  obtain ⟨above, stem, hbeside⟩ := sideBySide_outputs hseparate.fileName
  have hgrown : disk.Grown disk'
      (Disk.passed disk.working (outputs batch input).failure.components) := by
    rw [hbeside.passed_eq]
    exact h.grown
  unfold passesOver hasResult
  rw [Disk.occupied_grown hdisk h.working hseparate.proofs h.grown
      (h.results _ (by simp [resultPlaces])),
    Disk.occupied_grown hdisk h.working hseparate.failure hgrown
      (h.results _ (by simp [resultPlaces]))]

/-- **The work on an input** is the same on two disks when it is undisturbed: the report is the
same, the same folders are made, and the results are the same. -/
theorem process_alike (hdisk : disk.IsTree) (hseparate : Separate batch disk input)
    (h : Undisturbed batch options disk input disk') :
    (process batch options disk' input).report = (process batch options disk input).report ∧
    ∃ folders, (∀ q ∈ folders,
        q ∈ Disk.passed disk.working (outputs batch input).proofs.components ∧
          ∀ content, disk.entry? q ≠ some (.file content)) ∧
      disk.Moved folders (resultPlaces batch disk input) (process batch options disk input).disk ∧
      disk'.Moved folders (resultPlaces batch disk input) (process batch options disk' input).disk ∧
      ∀ q ∈ resultPlaces batch disk input, Disk.entry? (process batch options disk' input).disk q =
        Disk.entry? (process batch options disk input).disk q := by
  have hover := passesOver_eq hdisk hseparate h
  cases hdone : passesOver batch disk input with
  | true =>
    rw [process_of_passesOver options hdone, process_of_passesOver options (hover.trans hdone)]
    exact ⟨rfl, [], nofun, .refl _ _, .refl _ _, h.results⟩
  | false =>
    rw [process_of_not_passesOver options hdone,
      process_of_not_passesOver options (hover.trans hdone)]
    obtain ⟨above, stem, hbeside⟩ := sideBySide_outputs hseparate.fileName
    have hsame := extractFile_of_reads h.working hdone h.reads
    exact extractAndWrite_alike hbeside hdisk h.working hsame hseparate.proofs hseparate.failure
      h.grown hseparate.apart List.mem_cons_self (List.mem_cons_of_mem _ List.mem_cons_self)
      h.results

/-- An input that is not disturbed changes what it changes alone, in the same way, and leaves the
rest as it is. -/
theorem Undisturbed.process_entries (h : Undisturbed batch options disk input disk')
    (hdisk : disk.IsTree) (hseparate : Separate batch disk input) :
    (process batch options disk' input).report = (process batch options disk input).report ∧
    Disk.working (process batch options disk' input).disk = disk'.working ∧
    (∀ q, Disk.entry? (process batch options disk input).disk q = disk.entry? q →
      Disk.entry? (process batch options disk' input).disk q = disk'.entry? q) ∧
    ∀ q, Disk.entry? (process batch options disk input).disk q ≠ disk.entry? q →
      Disk.entry? (process batch options disk' input).disk q =
        Disk.entry? (process batch options disk input).disk q := by
  obtain ⟨hreport, folders, hfolders, hmoved, hmoved', hresults⟩ :=
    process_alike hdisk hseparate h
  refine ⟨hreport, hmoved'.working, fun q hq => ?_, fun q hq => ?_⟩
  · by_cases hmem : q ∈ resultPlaces batch disk input
    · rw [hresults q hmem, hq, h.results q hmem]
    · have hentry := hmoved.entries q hmem
      rw [hmoved'.entries q hmem]
      split
      · next hfolder =>
        rw [if_pos hfolder, hq] at hentry
        rcases h.grown q (hfolders q hfolder).1 with hsame | ⟨hnone, -⟩
        · exact (hsame.trans hentry).symm
        · rw [hnone] at hentry
          cases hentry
      · rfl
  · by_cases hmem : q ∈ resultPlaces batch disk input
    · exact hresults q hmem
    · have hentry := hmoved.entries q hmem
      have hentry' := hmoved'.entries q hmem
      split at hentry
      · next hfolder => rw [hentry, hentry', if_pos hfolder]
      · exact absurd hentry hq

/-- Only the results of an input and missing folders on the way to them are changed. -/
theorem changed_cases (hdisk : disk.IsTree) (hseparate : Separate batch disk input) {q : Place}
    (hchanged : Disk.entry? (process batch options disk input).disk q ≠ disk.entry? q) :
    q ∈ resultPlaces batch disk input ∨
      q ∈ Disk.passed disk.working (outputs batch input).proofs.components ∧
        disk.entry? q = none ∧
        Disk.entry? (process batch options disk input).disk q = some .folder := by
  obtain ⟨-, folders, hfolders, hmoved, -⟩ :=
    process_alike hdisk hseparate (.refl batch options disk input)
  by_cases hq : q ∈ resultPlaces batch disk input
  · exact .inl hq
  · have hentry := hmoved.entries q hq
    split at hentry
    · next hmem =>
      obtain ⟨hpassed, hfile⟩ := hfolders q hmem
      refine .inr ⟨hpassed, ?_, hentry⟩
      rw [hentry] at hchanged
      cases hfound : disk.entry? q with
      | none => rfl
      | some entry =>
        cases entry with
        | folder => exact absurd hfound.symm hchanged
        | file content => exact absurd hfound (hfile content)
    · exact absurd hentry hchanged

end Batch

end ProofProse
