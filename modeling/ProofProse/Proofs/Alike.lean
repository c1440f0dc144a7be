import ProofProse.Proofs.Replacing

/-! # The same work on two disks

A result is written on two disks, of which the second has some folders more along the way to it
(`Disk.Grown`). It makes no difference: both end alike, make the same folders and leave the same at
the places of the results (`Batch.replaceFile_alike`). A folder that is there already is not made
again; and whether it was made decides nothing, as the path does not lead up again from a place that
was missing (`Disk.Descends`), and so behind such a place there is nothing that could stand in the
way (`Disk.along_grown`). -/

namespace ProofProse

open Encoding (Bytes)
open ProofProse.Path (Component)

namespace Disk

variable {disk disk' after after' : Disk} {place start q : Place} {path : Path} {content : Bytes}
  {fault : DiskFault} {fault? : Option DiskFault} {c : Component} {components : List Component}
  {folders results : List Place} {first second : DiskAction Unit}

/-! ### Paths that do not lead up from a missing place -/

/-- From a place that is missing no step leads up. -/
def Descends (disk : Disk) (start : Place) (components : List Component) : Prop :=
  ∀ front behind, components = front ++ .parent :: behind →
    disk.entry? (front.foldl next start) ≠ none

theorem Descends.of_cons (h : disk.Descends start (c :: components)) :
    disk.Descends (next start c) components := fun front behind hsplit =>
  h (c :: front) behind (congrArg (c :: ·) hsplit)

theorem Descends.of_append {behind : List Component}
    (h : disk.Descends start (components ++ behind)) : disk.Descends start components := by
  intro front rest hsplit
  exact h front (rest ++ behind) (by rw [hsplit, List.append_assoc, List.cons_append])

theorem Descends.next_of_missing (h : disk.Descends start (c :: components)) (hdisk : disk.IsTree)
    (hc : c = .parent ∨ ∃ s, c = .name s) (hstart : disk.entry? start = none) :
    disk.entry? (next start c) = none := by
  rcases hc with rfl | ⟨s, rfl⟩
  · exact absurd hstart (h [] components rfl)
  · by_contra hsome
    have habove := hdisk.above start s hsome
    rw [hstart] at habove
    cases habove

theorem Descends.foldl_of_missing (hdisk : disk.IsTree) :
    ∀ {components : List Component} {start : Place}, disk.Descends start components →
      (∀ d ∈ components, d = .parent ∨ ∃ s, d = .name s) → disk.entry? start = none →
      disk.entry? (components.foldl next start) = none
  | [], _, _, _, hstart => hstart
  | c :: _, _, h, hinner, hstart => by
    rw [List.foldl_cons]
    exact foldl_of_missing hdisk h.of_cons (fun d hd => hinner d (List.mem_cons_of_mem c hd))
      (h.next_of_missing hdisk (hinner c List.mem_cons_self) hstart)

theorem Descends.destination_of_missing (hdisk : disk.IsTree) :
    ∀ {components : List Component} {start : Place}, disk.Descends start components →
      (∀ d ∈ components.tail, d = .parent ∨ ∃ s, d = .name s) → disk.entry? start ≠ none →
      ∀ q ∈ passed start components, disk.entry? q = none →
      disk.entry? (components.foldl next start) = none
  | c :: components, start, h, hinner, hstart, q, hq, hmissing => by
    rcases List.mem_cons.mp hq with rfl | hq
    · exact absurd hmissing hstart
    · rw [List.foldl_cons]
      by_cases hnext : disk.entry? (next start c) = none
      · exact foldl_of_missing hdisk h.of_cons hinner hnext
      · exact destination_of_missing hdisk h.of_cons
          (fun d hd => hinner d (List.mem_of_mem_tail hd))
          hnext q hq hmissing

/-! ### Disks with folders more -/

/-- At some places one disk has what another one has, or a folder where that has nothing. -/
def Grown (disk disk' : Disk) (places : List Place) : Prop :=
  ∀ q ∈ places, disk'.entry? q = disk.entry? q ∨
    disk.entry? q = none ∧ disk'.entry? q = some .folder

/-- **Folders more** along a path are no obstacle and take none away. That a folder was made counts
for a file behind it, but behind a missing place there is none. -/
theorem along_grown (hdisk : disk.IsTree) :
    ∀ {components : List Component} {start : Place} {made made' : Bool},
      disk.Descends start components →
      (∀ d ∈ components.tail, d = .parent ∨ ∃ s, d = .name s) →
      disk.Grown disk' (passed start components ++ [components.foldl next start]).tail →
      made' = made ∨
        disk.entry? start = none ∧ (∀ d ∈ components, d = .parent ∨ ∃ s, d = .name s) →
      obstacle? disk' made' start components = obstacle? disk made start components ∧
        reached disk' start components = reached disk start components
  | [], _, _, _, _, _, _, _ => ⟨rfl, rfl⟩
  | c :: components, start, made, made', hdescends, hinner, hgrown, hmade => by
    rw [tail_passed_cons] at hgrown
    have hhead := hgrown _ List.mem_cons_self
    have hsame : disk.entry? (next start c) ≠ none → made' = made := fun hsome =>
      hmade.resolve_right fun ⟨hstart, hinner⟩ =>
        hsome (hdescends.next_of_missing hdisk (hinner c List.mem_cons_self) hstart)
    cases along disk start c components with
    | tooLong hfits hobstacle hreached =>
      obtain ⟨hobstacle', hreached'⟩ := along_tooLong disk' start hfits components
      rw [hobstacle, hobstacle', hreached, hreached']
      exact ⟨rfl, rfl⟩
    | file hfits hentry hobstacle hreached =>
      have hsome : disk.entry? (next start c) ≠ none := by
        rw [hentry]
        exact nofun
      have hentry' := (hhead.resolve_right fun hnone => hsome hnone.1).trans hentry
      obtain ⟨hobstacle', hreached'⟩ := along_file hfits hentry' components
      rw [hobstacle, hobstacle', hreached, hreached', hsame hsome]
      exact ⟨rfl, rfl⟩
    | goesOn hfits hentry hobstacle hreached =>
      have hentry' : ∀ content, disk'.entry? (next start c) ≠ some (.file content) := by
        rcases hhead with heq | ⟨-, hfolder⟩
        · rw [heq]
          exact hentry
        · exact ne_file_of_folder hfolder
      obtain ⟨hobstacle', hreached'⟩ := along_open hfits hentry' components
      have hmade' : (made' || ( disk'.entry? (next start c)).isNone) =
            (made || ( disk.entry? (next start c)).isNone) ∨
          disk.entry? (next start c) = none ∧
            ∀ d ∈ components, d = .parent ∨ ∃ s, d = .name s := by
        by_cases hnone : disk.entry? (next start c) = none
        · exact .inr ⟨hnone, hinner⟩
        · rw [hsame hnone, hhead.resolve_right fun h => hnone h.1]
          exact .inl rfl
      obtain ⟨hrest, hplaces⟩ := along_grown hdisk hdescends.of_cons
        (fun d hd => hinner d (List.mem_of_mem_tail hd))
        (fun q hq => hgrown q (List.mem_cons_of_mem _ hq)) hmade'
      rw [hobstacle, hobstacle', hreached, hreached', hrest, hplaces]
      exact ⟨rfl, rfl⟩

/-! ### Actions that do the same -/

/-- Some places are folders now, and nothing else has changed, if the places of results are left
aside. -/
structure Moved (disk : Disk) (folders results : List Place) (after : Disk) : Prop where
  working : after.working = disk.working
  entries : ∀ q ∉ results, after.entry? q = if q ∈ folders then some .folder else disk.entry? q

theorem Moved.refl (disk : Disk) (results : List Place) : disk.Moved [] results disk :=
  ⟨rfl, fun _ _ => (if_neg List.not_mem_nil).symm⟩

theorem Made.moved (h : disk.Made folders after) : disk.Moved folders results after :=
  ⟨h.working, fun q _ => h.entries q⟩

theorem Moved.andThen (h : disk.Moved folders results disk') (h' : disk'.Moved [] results after) :
    disk.Moved folders results after := by
  refine ⟨h'.working.trans h.working, fun q hq => ?_⟩
  rw [h'.entries q hq, if_neg List.not_mem_nil, h.entries q hq]

/-- An action ends alike on two disks, makes the same folders on both, and leaves the same at the
places of results. -/
def ActsAlike (action : DiskAction Unit) (folders results : List Place) (disk disk' : Disk) :
    Prop :=
  ∃ fault? after after', action disk = DiskAction.ended fault? after ∧
    action disk' = DiskAction.ended fault? after' ∧ disk.Moved folders results after ∧
    disk'.Moved folders results after' ∧ ∀ q ∈ results, after'.entry? q = after.entry? q

theorem ActsAlike.bind (hfirst : ActsAlike first folders results disk disk')
    (hsecond : ∀ after after', first disk = DiskAction.ended none after →
      first disk' = DiskAction.ended none after' → disk.Moved folders results after →
      disk'.Moved folders results after' → (∀ q ∈ results, after'.entry? q = after.entry? q) →
      ActsAlike second [] results after after') :
    ActsAlike (first >>= fun _ => second) folders results disk disk' := by
  obtain ⟨fault?, after, after', hrun, hrun', hmoved, hmoved', hsame⟩ := hfirst
  cases fault? with
  | some fault =>
    exact ⟨some fault, after, after', bind_ended_some hrun, bind_ended_some hrun', hmoved, hmoved',
      hsame⟩
  | none =>
    obtain ⟨fault?, last, last', hlast, hlast', hnext, hnext', hsame'⟩ :=
      hsecond after after' hrun hrun' hmoved hmoved' hsame
    exact ⟨fault?, last, last', (bind_ended_none hrun).trans hlast,
      (bind_ended_none hrun').trans hlast', hmoved.andThen hnext, hmoved'.andThen hnext', hsame'⟩

theorem actsAlike_of_unchanged (h : first disk = DiskAction.ended fault? disk)
    (h' : first disk' = DiskAction.ended fault? disk')
    (hsame : ∀ q ∈ results, disk'.entry? q = disk.entry? q) :
    ActsAlike first [] results disk disk' :=
  ⟨fault?, disk, disk', h, h', .refl _ _, .refl _ _, hsame⟩

theorem moved_putFile (hplace : place ≠ []) (hmem : place ∈ results) :
    disk.Moved [] results (disk.putFile place content) := by
  refine ⟨working_putFile disk hplace content, fun q hq => ?_⟩
  have hne : q ≠ place := fun heq => hq (heq ▸ hmem)
  rw [entry?_putFile disk hplace, if_neg hne, if_neg List.not_mem_nil]

theorem moved_erase (hplace : place ≠ []) (hmem : place ∈ results) :
    disk.Moved [] results (disk.erase place) := by
  refine ⟨rfl, fun q hq => ?_⟩
  have hne : q ≠ place := fun heq => hq (heq ▸ hmem)
  rw [entry?_erase hplace, if_neg hne, if_neg List.not_mem_nil]

theorem write_alike (hplace : disk'.place path = disk.place path) (hasks : asksFolder path = false)
    (hmem : disk.destination path ∈ results)
    (hsame : ∀ q ∈ results, disk'.entry? q = disk.entry? q) :
    ActsAlike (.ofChange (·.write path content)) [] results disk disk' := by
  cases hrun : disk.place path with
  | error fault =>
    exact actsAlike_of_unchanged (DiskAction.ofChange_error (write_of_fault hrun))
      (DiskAction.ofChange_error (write_of_fault (hplace.trans hrun))) hsame
  | ok place =>
    rw [← (eq_destination hrun).1] at hmem
    have hentry := hsame place hmem
    have hfirst : disk.write path content = _ := write_of_place hrun hasks
    have hsecond : disk'.write path content = _ := write_of_place (hplace.trans hrun) hasks
    rw [hentry] at hsecond
    by_cases hfolder : disk.entry? place = some .folder
    · rw [if_pos hfolder] at hfirst hsecond
      exact actsAlike_of_unchanged (DiskAction.ofChange_error hfirst)
        (DiskAction.ofChange_error hsecond) hsame
    · rw [if_neg hfolder] at hfirst hsecond
      have hne := ne_nil_of_entry hfolder
      refine ⟨none, _, _, DiskAction.ofChange_ok hfirst, DiskAction.ofChange_ok hsecond,
        moved_putFile hne hmem, moved_putFile hne hmem, fun q hq => ?_⟩
      rw [entry?_putFile disk hne, entry?_putFile disk' hne, hsame q hq]

theorem removeStale_alike (hplace : disk'.place path = disk.place path)
    (hasks : asksFolder path = false) (hmem : disk.destination path ∈ results)
    (hsame : ∀ q ∈ results, disk'.entry? q = disk.entry? q) :
    ActsAlike (Batch.removeStale path) [] results disk disk' := by
  cases hrun : disk.place path with
  | error fault =>
    exact actsAlike_of_unchanged (Batch.removeStale_of_fault hrun)
      (Batch.removeStale_of_fault (hplace.trans hrun)) hsame
  | ok place =>
    rw [← (eq_destination hrun).1] at hmem
    have hentry := hsame place hmem
    have hfirst := Batch.removeStale_of_place hrun hasks
    have hsecond := Batch.removeStale_of_place (hplace.trans hrun) hasks
    rw [hentry] at hsecond
    cases hfound : disk.entry? place with
    | none =>
      rw [hfound] at hfirst hsecond
      exact actsAlike_of_unchanged hfirst hsecond hsame
    | some entry =>
      rw [hfound] at hfirst hsecond
      cases entry with
      | folder => exact actsAlike_of_unchanged hfirst hsecond hsame
      | file content =>
        have hfile : disk.entry? place ≠ some .folder := by
          rw [hfound]
          exact nofun
        have hne := ne_nil_of_entry hfile
        refine ⟨none, _, _, hfirst, hsecond, moved_erase hne hmem, moved_erase hne hmem,
          fun q hq => ?_⟩
        rw [entry?_erase hne, entry?_erase hne, hsame q hq]

end Disk

namespace Batch

variable {disk disk' : Disk} {written stale : Path} {above : List Component} {a b : String}
  {places : List Place}

/-! ### Writing a result -/

/-- In folders a result is written alike, and the other one is taken away alike. -/
theorem settle_alike (h : SideBySide above a b written stale) (text : String)
    (hworking : disk'.working = disk.working)
    (hfolders : ∀ q ∈ Disk.passed disk.working written.components, disk.entry? q = some .folder)
    (hfolders' : ∀ q ∈ Disk.passed disk.working written.components, disk'.entry? q = some .folder)
    (hapart : ∀ q ∈ Disk.passed disk.working written.components, q ∉ places)
    (hwritten : disk.destination written ∈ places) (hstale : disk.destination stale ∈ places)
    (hsame : ∀ q ∈ places, disk'.entry? q = disk.entry? q) :
    Disk.ActsAlike (settle written stale text) [] places disk disk' := by
  have hplace : disk'.place written = disk.place written :=
    Disk.place_congr hworking fun q hq => (hfolders' q hq).trans (hfolders q hq).symm
  refine (Disk.write_alike hplace h.asksWritten hwritten hsame).bind
    fun after after' _ _ hmoved hmoved' hsame' => ?_
  have hkept : ∀ q ∈ Disk.passed after.working stale.components,
      after'.entry? q = after.entry? q := by
    intro q hq
    rw [hmoved.working, h.passed_eq] at hq
    rw [hmoved.entries q (hapart q hq), hmoved'.entries q (hapart q hq), hfolders q hq,
      hfolders' q hq]
  have hplace' : after'.place stale = after.place stale :=
    Disk.place_congr (by rw [hmoved'.working, hworking, hmoved.working]) hkept
  refine Disk.removeStale_alike hplace' h.asksStale ?_ hsame'
  rwa [Disk.destination_congr hmoved.working]

/-- The folder that paths begin in is there still when there are some folders more. -/
theorem SideBySide.working_of_grown (h : SideBySide above a b written stale) (hdisk : disk.IsTree)
    (hworking : disk'.working = disk.working)
    (hgrown : disk.Grown disk' (Disk.passed disk.working written.components)) :
    disk'.entry? disk'.working = some .folder := by
  have hmem : disk.working ∈ Disk.passed disk.working written.components := by
    rw [h.passed]
    cases above <;> exact List.mem_cons_self
  rw [hworking]
  rcases hgrown _ hmem with heq | ⟨-, hfolder⟩
  · exact heq.trans hdisk.working
  · exact hfolder

/-- Some folders more along the way to a result are no obstacle to its folder, and take none away.
-/
theorem SideBySide.along_grown (h : SideBySide above a b written stale) (hdisk : disk.IsTree)
    (hworking : disk'.working = disk.working)
    (hdescends : disk.Descends disk.working written.components)
    (hgrown : disk.Grown disk' (Disk.passed disk.working written.components)) :
    disk'.obstacle? false disk'.working above = disk.obstacle? false disk.working above ∧
      disk'.reached disk'.working above = disk.reached disk.working above := by
  have hinner : ∀ d ∈ above.tail, d = .parent ∨ ∃ s, d = .name s := by
    intro d hd
    refine Disk.later_component written ?_
    rw [h.ofWritten, List.tail_append_of_ne_nil (List.ne_nil_of_mem (List.mem_of_mem_tail hd))]
    exact List.mem_append_left _ hd
  rw [h.ofWritten] at hdescends
  rw [h.passed] at hgrown
  rw [hworking]
  exact Disk.along_grown hdisk hdescends.of_append hinner
    (fun q hq => hgrown q (List.mem_of_mem_tail hq)) (.inl rfl)

/-- **A result is written alike** on a tree and on a disk with some folders more along the way. -/
theorem replaceFile_alike (h : SideBySide above a b written stale) (text : String)
    (hdisk : disk.IsTree) (hworking : disk'.working = disk.working)
    (hdescends : disk.Descends disk.working written.components)
    (hgrown : disk.Grown disk' (Disk.passed disk.working written.components))
    (hapart : ∀ q ∈ Disk.passed disk.working written.components, q ∉ places)
    (hwritten : disk.destination written ∈ places) (hstale : disk.destination stale ∈ places)
    (hsame : ∀ q ∈ places, disk'.entry? q = disk.entry? q) :
    ∃ folders, (∀ q ∈ folders, q ∈ Disk.passed disk.working written.components ∧
        ∀ content, disk.entry? q ≠ some (.file content)) ∧
      Disk.ActsAlike (replaceFile written stale text) folders places disk disk' := by
  have hstart := h.working_of_grown hdisk hworking hgrown
  rw [replaceFile_eq]
  cases folderOf h.ofWritten nofun with
  | refused fault _ hrefused =>
    refine ⟨[], fun q hq => absurd hq List.not_mem_nil, ?_⟩
    have hboth := Disk.actsAlike_of_unchanged (hrefused disk) (hrefused disk') hsame
    refine hboth.bind fun after after' hrun _ _ _ _ => ?_
    rw [hrefused] at hrun
    cases hrun
  | made hmade =>
    obtain ⟨next, hmake, hnext⟩ := hmade disk hdisk.working
    obtain ⟨next', hmake', hnext'⟩ := hmade disk' hstart
    obtain ⟨hobstacle, hreached⟩ := h.along_grown hdisk hworking hdescends hgrown
    have hboth : Disk.ActsAlike (makeFolderOf written) (disk.reached disk.working above) places
        disk disk' := by
      refine ⟨_, next, next', hmake, hobstacle ▸ hmake', hnext.moved, hreached ▸ hnext'.moved,
        fun q hq => ?_⟩
      rw [hnext.entries, hnext'.entries, hreached, hsame q hq]
    refine ⟨_, fun q hq => ?_, hboth.bind fun after after' hrun hrun' hmoved _ hsame' => ?_⟩
    · rw [h.passed]
      exact ⟨Disk.mem_passed_of_reached hq, Disk.ne_file_of_reached hq⟩
    · obtain ⟨hnone, rfl⟩ := DiskAction.ended_inj (hmake.symm.trans hrun)
      obtain ⟨hnone', rfl⟩ := DiskAction.ended_inj (hmake'.symm.trans hrun')
      have hfolders := Disk.folders_of_made hdisk.working hnone hnext
      have hfolders' := Disk.folders_of_made hstart hnone' hnext'
      have hsameWorking : next'.working = next.working := by
        rw [hnext'.working, hworking, hnext.working]
      rw [← h.passed] at hfolders hfolders'
      rw [hsameWorking] at hfolders'
      refine settle_alike h text hsameWorking hfolders hfolders' ?_ ?_ ?_ hsame'
      · rwa [hnext.working]
      · rwa [Disk.destination_congr hnext.working]
      · rwa [Disk.destination_congr hnext.working]

/-! ### Working on an input -/

variable {options : Options} {input : Path} {results : Outputs}

/-- **What is extracted alike is written alike**, and reported alike. -/
theorem extractAndWrite_alike (h : SideBySide above a b results.proofs results.failure)
    (hdisk : disk.IsTree) (hworking : disk'.working = disk.working)
    (hextract : extractFile options disk' input = extractFile options disk input)
    (hproofs : disk.Descends disk.working results.proofs.components)
    (hfailure : disk.Descends disk.working results.failure.components)
    (hgrown : disk.Grown disk' (Disk.passed disk.working results.proofs.components))
    (hapart : ∀ q ∈ Disk.passed disk.working results.proofs.components, q ∉ places)
    (hmem : disk.destination results.proofs ∈ places)
    (hmem' : disk.destination results.failure ∈ places)
    (hsame : ∀ q ∈ places, disk'.entry? q = disk.entry? q) :
    (extractAndWrite options results disk' input).report =
        (extractAndWrite options results disk input).report ∧
    ∃ folders, (∀ q ∈ folders, q ∈ Disk.passed disk.working results.proofs.components ∧
        ∀ content, disk.entry? q ≠ some (.file content)) ∧
      disk.Moved folders places (extractAndWrite options results disk input).disk ∧
      disk'.Moved folders places (extractAndWrite options results disk' input).disk ∧
      ∀ q ∈ places, Disk.entry? (extractAndWrite options results disk' input).disk q =
        Disk.entry? (extractAndWrite options results disk input).disk q := by
  cases hrun : extractFile options disk input with
  | ok extraction =>
    rw [hrun] at hextract
    obtain ⟨folders, hfolders, fault?, after, after', hwrite, hwrite', hmoved, hmoved', hplaces⟩ :=
      replaceFile_alike h (proofLines extraction.proofs) hdisk hworking hproofs hgrown hapart hmem
        hmem' hsame
    rw [extractAndWrite_of_ok hrun hwrite, extractAndWrite_of_ok hextract hwrite']
    exact ⟨rfl, folders, hfolders, hmoved, hmoved', hplaces⟩
  | error failure =>
    rw [hrun] at hextract
    have hpassed := h.passed_eq disk.working
    obtain ⟨folders, hfolders, fault?, after, after', hwrite, hwrite', hmoved, hmoved', hplaces⟩ :=
      replaceFile_alike h.symm (failureText input failure) hdisk hworking hfailure
        (hpassed ▸ hgrown) (hpassed ▸ hapart) hmem' hmem hsame
    rw [extractAndWrite_of_error hrun hwrite, extractAndWrite_of_error hextract hwrite']
    exact ⟨rfl, folders, fun q hq => hpassed ▸ hfolders q hq, hmoved, hmoved', hplaces⟩

end Batch

end ProofProse
