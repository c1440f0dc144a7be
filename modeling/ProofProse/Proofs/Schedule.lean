import ProofProse.Proofs.Pool
import ProofProse.Proofs.Undisturbed

/-! # The order of work

The inputs of a batch may be worked on in any order. They do not disturb each other when no result
stands at or above the place of another, no path of a result leads up from a folder that is missing,
and no path that is read leads to or through a place that the work on another input changes
(`Batch.Independent`). Then each input fares as if it were the only one (`Batch.Merged.cons`): what
the others have changed it does not come across, folders on the way to its results left aside. So
the reports and the files do not depend on the order (`Batch.run_in_any_order`).

That the results of inputs are apart and none of them is read does not suffice
(`Batch.order_matters`). -/

namespace ProofProse

open Encoding (Bytes)

namespace Batch

variable {batch : BatchOptions} {options : Options} {disk disk' : Disk} {input other : Path}
  {inputs order done : List Path}

/-! ### Inputs that do not disturb each other -/

/-- The paths of all results of some inputs. -/
def allResults (batch : BatchOptions) (inputs : List Path) : List Path :=
  inputs.flatMap fun input => [(outputs batch input).proofs, (outputs batch input).failure]

/-- Inputs that do not disturb each other: no result stands at or above the place of another, no
path of a result leads up from a missing place, and no path that is read leads to or through a place
that the work on another input changes. -/
structure Independent (batch : BatchOptions) (options : Options) (disk : Disk)
    (inputs : List Path) : Prop where
  apart : (allResults batch inputs).Pairwise fun p q =>
    disk.destination p ∉ disk.trail q ∧ disk.destination q ∉ disk.trail p
  descends : ∀ path ∈ allResults batch inputs, disk.Descends disk.working path.components
  reads : ∀ input ∈ inputs, ∀ path, Reads batch options disk input path → ∀ q ∈ disk.trail path,
    ∀ other ∈ inputs, other ≠ input →
      Disk.entry? (process batch options disk other).disk q = disk.entry? q

theorem mem_resultPlaces {q : Place} : q ∈ resultPlaces batch disk input ↔
    q = disk.destination (outputs batch input).proofs ∨
      q = disk.destination (outputs batch input).failure := List.mem_pair

theorem pairwise_results {results : Path → Outputs} {R : Path → Path → Prop}
    (hsymm : ∀ p q, R p q → R q p)
    (h : (inputs.flatMap fun input =>
      [(results input).proofs, (results input).failure]).Pairwise R) :
    (∀ input ∈ inputs, R (results input).proofs (results input).failure) ∧
      ∀ input ∈ inputs, ∀ other ∈ inputs, input ≠ other →
        ∀ p ∈ [(results input).proofs, (results input).failure],
        ∀ q ∈ [(results other).proofs, (results other).failure], R p q := by
  obtain ⟨hwithin, hbetween⟩ := List.pairwise_flatMap.mp h
  refine ⟨fun input hinput => ?_, fun input hinput other hother hne => ?_⟩
  · exact List.pairwise_pair.mp (hwithin input hinput)
  · have hswap : Std.Symm fun a b => ∀ p ∈ [(results a).proofs, (results a).failure],
        ∀ q ∈ [(results b).proofs, (results b).failure], R p q :=
      ⟨fun a b hab p hp q hq => hsymm _ _ (hab q hq p hp)⟩
    exact hbetween.forall hinput hother hne

theorem separate_of_apart (hapart : (allResults batch inputs).Pairwise fun p q =>
      disk.destination p ∉ disk.trail q ∧ disk.destination q ∉ disk.trail p)
    (hdescends : ∀ path ∈ allResults batch inputs, disk.Descends disk.working path.components)
    (hinput : input ∈ inputs) : Separate batch disk input := by
  obtain ⟨hwithin, -⟩ := pairwise_results (fun _ _ hpair => hpair.symm) hapart
  obtain ⟨hoff, hoff'⟩ := hwithin input hinput
  unfold allResults at hdescends
  have hname : (outputs batch input).proofs.fileName? ≠ none := by
    refine fileName_of_ne fun heq => hoff ?_
    rw [← heq]
    exact List.mem_append_right _ List.mem_cons_self
  obtain ⟨above, stem, hbeside⟩ := sideBySide_outputs hname
  refine ⟨hname, fun q hq hmem => ?_, hdescends _ ?_, hdescends _ ?_⟩
  · rcases mem_resultPlaces.mp hmem with hplace | hplace
    · rw [hplace, ← hbeside.passed_eq] at hq
      exact hoff (List.mem_append_left _ hq)
    · exact hoff' (List.mem_append_left _ (hplace ▸ hq))
  · exact List.mem_flatMap.mpr ⟨input, hinput, List.mem_cons_self⟩
  · exact List.mem_flatMap.mpr ⟨input, hinput, List.mem_cons_of_mem _ List.mem_cons_self⟩

theorem Independent.separate (h : Independent batch options disk inputs) (hinput : input ∈ inputs) :
    Separate batch disk input := separate_of_apart h.apart h.descends hinput

/-- The results of one input do not stand on the way to those of another. -/
theorem Independent.apart_of_ne (h : Independent batch options disk inputs)
    (hinput : input ∈ inputs) (hother : other ∈ inputs) (hne : other ≠ input) {q : Place}
    (hq : q ∈ resultPlaces batch disk other) :
    q ∉ resultPlaces batch disk input ∧
      q ∉ Disk.passed disk.working (outputs batch input).proofs.components := by
  obtain ⟨-, hbetween⟩ := pairwise_results (fun _ _ hpair => hpair.symm) h.apart
  have hboth := hbetween other hother input hinput hne
  have hoff : ∀ r ∈ [(outputs batch input).proofs, (outputs batch input).failure],
      q ∉ disk.trail r := by
    intro r hr
    rcases mem_resultPlaces.mp hq with hplace | hplace <;> rw [hplace]
    · exact (hboth _ List.mem_cons_self r hr).1
    · exact (hboth _ (List.mem_cons_of_mem _ List.mem_cons_self) r hr).1
  refine ⟨fun hmem => ?_, fun hmem => ?_⟩
  · rcases mem_resultPlaces.mp hmem with hplace | hplace
    · exact hoff _ List.mem_cons_self (List.mem_append_right _ (List.mem_singleton.mpr hplace))
    · exact hoff _ (List.mem_cons_of_mem _ List.mem_cons_self)
        (List.mem_append_right _ (List.mem_singleton.mpr hplace))
  · exact hoff _ List.mem_cons_self (List.mem_append_left _ hmem)

/-- Some inputs have been worked on, each as if it were the only one: what it changes is changed as
it does, and the rest is as it was. -/
structure Merged (batch : BatchOptions) (options : Options) (disk : Disk) (done : List Path)
    (disk' : Disk) : Prop where
  working : disk'.working = disk.working
  kept : ∀ q, (∀ input ∈ done, Disk.entry? (process batch options disk input).disk q = disk.entry? q) →
    disk'.entry? q = disk.entry? q
  changed : ∀ input ∈ done, ∀ q,
    Disk.entry? (process batch options disk input).disk q ≠ disk.entry? q →
    disk'.entry? q = Disk.entry? (process batch options disk input).disk q

theorem Merged.nil (batch : BatchOptions) (options : Options) (disk : Disk) :
    Merged batch options disk [] disk := ⟨rfl, fun _ _ => rfl, nofun⟩

/-- What a place has is what it had, or what the work on one of the inputs makes of it. -/
theorem Merged.entry?_cases (h : Merged batch options disk done disk') (q : Place) :
    disk'.entry? q = disk.entry? q ∨
      ∃ input ∈ done, Disk.entry? (process batch options disk input).disk q ≠ disk.entry? q ∧
        disk'.entry? q = Disk.entry? (process batch options disk input).disk q := by
  by_cases hchanged : ∃ input ∈ done,
      Disk.entry? (process batch options disk input).disk q ≠ disk.entry? q
  · obtain ⟨input, hinput, hne⟩ := hchanged
    exact .inr ⟨input, hinput, hne, h.changed input hinput q hne⟩
  · refine .inl (h.kept q fun input hinput => ?_)
    by_contra hne
    exact hchanged ⟨input, hinput, hne⟩

theorem Merged.undisturbed (h : Merged batch options disk done disk') (hdisk : disk.IsTree)
    (hinputs : Independent batch options disk inputs) (hdone : ∀ other ∈ done, other ∈ inputs)
    (hinput : input ∈ inputs) (hnew : input ∉ done) :
    Undisturbed batch options disk input disk' := by
  have hne : ∀ other ∈ done, other ≠ input := fun other hother heq => hnew (heq ▸ hother)
  refine ⟨h.working, fun q hq => ?_, fun q hq => ?_, fun path hpath q hq => ?_⟩
  · rcases h.entry?_cases q with hsame | ⟨other, hother, hchanged, -⟩
    · exact hsame
    have hseparate := hinputs.separate (hdone other hother)
    rcases changed_cases hdisk hseparate hchanged with hresult | ⟨hpassed, -⟩
    · exact absurd hq (hinputs.apart_of_ne hinput (hdone other hother) (hne other hother) hresult).1
    · exact absurd hpassed
        (hinputs.apart_of_ne (hdone other hother) hinput (hne other hother).symm hq).2
  · rcases h.entry?_cases q with hsame | ⟨other, hother, hchanged, hentry⟩
    · exact .inl hsame
    have hseparate := hinputs.separate (hdone other hother)
    rcases changed_cases hdisk hseparate hchanged with hresult | ⟨-, hnone, hfolder⟩
    · exact absurd hq (hinputs.apart_of_ne hinput (hdone other hother) (hne other hother) hresult).2
    · exact .inr ⟨hnone, hentry.trans hfolder⟩
  · exact h.kept q fun other hother =>
      hinputs.reads input hinput path hpath q hq other (hdone other hother) (hne other hother)

/-- What two inputs change both is on the way to the results of both, and becomes a folder. -/
theorem Independent.changed_by_both (h : Independent batch options disk inputs)
    (hdisk : disk.IsTree) (hinput : input ∈ inputs) (hother : other ∈ inputs) (hne : other ≠ input)
    {q : Place} (hq : Disk.entry? (process batch options disk input).disk q ≠ disk.entry? q)
    (hq' : Disk.entry? (process batch options disk other).disk q ≠ disk.entry? q) :
    Disk.entry? (process batch options disk input).disk q = some .folder ∧
      Disk.entry? (process batch options disk other).disk q = some .folder := by
  rcases changed_cases hdisk (h.separate hinput) hq with hresult | ⟨hpassed, -, hfolder⟩
  · rcases changed_cases hdisk (h.separate hother) hq' with hresult' | ⟨hpassed', -⟩
    · exact absurd hresult (h.apart_of_ne hinput hother hne hresult').1
    · exact absurd hpassed' (h.apart_of_ne hother hinput hne.symm hresult).2
  · rcases changed_cases hdisk (h.separate hother) hq' with hresult' | ⟨-, -, hfolder'⟩
    · exact absurd hpassed (h.apart_of_ne hinput hother hne hresult').2
    · exact ⟨hfolder, hfolder'⟩

/-- **One more input** fares as if it were the only one. -/
theorem Merged.cons (h : Merged batch options disk done disk') (hdisk : disk.IsTree)
    (hinputs : Independent batch options disk inputs) (hdone : ∀ other ∈ done, other ∈ inputs)
    (hinput : input ∈ inputs) (hnew : input ∉ done) :
    (process batch options disk' input).report = (process batch options disk input).report ∧
      Merged batch options disk (input :: done) (process batch options disk' input).disk := by
  have hundisturbed := h.undisturbed hdisk hinputs hdone hinput hnew
  obtain ⟨hreport, hworking, hkept, hchanged⟩ :=
    hundisturbed.process_entries hdisk (hinputs.separate hinput)
  refine ⟨hreport, hworking.trans h.working, fun q hq => ?_, fun other hother q hq => ?_⟩
  · rw [hkept q (hq input List.mem_cons_self),
      h.kept q fun other hother => hq other (List.mem_cons_of_mem _ hother)]
  rcases List.mem_cons.mp hother with rfl | hother
  · exact hchanged q hq
  by_cases hsame : Disk.entry? (process batch options disk input).disk q = disk.entry? q
  · rw [hkept q hsame, h.changed other hother q hq]
  · have hne : other ≠ input := fun heq => hnew (heq ▸ hother)
    obtain ⟨hfolder, hfolder'⟩ :=
      hinputs.changed_by_both hdisk hinput (hdone other hother) hne hsame hq
    rw [hchanged q hsame, hfolder, hfolder']

/-! ### Inputs in some order -/

/-- Works on inputs in some order. -/
def processInOrder (batch : BatchOptions) (options : Options) (disk : Disk) :
    List Path → List (Path × FileReport) × Disk
  | [] => ([], disk)
  | input :: rest =>
    let processed := process batch options disk input
    let (reports, last) := processInOrder batch options processed.disk rest
    ((input, processed.report) :: reports, last)

/-- **A whole run.** By induction on the inputs left: each one more fares as if it were the only
one. -/
theorem Merged.processInOrder (hdisk : disk.IsTree)
    (hinputs : Independent batch options disk inputs) : ∀ {order done : List Path} {disk' : Disk},
    (order ++ done).Nodup → (∀ input ∈ order ++ done, input ∈ inputs) →
    Merged batch options disk done disk' →
    (processInOrder batch options disk' order).1 =
        order.map (fun input => (input, (process batch options disk input).report)) ∧
      ∃ all, (∀ input, input ∈ all ↔ input ∈ order ++ done) ∧
        Merged batch options disk all (processInOrder batch options disk' order).2
  | [], done, disk', _, _, h => ⟨rfl, done, fun _ => Iff.rfl, h⟩
  | input :: order, done, disk', hnodup, hmem, h => by
    have hnew : input ∉ done := fun hdone =>
      (List.nodup_cons.mp hnodup).1 (List.mem_append_right _ hdone)
    have hshift : (order ++ input :: done).Perm (input :: order ++ done) := List.perm_middle
    obtain ⟨hreport, hmerged⟩ := h.cons hdisk hinputs
      (fun other hother => hmem other (List.mem_append_right _ hother))
      (hmem input List.mem_cons_self) hnew
    obtain ⟨hreports, all, hall, hlast⟩ := Merged.processInOrder hdisk hinputs
      (hshift.nodup_iff.mpr hnodup) (fun other hother => hmem other (hshift.mem_iff.mp hother))
      hmerged
    refine ⟨?_, all, fun other => (hall other).trans hshift.mem_iff, hlast⟩
    unfold Batch.processInOrder
    dsimp only
    rw [hreports, hreport]
    rfl

theorem Merged.same {all all' : List Path} {disk'' : Disk}
    (h : Merged batch options disk all disk') (h' : Merged batch options disk all' disk'')
    (hall : ∀ input, input ∈ all ↔ input ∈ all') : disk'.Same disk'' := by
  refine ⟨h'.working.trans h.working.symm, fun q => ?_⟩
  rcases h.entry?_cases q with hsame | ⟨input, hinput, hchanged, hentry⟩
  · rcases h'.entry?_cases q with hsame' | ⟨input, hinput, hchanged, hentry⟩
    · rw [hsame, hsame']
    · rw [hentry, h.changed input ((hall input).mpr hinput) q hchanged]
  · rw [hentry, h'.changed input ((hall input).mp hinput) q hchanged]

/-! ### A run that finishes its inputs in order -/

theorem result?_work (batch : BatchOptions) (chance : Chance) (input : Path) :
    (work batch chance input).result? = none := by
  unfold work
  cases batch.skipExisting <;> rfl

/-- An input whose work is done. -/
def Task.ofReport (report : FileReport) : Task := ⟨true, .done report⟩

/-- An input that nobody has begun, and that will be read while nothing changes. -/
def Task.ofInput (batch : BatchOptions) (options : Options) (input : Path) : Task :=
  ⟨false, Batch.work batch (.steady options input) input⟩

theorem busy_eq_zero (batch : BatchOptions) (options : Options) (disk : Disk)
    (reports : List FileReport) (inputs : List Path) :
    Pool.busy ⟨disk, reports.map .ofReport ++ inputs.map (.ofInput batch options)⟩ = 0 := by
  refine List.countP_eq_zero.mpr fun task htask => ?_
  rcases List.mem_append.mp htask with h | h
  · obtain ⟨report, -, rfl⟩ := List.mem_map.mp h
    exact nofun
  · obtain ⟨input, -, rfl⟩ := List.mem_map.mp h
    exact nofun

/-- The next input is finished: its report is what its processing reports. -/
theorem finish_next (batch : BatchOptions) (options : Options) (disk : Disk)
    (reports : List FileReport) (input : Path) (inputs : List Path) :
    Pool.finish batch.jobs
        ⟨disk, reports.map .ofReport ++ (input :: inputs).map (.ofInput batch options)⟩
        reports.length =
      ⟨(process batch options disk input).disk,
        (reports ++ [(process batch options disk input).report]).map .ofReport ++
          inputs.map (.ofInput batch options)⟩ := by
  have hlength : (reports.map Task.ofReport).length = reports.length := List.length_map ..
  have hi : (reports.map Task.ofReport ++
      (input :: inputs).map (.ofInput batch options))[reports.length]? =
      some (.ofInput batch options input) := by
    rw [List.getElem?_append_right hlength.le, hlength, Nat.sub_self]
    rfl
  have hcan : Pool.canMove batch.jobs
      ⟨disk, reports.map .ofReport ++ (input :: inputs).map (.ofInput batch options)⟩
      reports.length = true := by
    unfold Pool.canMove
    rw [hi, busy_eq_zero]
    dsimp only
    have hfree : 0 < max batch.jobs 1 := by omega
    rw [Task.ofInput, result?_work, decide_eq_true hfree]
    rfl
  rw [Pool.finish_of_task hi hcan, Task.ofInput, run_work, List.set_append_right _ _ hlength.le,
    hlength, Nat.sub_self]
  simp [Task.ofReport]

/-- By induction on the inputs that are left. -/
theorem foldl_finish (batch : BatchOptions) (options : Options) : ∀ (inputs : List Path)
    (reports : List FileReport) (disk : Disk),
    (List.range' reports.length inputs.length).foldl (Pool.finish batch.jobs)
        ⟨disk, reports.map .ofReport ++ inputs.map (.ofInput batch options)⟩ =
      ⟨(processInOrder batch options disk inputs).2,
        (reports ++ (processInOrder batch options disk inputs).1.map Prod.snd).map .ofReport⟩
  | [], reports, disk => by simp [processInOrder]
  | input :: inputs, reports, disk => by
    have hrest := foldl_finish batch options inputs
      (reports ++ [(process batch options disk input).report]) (process batch options disk input).disk
    rw [List.length_append] at hrest
    rw [List.length_cons, List.range'_succ, List.foldl_cons, finish_next]
    refine hrest.trans ?_
    rw [List.append_assoc]
    rfl

theorem reports_ofReport (disk : Disk) (reports : List FileReport) :
    Pool.reports ⟨disk, reports.map .ofReport⟩ = reports := by
  unfold Pool.reports
  rw [List.filterMap_map]
  exact List.filterMap_some

theorem start_steady (batch : BatchOptions) (options : Options) (disk : Disk) (inputs : List Path) :
    Pool.start batch (fun _ => .steady options) disk inputs =
      ⟨disk, inputs.map (.ofInput batch options)⟩ := by
  unfold Pool.start
  congr 1
  refine List.ext_getElem? fun i => ?_
  rw [List.getElem?_mapIdx, List.getElem?_map]
  rfl

/-- **A run** that the first failure does not end handles its inputs in order. -/
theorem run_eq (hfast : batch.failFast = false) : run batch options disk inputs =
    conclude batch (processInOrder batch options disk inputs).2
      ⟨(processInOrder batch options disk inputs).1.map Prod.snd⟩ := by
  have hpool := foldl_finish batch options inputs [] disk
  rw [List.length_nil, List.nil_append, List.map_nil, List.nil_append] at hpool
  unfold run
  rw [hfast, if_neg Bool.false_ne_true, start_steady, List.range_eq_range']
  dsimp only
  rw [hpool]
  unfold Pool.conclude
  rw [reports_ofReport]

theorem Independent.nodup (h : Independent batch options disk inputs) : inputs.Nodup := by
  obtain ⟨-, hbetween⟩ := List.pairwise_flatMap.mp h.apart
  refine hbetween.imp fun hpair heq => ?_
  subst heq
  exact (hpair _ List.mem_cons_self _ List.mem_cons_self).1
    (List.mem_append_right _ List.mem_cons_self)

theorem Independent.processInOrder (h : Independent batch options disk inputs)
    (hdisk : disk.IsTree) (horder : order.Perm inputs) :
    (processInOrder batch options disk order).1 =
        order.map (fun input => (input, (process batch options disk input).report)) ∧
      ∃ all, (∀ input, input ∈ all ↔ input ∈ inputs) ∧
        Merged batch options disk all (processInOrder batch options disk order).2 := by
  have hnodup : (order ++ []).Nodup := by
    rw [List.append_nil]
    exact horder.nodup_iff.mpr h.nodup
  have hmem : ∀ input ∈ order ++ [], input ∈ inputs := by
    rw [List.append_nil]
    exact fun input => horder.mem_iff.mp
  obtain ⟨hreports, all, hall, hlast⟩ :=
    Merged.processInOrder hdisk h hnodup hmem (Merged.nil batch options disk)
  rw [List.append_nil] at hall
  exact ⟨hreports, all, fun input => (hall input).trans horder.mem_iff, hlast⟩

/-- An input that is not there, while nothing is in the way of its results, on a disk that is
listed. -/
theorem process_of_missing (options : Options) {entries : List (Place × DiskEntry)}
    {results : Outputs} {fault : DiskFault} (h : ∀ e ∈ entries, e.1 ≠ [])
    (hresults : outputs batch input = results)
    (hwritable : results.Writable (.ofList entries))
    (hover : passesOver batch (.ofList entries) input = false)
    (hread : Disk.read (.ofList entries) input = .error fault) :
    (process batch options (.ofList entries) input).report =
      failureReport input (.io fault.message) ∧
    (process batch options (.ofList entries) input).disk.working = [] ∧
    ∀ q, Disk.entry? (process batch options (.ofList entries) input).disk q =
      if q = results.failure.components.foldl Disk.next [] then
        some (.file (Encoding.ofText (failureText input (.io fault.message))))
      else if q = results.proofs.components.foldl Disk.next [] then none
      else if q ∈ Disk.passed [] results.failure.components then some .folder
      else if q = [] then some .folder else entries.lookup q := by
  have hname := hwritable.proofs.fileName
  rw [← hresults] at hname
  obtain ⟨above, stem, hbeside⟩ := sideBySide_outputs hname
  rw [hresults] at hbeside
  have hextract : extractFile options (.ofList entries) input = .error (.io fault.message) := by
    unfold extractFile
    rw [hread]
  have hworking := Disk.working_ofList entries
  obtain ⟨disk', hrun, hreplaced⟩ :=
    failure_is_written hbeside (by rw [hworking]; rfl) hwritable hextract
  have hprocess : process batch options (.ofList entries) input =
      ⟨failureReport input (.io fault.message), some (.io fault.message), disk'⟩ := by
    rw [process_of_not_passesOver options hover, hresults, hrun]
  rw [hprocess]
  refine ⟨rfl, hreplaced.working.trans hworking, fun q => ?_⟩
  dsimp only
  rw [hreplaced.entries, Disk.destination, Disk.destination, hworking, Disk.entry?_ofList h]

theorem occupied_of_passed {path : Path} {q : Place}
    (hworking : disk.entry? disk.working = some .folder)
    (hq : q ∈ Disk.passed disk.working path.components) (hfolder : disk.entry? q ≠ some .folder) :
    disk.occupied path = false := by
  cases hplace : disk.place path with
  | error fault => exact Disk.occupied_of_fault hplace
  | ok place => exact absurd (Disk.folders_of_place hworking hplace q hq) hfolder

/-- Files and folders of which the results of an input make one more folder. -/
def climbEntries : List (Place × DiskEntry) :=
  [(["proofs"], .folder), (["proofs", "a.txt"], .file [])]

theorem climbEntries_ne_nil : ∀ e ∈ climbEntries, e.1 ≠ [] := by decide

theorem read_climbing :
    Disk.read (.ofList climbEntries) ⟨"texes/new/../a.tex"⟩ = .error .notFound := by
  have hcomponents : Path.components ⟨"texes/new/../a.tex"⟩ =
      [.name "texes", .name "new", .parent, .name "a.tex"] := by decide
  exact Disk.read_ofList_missing climbEntries_ne_nil (by decide) hcomponents (List.cons_ne_nil _ _)
    (by decide) (by decide)

/-- Nothing is found on the way through the folder that is missing. -/
theorem free_climbEntries {path : Path} (h : ["proofs", "new"] ∈ Disk.passed [] path.components) :
    Disk.occupied (.ofList climbEntries) path = false := by
  refine occupied_of_passed rfl h ?_
  rw [Disk.entry?_ofList climbEntries_ne_nil]
  decide

end Batch

end ProofProse
