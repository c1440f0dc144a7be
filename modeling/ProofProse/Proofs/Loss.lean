import ProofProse.Proofs.Schedule
import ProofProse.Proofs.Turns

/-! # Results that are lost

Two workers may take away the results of each other, if their inputs have the same ones: both look for
a result in vain, then each writes one of the two, and then each takes the other one away
(`Batch.exists_loss`). -/

namespace ProofProse

namespace Batch

variable {batch : BatchOptions} {options : Options} {disk disk' : Disk} {path : Path} {pool : Pool}
  {place p q : Place}

/-! ### Places for results -/

theorem makeFolderOf_of_isFolder {above : Path} (habove : path.parent? = some above)
    (hfolder : disk.isFolder above = true) : makeFolderOf path disk = .ok () disk := by
  have hmake : ∃ fault, disk.makeFolder above = .error fault := by
    cases hplace : disk.place above with
    | error fault => exact ⟨fault, Disk.makeFolder_of_fault hplace⟩
    | ok place =>
      rw [Disk.makeFolder_of_place hplace, (Disk.isFolder_of_place hplace).mp hfolder]
      exact ⟨_, rfl⟩
  obtain ⟨fault, hmake⟩ := hmake
  have hensure : Disk.ensureFolder above disk = .ok () disk := by
    unfold Disk.ensureFolder
    rw [hmake, hfolder]
    rfl
  unfold makeFolderOf
  rw [habove]
  dsimp only
  split
  · rfl
  · next hempty =>
    unfold Disk.makeFolders
    rw [makeFoldersWithin_succ hempty, hensure]

/-- Nothing stands where a path leads to, and a file can be put there. -/
structure IsFree (disk : Disk) (path : Path) (place : Place) : Prop where
  leads : disk.place path = .ok place
  asks : Disk.asksFolder path = false
  free : disk.entry? place = none
  folder : makeFolderOf path disk = .ok () disk

theorem IsFree.ne_nil (h : IsFree disk path place) : place ≠ [] :=
  Disk.ne_nil_of_entry (by rw [h.free]; exact nofun)

/-- Two disks differ only at places where nothing stands on the first one. -/
structure DiffersAt (p q : Place) (disk disk' : Disk) : Prop where
  working : disk'.working = disk.working
  entries : ∀ r, r ≠ p → r ≠ q → disk'.entry? r = disk.entry? r

theorem DiffersAt.put (h : DiffersAt p q disk disk') (hplace : place = p ∨ place = q)
    (hne : place ≠ []) (content : Encoding.Bytes) :
    DiffersAt p q disk (disk'.putFile place content) := by
  refine ⟨(Disk.working_putFile disk' hne content).trans h.working, fun r hp hq => ?_⟩
  rw [Disk.entry?_putFile disk' hne, if_neg ?_, h.entries r hp hq]
  rintro rfl
  exact hplace.elim hp hq

theorem DiffersAt.erase (h : DiffersAt p q disk disk') (hplace : place = p ∨ place = q)
    (hne : place ≠ []) : DiffersAt p q disk (disk'.erase place) := by
  refine ⟨h.working, fun r hp hq => ?_⟩
  rw [Disk.entry?_erase hne, if_neg ?_, h.entries r hp hq]
  rintro rfl
  exact hplace.elim hp hq

/-- The paths of two results lead to them whether they are there or not. -/
theorem IsFree.place_eq (h : IsFree disk path place) (hdisk : disk.IsTree)
    (hp : disk.entry? p = none) (hq : disk.entry? q = none) (hdiffers : DiffersAt p q disk disk') :
    disk'.place path = .ok place := by
  refine (Disk.place_congr hdiffers.working fun r hr => ?_).trans h.leads
  have hfolder := Disk.folders_of_place hdisk.working h.leads r hr
  refine hdiffers.entries r ?_ ?_
  · rintro rfl
    rw [hp] at hfolder
    cases hfolder
  · rintro rfl
    rw [hq] at hfolder
    cases hfolder

theorem write_of_none {content : Encoding.Bytes} (hplace : disk.place path = .ok place)
    (hasks : Disk.asksFolder path = false) (hfree : disk.entry? place = none) :
    DiskAction.ofChange (·.write path content) disk = .ok () (disk.putFile place content) := by
  have hnone : disk.entry? place ≠ some .folder := by
    rw [hfree]
    exact nofun
  unfold DiskAction.ofChange
  dsimp only
  rw [Disk.write_of_place hplace hasks, if_neg hnone]

theorem occupied_of_file {content : Encoding.Bytes} (hplace : disk.place path = .ok place)
    (hasks : Disk.asksFolder path = false) (hfile : disk.entry? place = some (.file content)) :
    disk.occupied path = true := by
  refine (Disk.occupied_iff_of_place hplace).mpr (.inr ⟨?_, hasks⟩)
  rw [hfile]
  exact nofun

theorem free_of_none (hplace : disk.place path = .ok place) (hfree : disk.entry? place = none) :
    disk.occupied path = false := by
  refine Disk.occupied_of_missing ?_
  rwa [← (Disk.eq_destination hplace).1]

theorem removeStale_of_file {content : Encoding.Bytes} (hplace : disk.place path = .ok place)
    (hasks : Disk.asksFolder path = false) (hfile : disk.entry? place = some (.file content)) :
    removeStale path disk = .ok () (disk.erase place) := by
  rw [removeStale_of_place hplace hasks, hfile]
  rfl

/-! ### Two workers -/

theorem reaches_looks {begun : Bool} {i jobs : Nat} {chance : Chance} {input : Path}
    (hskip : batch.skipExisting = true)
    (hi : pool.tasks[i]? = some ⟨begun, work batch chance input⟩)
    (hcan : pool.canMove jobs i = true)
    (hproofs : pool.disk.occupied (outputs batch input).proofs = false)
    (hfailure : pool.disk.occupied (outputs batch input).failure = false) :
    pool.Reaches jobs ⟨pool.disk, pool.tasks.set i
      ⟨true, resultWork chance (outputs batch input) input (chance.extract pool.disk)⟩⟩ := by
  have hlength := (List.getElem?_eq_some_iff.mp hi).1
  have hset : ∀ task, (pool.tasks.set i task)[i]? = some task := fun task =>
    List.getElem?_set_self hlength
  have hgo : ∀ (left : Work FileReport), left.result? = none →
      Pool.canMove jobs ⟨pool.disk, pool.tasks.set i ⟨true, left⟩⟩ i = true := by
    intro left hleft
    unfold Pool.canMove
    rw [hset]
    dsimp only
    rw [hleft]
    rfl
  rw [work_eq hskip] at hi
  have hfirst := Pool.reaches_step hi hcan
  rw [hproofs, if_neg Bool.false_ne_true] at hfirst
  have hsecond := Pool.reaches_step (hset ⟨true, secondLook batch chance input⟩) (hgo _ rfl)
  dsimp only at hsecond
  rw [hfailure, if_neg Bool.false_ne_true, List.set_set] at hsecond
  have hthird := Pool.reaches_step (hset ⟨true, .step id fun third =>
    resultWork chance (outputs batch input) input (chance.extract third)⟩) (hgo _ rfl)
  rw [List.set_set] at hthird
  exact (hfirst.trans hsecond).trans hthird

theorem canMove_of_fresh {i jobs : Nat} {chance : Chance} {input : Path}
    (hi : pool.tasks[i]? = some ⟨false, work batch chance input⟩) (hfree : pool.busy < max jobs 1) :
    pool.canMove jobs i = true := by
  unfold Pool.canMove
  rw [hi]
  dsimp only
  rw [result?_work, decide_eq_true hfree]
  rfl

section TwoInputs

variable {α β : Type} {jobs : Nat} {a : α} {work : ExceptT DiskFault Work α} {action : DiskAction α}
  {more : α → ExceptT DiskFault Work β} {last : Except DiskFault β → Work FileReport} {task : Task}

theorem reaches_first (hcarries : Work.CarriesOut work action) (haction : action disk = .ok a disk') :
    Pool.Reaches jobs ⟨disk, [⟨true, Work.bind (work >>= more).run last⟩, task]⟩
      ⟨disk', [⟨true, Work.bind (more a).run last⟩, task]⟩ :=
  Pool.reaches_part (i := 0) hcarries rfl haction

theorem reaches_second (hcarries : Work.CarriesOut work action) (haction : action disk = .ok a disk') :
    Pool.Reaches jobs ⟨disk, [task, ⟨true, Work.bind (work >>= more).run last⟩]⟩
      ⟨disk', [task, ⟨true, Work.bind (more a).run last⟩]⟩ :=
  Pool.reaches_part (i := 1) hcarries rfl haction

end TwoInputs

theorem reaches_extracted (hskip : batch.skipExisting = true) (hjobs : 2 ≤ batch.jobs) {a b : Path}
    {results : Outputs} (ha : outputs batch a = results) (hb : outputs batch b = results)
    (hproofs : disk.occupied results.proofs = false)
    (hfailure : disk.occupied results.failure = false) {first second : Except Failure Extraction}
    (hfirst : extractFile options disk a = first) (hsecond : extractFile options disk b = second) :
    Pool.Reaches batch.jobs (.start batch (fun _ => .steady options) disk [a, b])
      ⟨disk, [⟨true, resultWork (.steady options a) results a first⟩,
        ⟨true, resultWork (.steady options b) results b second⟩]⟩ := by
  have hlooks : Pool.Reaches batch.jobs (.start batch (fun _ => .steady options) disk [a, b])
      ⟨disk, [⟨true, resultWork (.steady options a) results a first⟩,
        ⟨false, work batch (.steady options b) b⟩]⟩ := by
    rw [← hfirst, ← ha]
    refine reaches_looks hskip (i := 0) rfl (canMove_of_fresh rfl ?_) (ha ▸ hproofs) (ha ▸ hfailure)
    rw [(Pool.isFresh_start batch _ disk [a, b]).busy_eq_zero]
    omega
  refine hlooks.trans ?_
  rw [← hsecond, ← hb]
  refine reaches_looks hskip (i := 1) rfl (canMove_of_fresh rfl ?_) (hb ▸ hproofs) (hb ▸ hfailure)
  have hbusy : ∀ task, Pool.busy ⟨disk, [task, ⟨false, work batch (.steady options b) b⟩]⟩ ≤ 1 := by
    intro task
    have hother : List.countP Task.isUnderWay [⟨false, work batch (.steady options b) b⟩] = 0 := rfl
    unfold Pool.busy
    rw [List.countP_cons, hother]
    split <;> decide
  exact (hbusy _).trans_lt (by omega)

theorem exists_disks_of_isFree {written stale : Path} (hdisk : disk.IsTree) (hp : IsFree disk written p)
    (hq : IsFree disk stale q) (hne : p ≠ q) (content content' : Encoding.Bytes) :
    ∃ disk₁ disk₂ disk₃ disk₄ : Disk,
      DiskAction.ofChange (·.write written content) disk = .ok () disk₁ ∧
      DiskAction.ofChange (·.write stale content') disk₁ = .ok () disk₂ ∧
      removeStale stale disk₂ = .ok () disk₃ ∧ removeStale written disk₃ = .ok () disk₄ ∧
      disk₂.occupied written = true ∧ disk₂.occupied stale = true ∧
      disk₄.occupied written = false ∧ disk₄.occupied stale = false := by
  have hdiffers₁ : DiffersAt p q disk (disk.putFile p content) :=
    DiffersAt.put ⟨rfl, fun _ _ _ => rfl⟩ (.inl rfl) hp.ne_nil content
  generalize hdisk₁ : disk.putFile p content = disk₁ at hdiffers₁
  have hentry₁ : ∀ r, disk₁.entry? r = if r = p then some (.file content) else disk.entry? r := by
    rw [← hdisk₁]
    exact Disk.entry?_putFile disk hp.ne_nil content
  have hdiffers₂ := hdiffers₁.put (.inr rfl) hq.ne_nil content'
  generalize hdisk₂ : disk₁.putFile q content' = disk₂ at hdiffers₂
  have hentry₂ : ∀ r, disk₂.entry? r = if r = q then some (.file content') else disk₁.entry? r := by
    rw [← hdisk₂]
    exact Disk.entry?_putFile disk₁ hq.ne_nil content'
  have hdiffers₃ := hdiffers₂.erase (.inr rfl) hq.ne_nil
  generalize hdisk₃ : disk₂.erase q = disk₃ at hdiffers₃
  have hentry₃ : ∀ r, disk₃.entry? r = if r = q then none else disk₂.entry? r := by
    rw [← hdisk₃]
    exact Disk.entry?_erase hq.ne_nil
  have hdiffers₄ := hdiffers₃.erase (.inl rfl) hp.ne_nil
  have hplace : ∀ {disk'}, DiffersAt p q disk disk' →
      disk'.place written = .ok p ∧ disk'.place stale = .ok q := fun hdiffers =>
    ⟨hp.place_eq hdisk hp.free hq.free hdiffers, hq.place_eq hdisk hp.free hq.free hdiffers⟩
  have hfile : disk₂.entry? p = some (.file content) := by
    rw [hentry₂, if_neg hne, hentry₁, if_pos rfl]
  have hfile' : disk₂.entry? q = some (.file content') := by
    rw [hentry₂, if_pos rfl]
  refine ⟨disk₁, disk₂, disk₃, disk₃.erase p, ?_, ?_, ?_, ?_, ?_, ?_, ?_, ?_⟩
  · rw [← hdisk₁]
    exact write_of_none hp.leads hp.asks hp.free
  · rw [← hdisk₂]
    refine write_of_none (hplace hdiffers₁).2 hq.asks ?_
    rw [hentry₁, if_neg hne.symm, hq.free]
  · rw [← hdisk₃]
    exact removeStale_of_file (hplace hdiffers₂).2 hq.asks hfile'
  · have hkept : disk₃.entry? p = some (.file content) := by
      rw [hentry₃, if_neg hne, hfile]
    exact removeStale_of_file (hplace hdiffers₃).1 hp.asks hkept
  · exact occupied_of_file (hplace hdiffers₂).1 hp.asks hfile
  · exact occupied_of_file (hplace hdiffers₂).2 hq.asks hfile'
  · refine free_of_none (hplace hdiffers₄).1 ?_
    rw [Disk.entry?_erase hp.ne_nil, if_pos rfl]
  · refine free_of_none (hplace hdiffers₄).2 ?_
    rw [Disk.entry?_erase hp.ne_nil, if_neg hne.symm, hentry₃, if_pos rfl]

/-- **Two inputs with the same results** may lose them: both look in vain, then each writes its own
result, and then each takes the other one away. -/
theorem exists_loss (hdisk : disk.IsTree) (hskip : batch.skipExisting = true)
    (hjobs : 2 ≤ batch.jobs) {a b : Path} {results : Outputs} (ha : outputs batch a = results)
    (hb : outputs batch b = results) (hproofs : IsFree disk results.proofs p)
    (hfailure : IsFree disk results.failure q) (hne : p ≠ q) {extraction : Extraction}
    {failure : Failure} (hextract : extractFile options disk a = .ok extraction)
    (hfail : extractFile options disk b = .error failure) :
    ∃ middle last,
      Pool.Reaches batch.jobs (.start batch (fun _ => .steady options) disk [a, b]) middle ∧
      middle.Reaches batch.jobs last ∧
      middle.disk.occupied results.proofs = true ∧ middle.disk.occupied results.failure = true ∧
      last.disk.occupied results.proofs = false ∧ last.disk.occupied results.failure = false ∧
      last.IsOver ∧ last.reports = [successReport a extraction, failureReport b failure] := by
  have hextracted := reaches_extracted hskip hjobs ha hb (free_of_none hproofs.leads hproofs.free)
    (free_of_none hfailure.leads hfailure.free) hextract hfail
  obtain ⟨disk₁, disk₂, disk₃, disk₄, hwrite, hwrite', hremove, hremove', hfound, hfound', hgone,
    hgone'⟩ := exists_disks_of_isFree hdisk hproofs hfailure hne
      (Encoding.ofText (proofLines extraction.proofs)) (Encoding.ofText (failureText b failure))
  rw [resultWork, resultWork] at hextracted
  have hfolder := hextracted.trans
    (reaches_first (carriesOut_makeFolderOfWork results.proofs) hproofs.folder)
  have hfolder' := hfolder.trans
    (reaches_second (carriesOut_makeFolderOfWork results.failure) hfailure.folder)
  have hwritten := hfolder'.trans (reaches_first (carriesOut_writeFileWork options a _ _) hwrite)
  have hwritten' := hwritten.trans (reaches_second (carriesOut_writeFileWork options b _ _) hwrite')
  refine ⟨_, _, hwritten', (Pool.reaches_end (i := 0) (Work.carriesOut_once _) rfl hremove).trans
    (Pool.reaches_end (i := 1) (Work.carriesOut_once _) rfl hremove'), hfound, hfound', hgone, hgone',
    ?_, rfl⟩
  intro task htask
  rcases List.mem_pair.mp htask with rfl | rfl <;> rfl

end Batch

end ProofProse
