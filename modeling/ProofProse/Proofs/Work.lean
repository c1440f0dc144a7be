import ProofProse.Batch
import ProofProse.Proofs.Folders

/-! # Work that nobody interrupts

Work that is done in one go carries out an action (`Work.CarriesOut`), and work in sequence carries
out the actions of its parts in sequence. So the work on an input comes to what its processing comes
to, while nobody else changes the disk (`Batch.run_work`). -/

namespace ProofProse

open Encoding (Bytes)

namespace Work

variable {α β : Type} {first second : DiskAction α}

/-- By induction on the work in front. -/
instance : LawfulMonad Work := by
  refine LawfulMonad.mk' Work (fun work => ?_) (fun _ _ => rfl) fun work more last => ?_
  · show work.bind _ = work
    induction work with
    | done result => rfl
    | step change next ih => exact congrArg (step change) (funext ih)
  · show (work.bind more).bind last = work.bind fun a => (more a).bind last
    induction work with
    | done result => rfl
    | step change next ih => exact congrArg (step change) (funext ih)

theorem run_bind (work : Work α) (more : α → Work β) (disk : Disk) :
    (work >>= more).run disk = (more (work.run disk).1).run (work.run disk).2 := by
  show (work.bind more).run disk = _
  induction work generalizing disk with
  | done result => rfl
  | step change next ih => exact ih disk (change disk)

/-- Work in one go comes to what an action comes to. -/
def CarriesOut (work : ExceptT DiskFault Work α) (action : DiskAction α) : Prop :=
  ∀ disk, Work.run work.run disk = action.on disk

theorem carriesOut_pure (a : α) : CarriesOut (pure a) (pure a) := fun _ => rfl

theorem carriesOut_once (action : DiskAction α) : CarriesOut (once action) action := fun _ => rfl

theorem CarriesOut.bind {work : ExceptT DiskFault Work α} {action : DiskAction α}
    {more : α → ExceptT DiskFault Work β} {next : α → DiskAction β} (h : CarriesOut work action)
    (hmore : ∀ a, CarriesOut (more a) (next a)) :
    CarriesOut (work >>= more) (action >>= next) := by
  intro disk
  show Work.run (work.run >>= ExceptT.bindCont more) disk =
    DiskAction.on (EStateM.bind action next) disk
  rw [run_bind, h disk]
  unfold DiskAction.on EStateM.bind
  cases action disk with
  | ok a disk => exact hmore a disk
  | error fault disk => rfl

theorem CarriesOut.tryCatch {work : ExceptT DiskFault Work α} {action last : DiskAction α}
    {handle : DiskFault → ExceptT DiskFault Work α} (h : CarriesOut work action)
    (hok : ∀ {disk a disk'}, action disk = .ok a disk' → last disk = .ok a disk')
    (herror : ∀ {disk fault disk'}, action disk = .error fault disk' →
      Work.run (handle fault).run disk' = last.on disk) :
    CarriesOut (tryCatch work handle) last := by
  intro disk
  show Work.run (Bind.bind work.run _) disk = _
  rw [run_bind, h disk]
  unfold DiskAction.on
  cases haction : action disk with
  | ok a disk' =>
    rw [hok haction]
    rfl
  | error fault disk' => exact herror haction

/-! ### What is left of work -/

/-- What is left of work behind operations that have found some disks. -/
def after : Work α → List Disk → Work α
  | work, [] => work
  | done result, _ :: _ => done result
  | step _ next, disk :: disks => (next disk).after disks

theorem after_nil (work : Work α) : work.after [] = work := by
  cases work <;> rfl

theorem after_done (result : α) : ∀ disks : List Disk, (done result).after disks = done result
  | [] => rfl
  | _ :: _ => rfl

theorem after_append (work : Work α) (disks rest : List Disk) :
    work.after (disks ++ rest) = (work.after disks).after rest := by
  induction disks generalizing work with
  | nil => rw [List.nil_append, after_nil]
  | cons disk disks ih =>
    cases work with
    | done result => rw [List.cons_append, after_done, after_done, after_done]
    | step change next => exact ih (next disk)

/-! ### What operations may do -/

variable {I : Disk → Prop} {R L : Disk → Disk → Prop} {P : α → Prop} {Q : β → Prop}

/-- Each operation of some work, on a disk of a kind, changes the disk in one of two ways, the second
of which only the last one may. What the work comes to has a property. -/
def Goes (I : Disk → Prop) (R L : Disk → Disk → Prop) (P : α → Prop) : Work α → Prop
  | done a => P a
  | step change next => ∀ disk, I disk →
      R disk (change disk) ∧ (next disk).Goes I R L P ∨
        L disk (change disk) ∧ ∃ a, next disk = done a ∧ P a

/-- No operation may be the last one. -/
def Never (_ _ : Disk) : Prop := False

theorem Goes.of_result? {work : Work α} {a : α} (h : work.Goes I R L P)
    (ha : work.result? = some a) : P a := by
  cases work with
  | done result =>
    cases ha
    exact h
  | step change next => cases ha

theorem Goes.bind {work : Work α} {more : α → Work β} (h : work.Goes I R Never P)
    (hmore : ∀ a, P a → (more a).Goes I R L Q) : (work >>= more).Goes I R L Q := by
  show (work.bind more).Goes I R L Q
  induction work with
  | done a => exact hmore a h
  | step change next ih =>
    intro disk hdisk
    rcases h disk hdisk with ⟨hfirst, hnext⟩ | ⟨hnever, -⟩
    · exact .inl ⟨hfirst, ih disk hnext⟩
    · cases hnever

theorem Goes.map {work : Work α} {more : α → Work β} (h : work.Goes I R L P)
    (hmore : ∀ a, P a → ∃ b, more a = done b ∧ Q b) : (work >>= more).Goes I R L Q := by
  show (work.bind more).Goes I R L Q
  induction work with
  | done a =>
    obtain ⟨b, hb, hQ⟩ := hmore a h
    show (more a).Goes I R L Q
    rw [hb]
    exact hQ
  | step change next ih =>
    intro disk hdisk
    rcases h disk hdisk with ⟨hfirst, hnext⟩ | ⟨hlast, a, hdone, ha⟩
    · exact .inl ⟨hfirst, ih disk hnext⟩
    · obtain ⟨b, hb, hQ⟩ := hmore a ha
      refine .inr ⟨hlast, b, ?_, hQ⟩
      dsimp only
      rw [hdone]
      exact hb

theorem Goes.after {work : Work α} (h : work.Goes I R L P) {disks : List Disk}
    (hdisks : ∀ disk ∈ disks, I disk) : (work.after disks).Goes I R L P := by
  induction disks generalizing work with
  | nil => rwa [after_nil]
  | cons disk disks ih =>
    cases work with
    | done a => rwa [after_done]
    | step change next =>
      have hrest := fun d hd => hdisks d (List.mem_cons_of_mem disk hd)
      rcases h disk (hdisks disk List.mem_cons_self) with ⟨-, hnext⟩ | ⟨-, a, hdone, ha⟩
      · exact ih hnext hrest
      · show ((next disk).after disks).Goes I R L P
        rw [hdone]
        exact ih ha hrest

/-- A property of what comes out, if anything does. -/
def IfOk (P : α → Prop) : Except DiskFault α → Prop
  | .ok a => P a
  | .error _ => True

theorem Goes.bindOk {work : ExceptT DiskFault Work α} {more : α → ExceptT DiskFault Work β}
    (h : Goes I R Never (IfOk P) work.run)
    (hmore : ∀ a, P a → Goes I R L (IfOk Q) (more a).run) :
    Goes I R L (IfOk Q) (work >>= more).run := by
  show Goes I R L (IfOk Q) (work.run >>= ExceptT.bindCont more)
  refine h.bind fun result hresult => ?_
  cases result with
  | ok a => exact hmore a hresult
  | error fault => trivial

theorem Goes.tryCatch {work : ExceptT DiskFault Work α}
    {handle : DiskFault → ExceptT DiskFault Work α} (h : Goes I R Never (IfOk P) work.run)
    (hhandle : ∀ fault, Goes I R L (IfOk P) (handle fault).run) :
    Goes I R L (IfOk P) (tryCatch work handle).run := by
  refine Goes.bind h fun result hresult => ?_
  cases result with
  | ok a => exact hresult
  | error fault => exact hhandle fault

theorem goes_once {action : DiskAction α}
    (h : ∀ disk, I disk → R disk (action.on disk).2 ∧ IfOk P (action.on disk).1) :
    Goes I R L (IfOk P) (once action).run := fun disk hdisk => .inl (h disk hdisk)

theorem goes_last {action : DiskAction α}
    (h : ∀ disk, I disk → R disk (action.on disk).2 ∨ L disk (action.on disk).2) :
    Goes I R L (IfOk fun _ => True) (once action).run := by
  have hany : ∀ result : Except DiskFault α, IfOk (fun _ => True) result := by
    rintro (fault | a) <;> trivial
  intro disk hdisk
  rcases h disk hdisk with hfirst | hlast
  · exact .inl ⟨hfirst, hany _⟩
  · exact .inr ⟨hlast, _, rfl, hany _⟩

theorem goes_look {question : Disk → α} (hlook : ∀ disk, I disk → R disk disk)
    (h : ∀ disk, I disk → P (question disk)) : (look question).Goes I R L P :=
  fun disk hdisk => .inl ⟨hlook disk hdisk, h disk hdisk⟩

end Work

namespace Batch

open Work (CarriesOut)

variable {batch : BatchOptions} {options : Options} {disk disk' : Disk} {path input : Path}
  {fault : DiskFault} {fuel : Nat}

/-! ### Making folders -/

theorem run_unlessFolder (path : Path) (fault : DiskFault) (disk : Disk) :
    Work.run (unlessFolder path fault).run disk =
      (if disk.isFolder path then .ok () else .error fault, disk) := rfl

theorem makeFolder_of_ofChange
    (h : DiskAction.ofChange (·.makeFolder path) disk = .error fault disk') :
    disk' = disk ∧ disk.makeFolder path = .error fault := by
  unfold DiskAction.ofChange at h
  split at h
  · cases h
  · next hmake =>
    cases h
    exact ⟨rfl, hmake⟩

theorem ensureFolder_of_ok
    (h : DiskAction.ofChange (·.makeFolder path) disk = .ok () disk') :
    Disk.ensureFolder path disk = .ok () disk' := by
  unfold DiskAction.ofChange at h
  unfold Disk.ensureFolder
  split at h
  · next hmake =>
    dsimp only at hmake
    rw [hmake]
    exact h
  · cases h

theorem on_ensureFolder_of_error
    (h : DiskAction.ofChange (·.makeFolder path) disk = .error fault disk') :
    DiskAction.on (Disk.ensureFolder path) disk =
      Work.run (unlessFolder path fault).run disk' := by
  obtain ⟨rfl, hmake⟩ := makeFolder_of_ofChange h
  unfold DiskAction.on Disk.ensureFolder
  rw [hmake, run_unlessFolder]
  dsimp only
  cases disk'.isFolder path <;> rfl

theorem carriesOut_ensureFolderWork (path : Path) :
    CarriesOut (ensureFolderWork path) (Disk.ensureFolder path) :=
  (Work.carriesOut_once _).tryCatch ensureFolder_of_ok fun h => (on_ensureFolder_of_error h).symm

theorem isFolder_of_notFound (h : disk.makeFolder path = .error .notFound) :
    disk.isFolder path = false := by
  cases hplace : disk.place path with
  | error fault =>
    unfold Disk.isFolder
    rw [Disk.find_of_fault hplace]
  | ok place =>
    refine Bool.eq_false_iff.mpr (mt (Disk.isFolder_of_place hplace).mp fun hfolder => ?_)
    rw [Disk.makeFolder_of_place hplace, hfolder] at h
    cases h

theorem makeFoldersWithin_succ (hpath : ¬path.text.isEmpty = true) :
    Disk.makeFoldersWithin (fuel + 1) path disk =
      match Disk.ensureFolder path disk, path.parent? with
      | .error .notFound disk, some above =>
        (do Disk.makeFoldersWithin fuel above; Disk.ensureFolder path : DiskAction Unit) disk
      | result, _ => result := if_neg hpath

theorem makeFoldersWithin_of_notFound {above : Path} (hpath : ¬path.text.isEmpty = true)
    (hmake : disk.makeFolder path = .error .notFound) (habove : path.parent? = some above) :
    Disk.makeFoldersWithin (fuel + 1) path disk =
      (Disk.makeFoldersWithin fuel above >>= fun _ => Disk.ensureFolder path) disk := by
  have hensure : Disk.ensureFolder path disk = .error .notFound disk := by
    unfold Disk.ensureFolder
    rw [hmake, isFolder_of_notFound hmake]
    rfl
  rw [makeFoldersWithin_succ hpath, hensure, habove]

/-- Unless it is for the folder above it, a folder that cannot be made is given up. -/
theorem makeFoldersWithin_of_other (hpath : ¬path.text.isEmpty = true)
    (hmake : disk.makeFolder path = .error fault)
    (hother : fault = .notFound → path.parent? = none) :
    Disk.makeFoldersWithin (fuel + 1) path disk = Disk.ensureFolder path disk := by
  rw [makeFoldersWithin_succ hpath]
  split
  · next above hensure habove =>
    unfold Disk.ensureFolder at hensure
    rw [hmake] at hensure
    dsimp only at hensure
    split at hensure
    · cases hensure
    · cases hensure
      rw [hother rfl] at habove
      cases habove
  · rfl

/-- By induction on the folders above. -/
theorem carriesOut_makeFoldersWork : ∀ (fuel : Nat) (path : Path),
    CarriesOut (makeFoldersWork fuel path) (Disk.makeFoldersWithin fuel path)
  | 0, _ => fun _ => rfl
  | fuel + 1, path => by
    unfold makeFoldersWork
    by_cases hpath : path.text.isEmpty = true
    · rw [if_pos hpath]
      intro disk
      have hnothing : Disk.makeFoldersWithin (fuel + 1) path disk = .ok () disk := if_pos hpath
      unfold DiskAction.on
      rw [hnothing]
      rfl
    rw [if_neg hpath]
    refine (Work.carriesOut_once _).tryCatch (fun hmake => ?_) fun {disk fault disk'} hmake => ?_
    · rw [makeFoldersWithin_succ hpath, ensureFolder_of_ok hmake]
    have hensure := on_ensureFolder_of_error hmake
    obtain ⟨rfl, hfault⟩ := makeFolder_of_ofChange hmake
    split
    · next above habove =>
      unfold DiskAction.on
      rw [makeFoldersWithin_of_notFound hpath hfault habove]
      exact ((carriesOut_makeFoldersWork fuel above).bind fun _ => carriesOut_ensureFolderWork path)
        disk'
    · next hother =>
      rw [← hensure]
      unfold DiskAction.on
      rw [makeFoldersWithin_of_other hpath hfault fun hmissing => ?_]
      cases habove : path.parent? with
      | none => rfl
      | some above => exact absurd habove (hother above hmissing)

theorem carriesOut_makeFolderOfWork (path : Path) :
    CarriesOut (makeFolderOfWork path) (makeFolderOf path) := by
  unfold makeFolderOfWork makeFolderOf
  cases path.parent? with
  | none => exact Work.carriesOut_pure ()
  | some folder =>
    dsimp only
    split
    · exact Work.carriesOut_pure ()
    · exact carriesOut_makeFoldersWork _ _

/-! ### Replacing a result -/

/-- A file that is opened and then written in one piece has been written. -/
theorem openFile_bind_fill (path : Path) (content : Bytes) :
    (openFile path >>= fun place => .ofChange fun disk => .ok (disk.fill place 0 content)) =
      DiskAction.ofChange (·.write path content) := by
  funext disk
  show EStateM.bind (openFile path) _ disk = _
  unfold EStateM.bind openFile DiskAction.ofChange Disk.write
  dsimp only
  cases disk.create path <;> rfl

theorem carriesOut_writePieces (place : Place) (content : Bytes) :
    CarriesOut (writePieces (fun _ => true) place 0 [content])
      (.ofChange fun disk => .ok (disk.fill place 0 content)) := fun _ => rfl

theorem carriesOut_writeFileWork (options : Options) (input path : Path) (text : String) :
    CarriesOut (writeFileWork (.steady options input) path text)
      (.ofChange (·.write path (Encoding.ofText text))) := by
  rw [← openFile_bind_fill]
  exact (Work.carriesOut_once _).bind fun place => carriesOut_writePieces place _

theorem carriesOut_replaceFileWork (options : Options) (input written stale : Path) (text : String) :
    CarriesOut (replaceFileWork (.steady options input) written stale text)
      (replaceFile written stale text) := by
  refine (carriesOut_makeFolderOfWork written).bind fun _ => ?_
  exact (carriesOut_writeFileWork options input written text).bind fun _ => Work.carriesOut_once _

/-! ### Working on an input -/

theorem run_extractionWork (options : Options) (outputs : Outputs) (input : Path) (disk : Disk) :
    Work.run (extractionWork (.steady options input) outputs input) disk =
      ((extractAndWrite options outputs disk input).report,
        (extractAndWrite options outputs disk input).disk) := by
  unfold extractionWork extractAndWrite writeProofs writeFailure
  rw [Work.run_bind]
  show Work.run (resultWork _ outputs input (extractFile options disk input)) disk = _
  unfold resultWork
  cases extractFile options disk input with
  | ok extraction =>
    dsimp only
    rw [Work.run_bind, carriesOut_replaceFileWork]
    unfold DiskAction.on
    cases replaceFile outputs.proofs outputs.failure (proofLines extraction.proofs) disk <;> rfl
  | error failure =>
    dsimp only
    rw [Work.run_bind, carriesOut_replaceFileWork]
    unfold DiskAction.on
    cases replaceFile outputs.failure outputs.proofs (failureText input failure) disk <;> rfl

/-- **The work on an input** in one go comes to what its processing comes to. -/
theorem run_work (batch : BatchOptions) (options : Options) (input : Path) (disk : Disk) :
    Work.run (work batch (.steady options input) input) disk =
      ((process batch options disk input).report, (process batch options disk input).disk) := by
  unfold work process hasResult
  dsimp only
  cases batch.skipExisting with
  | false => exact run_extractionWork options _ input disk
  | true =>
    rw [if_pos rfl, Work.run_bind, Bool.true_and]
    show Work.run (if disk.occupied (outputs batch input).proofs then _ else _) disk = _
    cases disk.occupied (outputs batch input).proofs with
    | true => rfl
    | false =>
      rw [if_neg Bool.false_ne_true, Work.run_bind]
      show Work.run (if disk.occupied (outputs batch input).failure then _ else _) disk = _
      cases disk.occupied (outputs batch input).failure with
      | true => rfl
      | false => exact run_extractionWork options _ input disk

end Batch

end ProofProse
