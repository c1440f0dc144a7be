import ProofProse.Proofs.Work

/-! # Workers that take turns

What one operation does to a pool is said once (`Batch.Pool.moves_advance`): nothing if it cannot be
done, and else it changes the disk and what is left to do for one input. The disks that the operations
for an input have found are listed (`Batch.Pool.found`); what is left to do for the input is a function
of them, whatever has been done for others meanwhile (`Batch.Pool.getElem?_play`). A single worker
does not begin an input before the work on another one is done (`Batch.Pool.eq_of_canMove`).

To finish the work on an input is to do one operation for it after the other
(`Batch.Pool.exists_finish_eq`). -/

namespace ProofProse

namespace Batch.Pool

variable {jobs : Nat} {pool : Pool} {task : Task} {i j : Nat} {schedule : List Nat} {disk : Disk}

/-! ### One operation -/

theorem canMove_iff : pool.canMove jobs i = true ↔
    ∃ begun change next, pool.tasks[i]? = some ⟨begun, .step change next⟩ ∧
      (begun = true ∨ pool.busy < max jobs 1) := by
  unfold canMove
  constructor
  · intro h
    split at h
    · next task htask =>
      obtain ⟨begun, work⟩ := task
      cases work with
      | done result => cases h
      | step change next => exact ⟨begun, change, next, htask, by simpa [Work.result?] using h⟩
    · cases h
  · rintro ⟨begun, change, next, htask, hmay⟩
    rw [htask]
    simpa [Work.result?] using hmay

theorem advance_of_task {begun : Bool} {change : Disk → Disk} {next : Disk → Work FileReport}
    (hi : pool.tasks[i]? = some ⟨begun, .step change next⟩) (hcan : pool.canMove jobs i = true) :
    pool.advance jobs i = ⟨change pool.disk, pool.tasks.set i ⟨true, next pool.disk⟩⟩ := by
  unfold advance
  rw [hi]
  exact if_pos hcan

/-- **One operation** is passed over, or it changes the disk and what is left to do for its input. -/
theorem advance_cases (jobs : Nat) (pool : Pool) (i : Nat) :
    pool.canMove jobs i = false ∧ pool.advance jobs i = pool ∨
      ∃ begun change next, pool.canMove jobs i = true ∧
        pool.tasks[i]? = some ⟨begun, .step change next⟩ ∧
        pool.advance jobs i = ⟨change pool.disk, pool.tasks.set i ⟨true, next pool.disk⟩⟩ := by
  cases hcan : pool.canMove jobs i with
  | true =>
    obtain ⟨begun, change, next, htask, -⟩ := canMove_iff.mp hcan
    exact .inr ⟨begun, change, next, rfl, htask, advance_of_task htask hcan⟩
  | false =>
    refine .inl ⟨rfl, ?_⟩
    unfold advance
    split
    · exact if_neg (Bool.eq_false_iff.mp hcan)
    · rfl

theorem play_append (pool : Pool) (schedule rest : List Nat) :
    pool.play jobs (schedule ++ rest) = (pool.play jobs schedule).play jobs rest :=
  List.foldl_append

theorem play_concat (pool : Pool) (schedule : List Nat) (i : Nat) :
    pool.play jobs (schedule ++ [i]) = (pool.play jobs schedule).advance jobs i :=
  play_append pool schedule [i]

theorem play_induction {P : Pool → Prop} (hstep : ∀ pool i, P pool → P (pool.advance jobs i))
    (schedule : List Nat) (h : P pool) : P (pool.play jobs schedule) := by
  induction schedule generalizing pool with
  | nil => exact h
  | cons i schedule ih => exact ih (hstep pool i h)

theorem length_advance (jobs : Nat) (pool : Pool) (i : Nat) :
    (pool.advance jobs i).tasks.length = pool.tasks.length := by
  rcases advance_cases jobs pool i with ⟨-, hsame⟩ | ⟨_, _, _, -, -, hmoved⟩
  · rw [hsame]
  · rw [hmoved]
    exact List.length_set

theorem length_play (jobs : Nat) (pool : Pool) (schedule : List Nat) :
    (pool.play jobs schedule).tasks.length = pool.tasks.length :=
  play_induction (P := fun reached => reached.tasks.length = pool.tasks.length)
    (fun reached i h => (length_advance jobs reached i).trans h) schedule rfl

/-! ### What the operations for an input have found -/

/-- The disks that the operations for an input find, one after the other. -/
def found (jobs i : Nat) : Pool → List Nat → List Disk
  | _, [] => []
  | pool, j :: schedule =>
    (if j = i ∧ pool.canMove jobs i = true then [pool.disk] else []) ++
      found jobs i (pool.advance jobs j) schedule

theorem found_append (pool : Pool) (schedule rest : List Nat) :
    found jobs i pool (schedule ++ rest) =
      found jobs i pool schedule ++ found jobs i (pool.play jobs schedule) rest := by
  induction schedule generalizing pool with
  | nil => rfl
  | cons j schedule ih =>
    rw [List.cons_append, found, found, ih, List.append_assoc]
    rfl

theorem found_concat (pool : Pool) (schedule : List Nat) (j : Nat) :
    found jobs i pool (schedule ++ [j]) = found jobs i pool schedule ++
      if j = i ∧ (pool.play jobs schedule).canMove jobs i = true then
        [(pool.play jobs schedule).disk]
      else [] := by
  rw [found_append, found, found, List.append_nil]

theorem mem_found_concat (h : disk ∈ found jobs i pool (schedule ++ [j])) :
    disk ∈ found jobs i pool schedule ∨ disk = (pool.play jobs schedule).disk := by
  rw [found_concat] at h
  rcases List.mem_append.mp h with h | h
  · exact .inl h
  · split at h
    · exact .inr (List.mem_singleton.mp h)
    · exact absurd h List.not_mem_nil

/-- The work on an input, behind an operation for it or for another one. -/
theorem getElem?_advance (h : pool.tasks[i]? = some task) {disks : List Disk}
    (hdisks : disks = if j = i ∧ pool.canMove jobs i = true then [pool.disk] else []) :
    (pool.advance jobs j).tasks[i]? =
      some ⟨task.begun || !disks.isEmpty, task.work.after disks⟩ := by
  have hpassed : ¬(j = i ∧ pool.canMove jobs i = true) →
      some task = some ⟨task.begun || !disks.isEmpty, task.work.after disks⟩ := by
    intro hnot
    rw [hdisks, if_neg hnot, Work.after_nil, List.isEmpty_nil, Bool.not_true, Bool.or_false]
  rcases advance_cases jobs pool j with ⟨hcannot, hsame⟩ | ⟨begun, change, next, hcan, htask, hmoved⟩
  · rw [hsame, h]
    refine hpassed ?_
    rintro ⟨rfl, hcan⟩
    exact absurd hcan (Bool.eq_false_iff.mp hcannot)
  rw [hmoved]
  by_cases hj : j = i
  · subst hj
    rw [h, Option.some_inj] at htask
    subst htask
    rw [hdisks, if_pos ⟨rfl, hcan⟩, List.getElem?_set_self (List.getElem?_eq_some_iff.mp h).1]
    show _ = some (Task.mk (begun || true) ((next pool.disk).after []))
    rw [Work.after_nil, Bool.or_true]
  · rw [List.getElem?_set_ne hj, h]
    exact hpassed fun hboth => hj hboth.1

/-- **What is left to do** for an input depends on what its operations have found. -/
theorem getElem?_play (h : pool.tasks[i]? = some task) (schedule : List Nat) :
    (pool.play jobs schedule).tasks[i]? =
      some ⟨task.begun || !(found jobs i pool schedule).isEmpty,
        task.work.after (found jobs i pool schedule)⟩ := by
  induction schedule generalizing pool task with
  | nil =>
    rw [found, Work.after_nil, List.isEmpty_nil, Bool.not_true, Bool.or_false]
    exact h
  | cons j schedule ih =>
    have hempty : ∀ front behind : List Disk,
        (front ++ behind).isEmpty = (front.isEmpty && behind.isEmpty) := by
      intro front behind
      cases front <;> rfl
    rw [found, Work.after_append, hempty, Bool.not_and, ← Bool.or_assoc]
    exact ih (getElem?_advance h rfl)

/-! ### Reports -/

theorem map_some_reports (hover : pool.IsOver) :
    pool.reports.map some = pool.tasks.map fun task => task.work.result? := by
  unfold reports
  rw [List.map_filterMap_some_eq_filter_map_isSome, List.filter_eq_self]
  intro report? hreport
  obtain ⟨task, htask, rfl⟩ := List.mem_map.mp hreport
  exact hover task htask

theorem getElem?_reports (hover : pool.IsOver) (i : Nat) : pool.reports[i]? = pool.report? i := by
  have hmap := congrArg (·[i]?) (map_some_reports hover)
  simp only [List.getElem?_map] at hmap
  unfold report?
  cases hi : pool.tasks[i]? with
  | none =>
    rw [hi] at hmap
    exact Option.map_eq_none_iff.mp hmap
  | some task =>
    rw [hi] at hmap
    obtain ⟨report, hreport, hresult⟩ := Option.map_eq_some_iff.mp hmap
    rw [hreport]
    exact hresult

theorem length_reports (hover : pool.IsOver) : pool.reports.length = pool.tasks.length := by
  have hlength := congrArg List.length (map_some_reports hover)
  rwa [List.length_map, List.length_map] at hlength

/-! ### A single worker -/

theorem busy_pos (hi : pool.tasks[i]? = some task) (hbusy : task.isUnderWay = true) :
    1 ≤ pool.busy :=
  List.one_le_countP_iff.mpr ⟨task, List.mem_of_getElem? hi, hbusy⟩

/-- How many workers are busy when something else is left to do for an input. -/
theorem busy_set (hi : pool.tasks[i]? = some task) (disk : Disk) (task' : Task) :
    busy ⟨disk, pool.tasks.set i task'⟩ =
      (pool.busy - if task.isUnderWay then 1 else 0) + if task'.isUnderWay then 1 else 0 := by
  obtain ⟨hlength, rfl⟩ := List.getElem?_eq_some_iff.mp hi
  exact List.countP_set hlength

theorem two_le_busy {task' : Task} (hi : pool.tasks[i]? = some task) (hj : pool.tasks[j]? = some task')
    (hne : i ≠ j) (hbusy : task.isUnderWay = true) (hbusy' : task'.isUnderWay = true) :
    2 ≤ pool.busy := by
  -- Without the first of them there is still the other one.
  have hrest : 1 ≤ busy ⟨pool.disk, pool.tasks.set i ⟨false, task.work⟩⟩ :=
    busy_pos ((List.getElem?_set_ne hne).trans hj) hbusy'
  rw [busy_set hi, if_pos hbusy] at hrest
  have hfirst := busy_pos hi hbusy
  simp only [Task.isUnderWay, Bool.false_and, Bool.false_eq_true, if_false] at hrest
  omega

theorem busy_advance (h : pool.busy ≤ max jobs 1) (i : Nat) :
    (pool.advance jobs i).busy ≤ max jobs 1 := by
  rcases advance_cases jobs pool i with ⟨-, hsame⟩ | ⟨begun, change, next, hcan, htask, hmoved⟩
  · rwa [hsame]
  obtain ⟨begun', change', next', htask', hmay⟩ := canMove_iff.mp hcan
  rw [htask, Option.some_inj] at htask'
  cases htask'
  have hcount := busy_set htask (change pool.disk) ⟨true, next pool.disk⟩
  rw [hmoved, hcount]
  have hnew : (if Task.isUnderWay ⟨true, next pool.disk⟩ then 1 else 0) ≤ 1 := by
    split <;> decide
  cases begun with
  | true =>
    have hbusy : Task.isUnderWay ⟨true, .step change next⟩ = true := rfl
    have hpos := busy_pos htask hbusy
    rw [if_pos hbusy]
    omega
  | false =>
    have hless := hmay.resolve_left Bool.false_ne_true
    omega

theorem busy_play (h : pool.busy ≤ max jobs 1) (schedule : List Nat) :
    (pool.play jobs schedule).busy ≤ max jobs 1 :=
  play_induction (P := fun reached => reached.busy ≤ max jobs 1)
    (fun _ i hreached => busy_advance hreached i) schedule h

theorem eq_of_canMove (hjobs : jobs ≤ 1) (hworkers : pool.busy ≤ max jobs 1)
    (hi : pool.tasks[i]? = some task) (hbusy : task.isUnderWay = true)
    (hcan : pool.canMove jobs j = true) : j = i := by
  refine Decidable.byContradiction fun hne => ?_
  rw [Nat.max_eq_right hjobs] at hworkers
  have hone := busy_pos hi hbusy
  obtain ⟨begun, change, next, htask, hmay⟩ := canMove_iff.mp hcan
  rw [Nat.max_eq_right hjobs] at hmay
  rcases hmay with rfl | hless
  · have htwo := two_le_busy hi htask (Ne.symm hne) hbusy rfl
    omega
  · omega

/-! ### Finishing an input -/

theorem finish_of_task (hi : pool.tasks[i]? = some task) (hcan : pool.canMove jobs i = true) :
    pool.finish jobs i = ⟨(task.work.run pool.disk).2,
      pool.tasks.set i ⟨true, .done (task.work.run pool.disk).1⟩⟩ := by
  unfold finish
  rw [hi]
  exact if_pos hcan

/-- The operations of the first part of what is left for an input, one after the other: by induction
on this part. -/
theorem exists_play_bind {α : Type} (jobs : Nat) {i : Nat} : ∀ (work : Work α)
    {more : α → Work FileReport} {pool : Pool} {begun : Bool},
    pool.tasks[i]? = some ⟨begun, work >>= more⟩ →
    begun = true ∨ pool.canMove jobs i = true ∧ work.result? = none →
    ∃ n, pool.play jobs (List.replicate n i) =
      ⟨(work.run pool.disk).2, pool.tasks.set i ⟨true, more (work.run pool.disk).1⟩⟩
  | .done result, more, pool, begun, hi, hmay => by
    have hbegun : begun = true := hmay.resolve_right fun h => Option.some_ne_none _ h.2
    obtain ⟨hlength, htask⟩ := List.getElem?_eq_some_iff.mp hi
    refine ⟨0, ?_⟩
    show pool = ⟨pool.disk, pool.tasks.set i ⟨true, Work.done result >>= more⟩⟩
    rw [← hbegun, ← htask, List.set_getElem_self]
  | .step change next, more, pool, begun, hi, hmay => by
    have hi : pool.tasks[i]? = some ⟨begun, .step change fun disk => next disk >>= more⟩ := hi
    have hcan : pool.canMove jobs i = true :=
      hmay.elim (fun hbegun => canMove_iff.mpr ⟨begun, _, _, hi, .inl hbegun⟩) And.left
    have hadvance := advance_of_task hi hcan
    have hi' : (pool.advance jobs i).tasks[i]? = some ⟨true, next pool.disk >>= more⟩ := by
      rw [hadvance]
      exact List.getElem?_set_self (List.getElem?_eq_some_iff.mp hi).1
    obtain ⟨n, hn⟩ := exists_play_bind jobs (next pool.disk) hi' (.inl rfl)
    refine ⟨n + 1, ?_⟩
    show (pool.advance jobs i).play jobs (List.replicate n i) = _
    rw [hn, hadvance]
    dsimp only
    rw [List.set_set]
    rfl

/-- To finish the work on an input is to do one operation after the other. -/
theorem exists_finish_eq (jobs i : Nat) (pool : Pool) :
    ∃ n, pool.finish jobs i = pool.play jobs (List.replicate n i) := by
  cases hcan : pool.canMove jobs i with
  | false =>
    refine ⟨0, ?_⟩
    unfold finish
    split
    · exact if_neg (Bool.eq_false_iff.mp hcan)
    · rfl
  | true =>
    obtain ⟨begun, change, next, hi, -⟩ := canMove_iff.mp hcan
    have hi' : pool.tasks[i]? = some ⟨begun, .step change next >>= pure⟩ := by rw [bind_pure, hi]
    obtain ⟨n, hn⟩ := exists_play_bind jobs (.step change next) hi' (.inr ⟨hcan, rfl⟩)
    exact ⟨n, (finish_of_task hi hcan).trans hn.symm⟩

/-! ### Operations in a row -/

/-- Some operations lead from a pool to another one. -/
def Reaches (jobs : Nat) (pool pool' : Pool) : Prop := ∃ schedule, pool.play jobs schedule = pool'

theorem Reaches.trans {pool' pool'' : Pool} (h : pool.Reaches jobs pool')
    (h' : pool'.Reaches jobs pool'') : pool.Reaches jobs pool'' := by
  obtain ⟨schedule, rfl⟩ := h
  obtain ⟨rest, rfl⟩ := h'
  exact ⟨schedule ++ rest, play_append pool schedule rest⟩

theorem reaches_step {begun : Bool} {change : Disk → Disk} {next : Disk → Work FileReport}
    (hi : pool.tasks[i]? = some ⟨begun, .step change next⟩) (hcan : pool.canMove jobs i = true) :
    pool.Reaches jobs ⟨change pool.disk, pool.tasks.set i ⟨true, next pool.disk⟩⟩ :=
  ⟨[i], advance_of_task hi hcan⟩

variable {α β : Type} {work : ExceptT DiskFault Work α} {action : DiskAction α} {a : α}

theorem reaches_end {last : Except DiskFault α → Work FileReport}
    (hcarries : Work.CarriesOut work action)
    (hi : pool.tasks[i]? = some ⟨true, Work.bind work.run last⟩)
    (haction : action pool.disk = .ok a disk) :
    pool.Reaches jobs ⟨disk, pool.tasks.set i ⟨true, last (.ok a)⟩⟩ := by
  obtain ⟨n, hn⟩ := exists_play_bind jobs work.run hi (.inl rfl)
  have hrun : Work.run work.run pool.disk = (.ok a, disk) := by
    rw [hcarries]
    unfold DiskAction.on
    rw [haction]
  rw [hrun] at hn
  exact ⟨_, hn⟩

/-- A part of the work on an input that is begun, with other work behind it. -/
theorem reaches_part {more : α → ExceptT DiskFault Work β}
    {last : Except DiskFault β → Work FileReport} (hcarries : Work.CarriesOut work action)
    (hi : pool.tasks[i]? = some ⟨true, Work.bind (work >>= more).run last⟩)
    (haction : action pool.disk = .ok a disk) :
    pool.Reaches jobs ⟨disk, pool.tasks.set i ⟨true, Work.bind (more a).run last⟩⟩ := by
  have hparts : Work.bind (work >>= more).run last =
      Work.bind work.run fun result => Work.bind (ExceptT.bindCont more result) last :=
    bind_assoc work.run (ExceptT.bindCont more) last
  rw [hparts] at hi
  exact reaches_end hcarries hi haction

end Batch.Pool

end ProofProse
