import ProofProse.Proofs.Lasting

/-! # What is done for an input

A batch that passes over the inputs that have a result looks for the two results of each input first.
How far the work on an input has come can be told from the disks that its operations have found
(`Batch.stage_after`). So there are four things that one more operation for it can do
(`Batch.operates`): it looks in vain; it finds a result, and the input is passed over; or, when both
looks were in vain, it loses nothing or takes a result away at the end. The disk stays a tree
throughout (`Batch.trees_play`). -/

namespace ProofProse

namespace Batch

open Work (Goes)

variable {batch : BatchOptions} {chance : Chance} {input path : Path}
  {disk disk' first second : Disk} {seen more : List Disk} {start : Place} {report : FileReport}

/-! ### How far the work has come -/

/-- The work on an input found neither of its results: the proofs were not there at its first look,
and the failure was not there at its second one. -/
structure LooksInVain (batch : BatchOptions) (input : Path) (seen : List Disk)
    (first second : Disk) : Prop where
  looks : ∃ rest, seen = first :: second :: rest
  proofs : first.occupied (outputs batch input).proofs = false
  failure : second.occupied (outputs batch input).failure = false

/-- The second look. -/
def secondLook (batch : BatchOptions) (chance : Chance) (input : Path) : Work FileReport :=
  .step id fun second =>
    if second.occupied (outputs batch input).failure then .done (skippedReport input)
    else .step id fun third =>
      resultWork chance (outputs batch input) input (chance.extract third)

theorem work_eq (hskip : batch.skipExisting = true) (chance : Chance) (input : Path) :
    work batch chance input = .step id fun first =>
      if first.occupied (outputs batch input).proofs then .done (skippedReport input)
      else secondLook batch chance input := by
  unfold work
  rw [hskip]
  rfl

/-- How far the work on an input has come when its operations have found some disks. -/
inductive Stage (batch : BatchOptions) (chance : Chance) (input : Path) :
    List Disk → Work FileReport → Prop
  | fresh : Stage batch chance input [] (work batch chance input)
  | proofsFound {first : Disk} {rest : List Disk}
      (h : first.occupied (outputs batch input).proofs = true) :
      Stage batch chance input (first :: rest) (.done (skippedReport input))
  | oneLook {first : Disk} (h : first.occupied (outputs batch input).proofs = false) :
      Stage batch chance input [first] (secondLook batch chance input)
  | failureFound {first second : Disk} {rest : List Disk}
      (h : first.occupied (outputs batch input).proofs = false)
      (h' : second.occupied (outputs batch input).failure = true) :
      Stage batch chance input (first :: second :: rest) (.done (skippedReport input))
  | twoLooks {first second : Disk}
      (h : LooksInVain batch input [first, second] first second) :
      Stage batch chance input [first, second]
        (.step id fun third => resultWork chance (outputs batch input) input (chance.extract third))
  | extracted {first second third : Disk} {rest : List Disk}
      (h : LooksInVain batch input (first :: second :: third :: rest) first second) :
      Stage batch chance input (first :: second :: third :: rest)
        ((resultWork chance (outputs batch input) input (chance.extract third)).after rest)

/-- **How far the work has come** can be told from what its operations have found. -/
theorem stage_after (hskip : batch.skipExisting = true) (chance : Chance) (input : Path) :
    ∀ seen : List Disk, Stage batch chance input seen ((work batch chance input).after seen)
  | [] => by
    rw [Work.after_nil]
    exact .fresh
  | first :: rest => by
    rw [work_eq hskip]
    show Stage batch chance input _ (Work.after (if _ then _ else _) rest)
    cases hproofs : first.occupied (outputs batch input).proofs with
    | true =>
      rw [if_pos rfl, Work.after_done]
      exact .proofsFound hproofs
    | false =>
      rw [if_neg Bool.false_ne_true]
      cases rest with
      | nil =>
        rw [Work.after_nil]
        exact .oneLook hproofs
      | cons second rest =>
        show Stage batch chance input _ (Work.after (if _ then _ else _) rest)
        cases hfailure : second.occupied (outputs batch input).failure with
        | true =>
          rw [if_pos rfl, Work.after_done]
          exact .failureFound hproofs hfailure
        | false =>
          rw [if_neg Bool.false_ne_true]
          cases rest with
          | nil =>
            rw [Work.after_nil]
            exact .twoLooks ⟨⟨[], rfl⟩, hproofs, hfailure⟩
          | cons third rest => exact .extracted ⟨⟨_, rfl⟩, hproofs, hfailure⟩

/-- What one more operation for an input does, and the report if it is the last one. -/
inductive Operates (batch : BatchOptions) (input : Path) (seen : List Disk) (disk : Disk) :
    Disk → Option FileReport → Prop
  | looks : Operates batch input seen disk disk none
  | finds (h : hasResult disk (outputs batch input) = true) :
      Operates batch input seen disk disk (some (skippedReport input))
  | adds {first second disk' : Disk} {report? : Option FileReport}
      (h : LooksInVain batch input seen first second)
      (hadds : disk.Adds (results batch input) disk')
      (hreport : ∀ report, report? = some report → report.status ≠ .skipped) :
      Operates batch input seen disk disk' report?
  | takes {first second disk' : Disk} {report : FileReport}
      (h : LooksInVain batch input seen first second) (htakes : Takes batch input disk disk')
      (hreport : report.status ≠ .skipped) :
      Operates batch input seen disk disk' (some report)

theorem Reports.status_ne {outcome : Except Failure Extraction} (h : Reports input outcome report) :
    report.status ≠ .skipped := by
  cases h <;> exact nofun

/-- **One more operation** for an input. -/
theorem operates (hskip : batch.skipExisting = true) (hseen : ∀ d ∈ seen, IsTreeAt start d)
    (hdisk : IsTreeAt start disk) {change : Disk → Disk} {next : Disk → Work FileReport}
    (hwork : (work batch chance input).after seen = .step change next) :
    Operates batch input seen disk (change disk) (next disk).result? := by
  have hstage := stage_after hskip chance input seen
  rw [hwork] at hstage
  generalize hleft : Work.step change next = left at hstage
  cases hstage with
  | fresh =>
    rw [work_eq hskip] at hleft
    cases hleft
    dsimp only
    cases hproofs : disk.occupied (outputs batch input).proofs with
    | true => exact .finds (hasResult_of_proofs hproofs)
    | false => exact .looks
  | proofsFound => cases hleft
  | oneLook hproofs =>
    cases hleft
    dsimp only
    cases hfailure : disk.occupied (outputs batch input).failure with
    | true => exact .finds (hasResult_of_failure hfailure)
    | false => exact .looks
  | failureFound => cases hleft
  | twoLooks hvain =>
    cases hleft
    have hnext := goes_result start batch chance input (chance.extract disk)
    exact .adds hvain (.refl hdisk.1) fun report hreport => (hnext.of_result? hreport).status_ne
  | @extracted first second third rest hvain =>
    have hgoes := goes_result start batch chance input (chance.extract third)
    have hrest := hgoes.after fun d (hd : d ∈ rest) => hseen d (by simp [hd])
    rw [← hleft] at hrest
    rcases hrest disk hdisk with ⟨hadds, hnext⟩ | ⟨htakes, report, hdone, hreport⟩
    · exact .adds hvain hadds fun report hreport => (hnext.of_result? hreport).status_ne
    · rw [hdone]
      exact .takes hvain htakes hreport.status_ne

theorem Operates.isTreeAt {report? : Option FileReport}
    (h : Operates batch input seen disk disk' report?) (hdisk : IsTreeAt start disk) :
    IsTreeAt start disk' := by
  cases h with
  | looks => exact hdisk
  | finds => exact hdisk
  | adds _ hadds => exact ⟨hadds.isTree, hadds.working.trans hdisk.2⟩
  | takes _ htakes =>
    obtain ⟨a, b, gone, -, hfinds, rfl⟩ := htakes
    exact ⟨hfinds.isTree hdisk.1, hdisk.2⟩

theorem report_cases (hskip : batch.skipExisting = true)
    (hseen : ∀ d ∈ seen, IsTreeAt start d)
    (hdone : ((work batch chance input).after seen).result? = some report) :
    report = skippedReport input ∧ (∀ first second, ¬LooksInVain batch input seen first second) ∨
      (∃ first second, LooksInVain batch input seen first second) ∧
        ∃ third ∈ seen, Reports input (chance.extract third) report := by
  have hstage := stage_after hskip chance input seen
  generalize (work batch chance input).after seen = left at hstage hdone
  cases hstage with
  | fresh =>
    rw [work_eq hskip] at hdone
    cases hdone
  | proofsFound hfound =>
    cases hdone
    refine .inl ⟨rfl, ?_⟩
    rintro first second ⟨⟨rest, hlooks⟩, hproofs, -⟩
    obtain ⟨rfl, -⟩ := List.cons.inj hlooks
    rw [hfound] at hproofs
    cases hproofs
  | oneLook => cases hdone
  | failureFound _ hfound =>
    cases hdone
    refine .inl ⟨rfl, ?_⟩
    rintro first second ⟨⟨rest, hlooks⟩, -, hfailure⟩
    obtain ⟨-, hrest⟩ := List.cons.inj hlooks
    obtain ⟨rfl, -⟩ := List.cons.inj hrest
    rw [hfound] at hfailure
    cases hfailure
  | twoLooks => cases hdone
  | @extracted first second third rest hvain =>
    have hgoes := goes_result start batch chance input (chance.extract third)
    have hrest := hgoes.after fun d (hd : d ∈ rest) => hseen d (by simp [hd])
    exact .inr ⟨⟨first, second, hvain⟩, third, by simp, hrest.of_result? hdone⟩

theorem LooksInVain.append (h : LooksInVain batch input seen first second) :
    LooksInVain batch input (seen ++ more) first second := by
  obtain ⟨⟨rest, rfl⟩, hproofs, hfailure⟩ := h
  exact ⟨⟨rest ++ more, rfl⟩, hproofs, hfailure⟩

theorem LooksInVain.mem (h : LooksInVain batch input seen first second) :
    first ∈ seen ∧ second ∈ seen := by
  obtain ⟨rest, rfl⟩ := h.looks
  exact ⟨List.mem_cons_self, List.mem_cons_of_mem _ List.mem_cons_self⟩

theorem LooksInVain.hasResult_eq_false (h : LooksInVain batch input seen first second)
    (hseen : ∀ d ∈ seen, d = disk) : hasResult disk (outputs batch input) = false := by
  obtain ⟨hfirst, hsecond⟩ := h.mem
  have hproofs := h.proofs
  have hfailure := h.failure
  rw [hseen first hfirst] at hproofs
  rw [hseen second hsecond] at hfailure
  exact hasResult_of_free hproofs hfailure

/-- An operation for an input that is not worked on leaves the disk as it is. -/
theorem Operates.disk_eq {report? : Option FileReport}
    (h : Operates batch input seen disk disk' report?)
    (hvain : ∀ first second, ¬LooksInVain batch input seen first second) : disk' = disk := by
  cases h with
  | looks => rfl
  | finds => rfl
  | adds hlooks => exact absurd hlooks (hvain _ _)
  | takes hlooks => exact absurd hlooks (hvain _ _)

/-- What is found at a path to where no result of an input leads is found behind an operation for this
input. -/
theorem Operates.occupied {report? : Option FileReport}
    (h : Operates batch input seen disk disk' report?) (hdisk : disk.IsTree)
    (hapart : ∀ p ∈ results batch input, disk.destination path ≠ disk.destination p)
    (hfound : disk.occupied path = true) : disk'.occupied path = true := by
  cases h with
  | looks => exact hfound
  | finds => exact hfound
  | adds _ hadds => exact hadds.occupied hdisk hfound
  | takes _ htakes =>
    obtain ⟨a, b, gone, hends, hfinds, rfl⟩ := htakes
    refine hfinds.occupied hdisk (fun heq => ?_) hfound
    refine hapart _ (resultPath_mem_results hends) (heq.trans ?_)
    exact (Disk.eq_destination hfinds.leads).1

/-- No result of an input stands where a result of another one of the list does. -/
def SharesNone (batch : BatchOptions) (disk : Disk) (inputs : List Path) (i : Nat) (input : Path) :
    Prop :=
  ∀ j other, inputs[j]? = some other → j ≠ i → ∀ p ∈ results batch input, ∀ q ∈ results batch other,
    disk.destination p ≠ disk.destination q

end Batch

/-! ### Turns of a pool -/

namespace Batch.Pool

variable {batch : BatchOptions} {chance : Nat → Path → Chance} {first second : Disk}
  {inputs : List Path} {pool : Pool} {input : Path} {i j jobs : Nat} {schedule : List Nat}
  {report : FileReport}

/-- Nothing has been done for the inputs of a pool. -/
structure IsFresh (pool : Pool) (batch : BatchOptions) (chance : Nat → Path → Chance)
    (inputs : List Path) : Prop where
  length : pool.tasks.length = inputs.length
  task {i : Nat} {input : Path} (hi : inputs[i]? = some input) :
    pool.tasks[i]? = some (Task.mk false (work batch (chance i input) input))

theorem isFresh_start (batch : BatchOptions) (chance : Nat → Path → Chance) (disk : Disk)
    (inputs : List Path) : (start batch chance disk inputs).IsFresh batch chance inputs := by
  refine ⟨List.length_mapIdx, fun {i input} hi => ?_⟩
  unfold start
  rw [List.getElem?_mapIdx, hi]
  rfl

theorem IsFresh.task_play (h : pool.IsFresh batch chance inputs) (hi : inputs[i]? = some input)
    (schedule : List Nat) : (pool.play jobs schedule).tasks[i]? =
      some ⟨!(found jobs i pool schedule).isEmpty,
        (work batch (chance i input) input).after (found jobs i pool schedule)⟩ := by
  rw [getElem?_play (h.task hi), Bool.false_or]

theorem IsFresh.report?_play (h : pool.IsFresh batch chance inputs) (hi : inputs[i]? = some input)
    (schedule : List Nat) : (pool.play jobs schedule).report? i =
      ((work batch (chance i input) input).after (found jobs i pool schedule)).result? := by
  unfold report?
  rw [h.task_play hi]
  rfl

theorem IsFresh.exists_input (h : pool.IsFresh batch chance inputs)
    (hcan : (pool.play jobs schedule).canMove jobs j = true) : ∃ input, inputs[j]? = some input := by
  obtain ⟨_, _, _, htask, -⟩ := canMove_iff.mp hcan
  have hlength := (List.getElem?_eq_some_iff.mp htask).1
  rw [length_play, h.length] at hlength
  exact ⟨inputs[j], List.getElem?_eq_getElem hlength⟩

theorem IsFresh.report?_eq_none (h : pool.IsFresh batch chance inputs) (i : Nat) :
    pool.report? i = none := by
  unfold report?
  cases hinput : inputs[i]? with
  | none =>
    have hlength := h.length ▸ List.getElem?_eq_none_iff.mp hinput
    rw [List.getElem?_eq_none hlength]
    rfl
  | some input =>
    rw [h.task hinput]
    exact result?_work batch (chance i input) input

theorem IsFresh.exists_report (h : pool.IsFresh batch chance inputs)
    (hover : (pool.play jobs schedule).IsOver) (hinput : inputs[i]? = some input) :
    ∃ report, (pool.play jobs schedule).report? i = some report := by
  rw [h.report?_play hinput]
  exact Option.isSome_iff_exists.mp (hover _ (List.mem_of_getElem? (h.task_play hinput schedule)))

theorem IsFresh.busy_eq_zero (h : pool.IsFresh batch chance inputs) : pool.busy = 0 := by
  refine List.countP_eq_zero.mpr fun task htask => ?_
  obtain ⟨i, hi, rfl⟩ := List.getElem_of_mem htask
  have htask' := h.task (List.getElem?_eq_getElem (h.length ▸ hi))
  rw [List.getElem?_eq_getElem hi, Option.some_inj] at htask'
  rw [htask']
  exact nofun

/-- A turn of a pool: an operation for an input, or none. -/
inductive Turn (batch : BatchOptions) (jobs : Nat) (inputs : List Path) (pool : Pool)
    (schedule : List Nat) (j : Nat) : Prop
  | passedOver (hcannot : (pool.play jobs schedule).canMove jobs j = false)
      (hsame : pool.play jobs (schedule ++ [j]) = pool.play jobs schedule)
  | taken {input : Path} (hinput : inputs[j]? = some input)
      (hcan : (pool.play jobs schedule).canMove jobs j = true)
      (hleft : (pool.play jobs schedule).report? j = none)
      (hoperates : Operates batch input (found jobs j pool schedule) (pool.play jobs schedule).disk
        (pool.play jobs (schedule ++ [j])).disk ((pool.play jobs (schedule ++ [j])).report? j))
      (hothers : ∀ i, i ≠ j →
        (pool.play jobs (schedule ++ [j])).report? i = (pool.play jobs schedule).report? i)

/-- The disk is a tree, and so are those that have been found. -/
def Trees (jobs : Nat) (pool : Pool) (schedule : List Nat) : Prop :=
  IsTreeAt pool.disk.working (pool.play jobs schedule).disk ∧
    ∀ i, ∀ d ∈ found jobs i pool schedule, IsTreeAt pool.disk.working d

theorem Trees.turn (htrees : Trees jobs pool schedule) (h : pool.IsFresh batch chance inputs)
    (hskip : batch.skipExisting = true) (j : Nat) : Turn batch jobs inputs pool schedule j := by
  have hplay : pool.play jobs (schedule ++ [j]) = _ := play_concat pool schedule j
  rcases advance_cases jobs (pool.play jobs schedule) j with
    ⟨hcannot, hsame⟩ | ⟨begun, change, next, hcan, htask, hmoved⟩
  · exact .passedOver hcannot (hplay.trans hsame)
  rw [hmoved] at hplay
  obtain ⟨input, hinput⟩ := h.exists_input hcan
  have htask' := htask
  rw [h.task_play hinput, Option.some_inj, Task.mk.injEq] at htask
  have hoperates := operates hskip (htrees.2 j) htrees.1 htask.2
  have hlength := (List.getElem?_eq_some_iff.mp htask').1
  refine .taken hinput hcan ?_ ?_ fun i hi => ?_
  · rw [h.report?_play hinput, htask.2]
    rfl
  · rw [hplay]
    unfold report?
    rw [List.getElem?_set_self hlength]
    exact hoperates
  · rw [hplay]
    unfold report?
    rw [List.getElem?_set_ne hi.symm]

/-- **The disk stays a tree**, whatever is done for the inputs. -/
theorem trees_play (jobs : Nat) (h : pool.IsFresh batch chance inputs)
    (hskip : batch.skipExisting = true) (hdisk : pool.disk.IsTree) (schedule : List Nat) :
    Trees jobs pool schedule := by
  induction schedule using List.reverseRecOn with
  | nil => exact ⟨⟨hdisk, rfl⟩, fun i d hd => absurd hd List.not_mem_nil⟩
  | append_singleton schedule j ih =>
    refine ⟨?_, fun i d hd => ?_⟩
    · cases ih.turn h hskip j with
      | passedOver _ hsame =>
        rw [hsame]
        exact ih.1
      | taken _ _ _ hoperates _ => exact hoperates.isTreeAt ih.1
    · rcases mem_found_concat hd with hd | rfl
      · exact ih.2 i d hd
      · exact ih.1

theorem report_play (h : pool.IsFresh batch chance inputs) (hskip : batch.skipExisting = true)
    (hdisk : pool.disk.IsTree) (hinput : inputs[i]? = some input)
    (hreport : (pool.play jobs schedule).report? i = some report) :
    report = skippedReport input ∧
        (∀ first second, ¬LooksInVain batch input (found jobs i pool schedule) first second) ∨
      (∃ first second, LooksInVain batch input (found jobs i pool schedule) first second) ∧
        ∃ third ∈ found jobs i pool schedule, Reports input ((chance i input).extract third) report := by
  rw [h.report?_play hinput] at hreport
  exact report_cases hskip ((trees_play jobs h hskip hdisk schedule).2 i) hreport

/-- The operations for an input that is passed over leave the disk as it is. -/
theorem disk_advance (h : pool.IsFresh batch chance inputs) (hskip : batch.skipExisting = true)
    (hdisk : pool.disk.IsTree) {before behind : List Nat} (hsplit : schedule = before ++ j :: behind)
    (hvain : ∀ first second, ¬LooksInVain batch input (found jobs j pool schedule) first second)
    (hinput : inputs[j]? = some input) :
    (pool.play jobs (before ++ [j])).disk = (pool.play jobs before).disk := by
  cases (trees_play jobs h hskip hdisk before).turn h hskip j with
  | passedOver _ hsame => rw [hsame]
  | taken hinput' _ _ hoperates _ =>
    rw [hinput, Option.some_inj] at hinput'
    subst hinput'
    refine hoperates.disk_eq fun first second hfront => hvain first second ?_
    rw [hsplit, found_append]
    exact hfront.append

/-! ### Between the two looks -/

/-- What holds behind the first look for an input, and is preserved by the operations for others while
the second one is still to come, holds at the second one. -/
theorem between_looks {P : Disk → Disk → Prop} (h : pool.IsFresh batch chance inputs)
    (hskip : batch.skipExisting = true) (hdisk : pool.disk.IsTree) (hbegin : ∀ first, P first first)
    (hstep : ∀ schedule j first other, inputs[j]? = some other → j ≠ i →
      found jobs i pool schedule = [first] → (pool.play jobs schedule).canMove jobs j = true →
      Operates batch other (found jobs j pool schedule) (pool.play jobs schedule).disk
        (pool.play jobs (schedule ++ [j])).disk ((pool.play jobs (schedule ++ [j])).report? j) →
      P first (pool.play jobs schedule).disk → P first (pool.play jobs (schedule ++ [j])).disk)
    (schedule : List Nat) :
    (∀ first, found jobs i pool schedule = [first] → P first (pool.play jobs schedule).disk) ∧
      ∀ first second rest, found jobs i pool schedule = first :: second :: rest →
        P first second := by
  induction schedule using List.reverseRecOn with
  | nil => exact ⟨nofun, nofun⟩
  | append_singleton schedule j ih =>
    obtain ⟨hone, htwo⟩ := ih
    have htrees := trees_play jobs h hskip hdisk schedule
    rw [found_concat]
    cases htrees.turn h hskip j with
    | passedOver hcannot hsame =>
      have hnot : ¬(j = i ∧ (pool.play jobs schedule).canMove jobs i = true) := by
        rintro ⟨rfl, hcan⟩
        exact Bool.eq_false_iff.mp hcannot hcan
      rw [if_neg hnot, List.append_nil, hsame]
      exact ⟨hone, htwo⟩
    | taken hinput hcan _ hoperates _ =>
      by_cases hj : j = i
      · subst hj
        rw [if_pos ⟨rfl, hcan⟩]
        cases hseen : found jobs j pool schedule with
        | nil =>
          -- This is the first look: it leaves the disk as it is.
          rw [hseen] at hoperates
          have hsame := hoperates.disk_eq fun first second hvain =>
            absurd hvain.mem.1 List.not_mem_nil
          refine ⟨fun first hfirst => ?_, fun first second rest hfirst => ?_⟩
          · rw [hsame, List.singleton_inj.mp hfirst]
            exact hbegin first
          · cases hfirst
        | cons first seen =>
          refine ⟨fun d hd => ?_, fun first' second rest hfound => ?_⟩
          · simp at hd
          cases seen with
          | nil =>
            obtain ⟨rfl, hrest⟩ := List.cons.inj hfound
            obtain ⟨rfl, -⟩ := List.cons.inj hrest
            exact hone first hseen
          | cons second' seen =>
            obtain ⟨rfl, hrest⟩ := List.cons.inj hfound
            obtain ⟨rfl, -⟩ := List.cons.inj hrest
            exact htwo first second' seen hseen
      · rw [if_neg (not_and_of_not_left _ hj), List.append_nil]
        refine ⟨fun first hfirst => ?_, htwo⟩
        exact hstep schedule j first _ hinput hj hfirst hcan hoperates (hone first hfirst)

/-- **A single worker** looks for both results at the same time. -/
theorem second_eq_first (h : pool.IsFresh batch chance inputs) (hskip : batch.skipExisting = true)
    (hdisk : pool.disk.IsTree) (hjobs : jobs ≤ 1) (hinput : inputs[i]? = some input)
    (hvain : LooksInVain batch input (found jobs i pool schedule) first second) :
    second = first := by
  obtain ⟨⟨rest, hlooks⟩, hproofs, -⟩ := hvain
  refine (between_looks (P := fun first d =>
    first.occupied (outputs batch input).proofs = false → d = first) h hskip hdisk
    (fun _ _ => rfl) ?_ schedule).2 first second rest hlooks hproofs
  intro schedule j first other _ hj hfound hcan _ _ hfree
  -- The worker has looked for one of the results, so it is still at work on this input.
  refine absurd (eq_of_canMove hjobs (busy_play ?_ schedule) (h.task_play hinput schedule) ?_ hcan) hj
  · rw [h.busy_eq_zero]
    exact Nat.zero_le _
  · rw [hfound, work_eq hskip, Work.after, hfree, if_neg Bool.false_ne_true, Work.after_nil]
    rfl

/-- **An input that shares its results with no other** has none at the first look either. -/
theorem hasResult_first (h : pool.IsFresh batch chance inputs) (hskip : batch.skipExisting = true)
    (hdisk : pool.disk.IsTree) (hshares : SharesNone batch pool.disk inputs i input)
    (hvain : LooksInVain batch input (found jobs i pool schedule) first second) :
    hasResult first (outputs batch input) = false := by
  obtain ⟨⟨rest, hlooks⟩, hproofs, hfailure⟩ := hvain
  have hkept := (between_looks (P := fun first d =>
    first.occupied (outputs batch input).failure = true →
      d.occupied (outputs batch input).failure = true) h hskip hdisk (fun _ hfound => hfound) ?_
    schedule).2 first second rest hlooks
  · refine hasResult_of_free hproofs (Bool.eq_false_iff.mpr fun hfound => ?_)
    exact Bool.false_ne_true (hfailure.symm.trans (hkept hfound))
  intro schedule j first other hother hj _ _ hoperates hkept hfound
  have htree := (trees_play jobs h hskip hdisk schedule).1
  refine hoperates.occupied htree.1 (fun p hp => ?_) (hkept hfound)
  rw [Disk.destination_congr htree.2, Disk.destination_congr htree.2]
  exact hshares j other hother hj _ (failure_mem_results batch input) p hp

end Batch.Pool

end ProofProse
