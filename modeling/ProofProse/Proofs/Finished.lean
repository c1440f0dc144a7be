import ProofProse.Proofs.Turns

/-! # Results that stay

When each input of a batch is passed over or has a result as soon as the work on it is done, however
the workers take turns, then an input that is done with has a result from then on
(`Batch.Pool.hasResult_of_report`). What was on the disk before stays as well, but for what is
overlooked: it stands where a result leads to whose path steps up from where there is no folder
(`Batch.Pool.entry?_play`). Where all inputs have a result nothing is done
(`Batch.Pool.play_of_results`). -/

namespace ProofProse

namespace Batch

variable {batch : BatchOptions} {disk disk' first second : Disk} {input other path : Path}
  {seen more : List Disk} {q : Place} {report : FileReport} {content : Encoding.Bytes}

/-! ### Results stay -/

/-- An input that has a result has one behind an operation for any input, when all that are done with
are passed over or have a result. -/
theorem Operates.hasResult {report? : Option FileReport}
    (h : Operates batch input seen disk disk' report?) (hdisk : disk.IsTree)
    (hfinished : ∀ report, report? = some report →
      report.status = .skipped ∨ Batch.hasResult disk' (outputs batch input) = true)
    (hother : Batch.hasResult disk (outputs batch other) = true) :
    Batch.hasResult disk' (outputs batch other) = true := by
  cases h with
  | looks => exact hother
  | finds => exact hother
  | adds _ hadds =>
    obtain ⟨a, b, hends, hfound⟩ := hasResult_iff.mp hother
    exact hasResult_iff.mpr ⟨a, b, hends, hadds.occupied hdisk hfound⟩
  | takes _ htakes hreport =>
    exact htakes.hasResult hdisk ((hfinished _ rfl).resolve_left hreport) hother

theorem Operates.own_hasResult (h : Operates batch input seen disk disk' (some report))
    (hfinished : report.status = .skipped ∨ Batch.hasResult disk' (outputs batch input) = true) :
    Batch.hasResult disk' (outputs batch input) = true := by
  cases h with
  | finds hfound => exact hfound
  | adds _ _ hreport => exact hfinished.resolve_left (hreport report rfl)
  | takes _ _ hreport => exact hfinished.resolve_left hreport

/-! ### What was there stays -/

/-- The results of an input were looked for in vain, though one of the paths leads to a place: where it
steps up there was no folder. -/
inductive Overlooks (batch : BatchOptions) (input : Path) (seen : List Disk) : Place → Prop
  | proofs {first second : Disk} (h : LooksInVain batch input seen first second)
      (hclimbs : first.Climbs (outputs batch input).proofs) :
      Overlooks batch input seen (first.destination (outputs batch input).proofs)
  | failure {first second : Disk} (h : LooksInVain batch input seen first second)
      (hclimbs : second.Climbs (outputs batch input).failure) :
      Overlooks batch input seen (second.destination (outputs batch input).failure)

theorem Overlooks.append (h : Overlooks batch input seen q) :
    Overlooks batch input (seen ++ more) q := by
  cases h with
  | proofs hvain hclimbs => exact .proofs hvain.append hclimbs
  | failure hvain hclimbs => exact .failure hvain.append hclimbs

/-- Where something was there at both looks, none of the results is to be. -/
theorem LooksInVain.not_aims (h : LooksInVain batch input seen first second)
    (hseen : ∀ d ∈ seen, IsTreeAt disk.working d ∧ d.entry? q ≠ none)
    (hover : ¬Overlooks batch input seen q) : ∀ path ∈ results batch input, ¬disk.Aims path q := by
  obtain ⟨hfirst, hsecond⟩ := h.mem
  obtain ⟨⟨htree, hworking⟩, hthere⟩ := hseen first hfirst
  obtain ⟨⟨htree', hworking'⟩, hthere'⟩ := hseen second hsecond
  intro path hpath haims
  unfold results at hpath
  rcases List.mem_pair.mp hpath with hproofs | hfailure
  · have haims' := haims.congr hworking
    rw [hproofs] at haims'
    refine hthere (haims'.missing htree (fun hclimbs => hover ?_) h.proofs)
    rw [← haims'.destination]
    exact .proofs h hclimbs
  · have haims' := haims.congr hworking'
    rw [hfailure] at haims'
    refine hthere' (haims'.missing htree' (fun hclimbs => hover ?_) h.failure)
    rw [← haims'.destination]
    exact .failure h hclimbs

theorem Operates.entry?_eq {report? : Option FileReport}
    (h : Operates batch input seen disk disk' report?) (hq : disk.entry? q ≠ none)
    (hseen : ∀ d ∈ seen, IsTreeAt disk.working d ∧ d.entry? q ≠ none)
    (hover : ¬Overlooks batch input seen q) : disk'.entry? q = disk.entry? q := by
  cases h with
  | looks => rfl
  | finds => rfl
  | adds hvain hadds => exact hadds.elsewhere q (hvain.not_aims hseen hover) hq
  | takes hvain htakes =>
    obtain ⟨a, b, gone, hends, hfinds, rfl⟩ := htakes
    have hne : q ≠ gone := by
      rintro rfl
      exact hvain.not_aims hseen hover _ (resultPath_mem_results hends) hfinds.aims
    rw [Disk.entry?_erase hfinds.ne_nil, if_neg hne]

theorem Operates.folder {report? : Option FileReport}
    (h : Operates batch input seen disk disk' report?) (hq : disk.entry? q = some .folder) :
    disk'.entry? q = some .folder := by
  cases h with
  | looks => exact hq
  | finds => exact hq
  | adds _ hadds => exact hadds.folder q hq
  | takes _ htakes =>
    obtain ⟨a, b, gone, -, hfinds, rfl⟩ := htakes
    exact Disk.folder_erase hfinds.free hq

theorem occupied_of_read (hread : disk.read path = .ok content) : disk.occupied path = true := by
  by_contra hfree
  have hfile := isFile_of_read hread
  rw [isFile_of_not_occupied (Bool.eq_false_iff.mpr hfree)] at hfile
  cases hfile

end Batch

/-! ### Runs -/

namespace Batch.Pool

variable {batch : BatchOptions} {chance : Nat → Path → Chance} {inputs : List Path} {pool : Pool}
  {input other path : Path} {i j jobs : Nat} {schedule rest : List Nat} {report : FileReport}
  {q : Place} {content : Encoding.Bytes} {first second : Disk} {seen : List Disk}

/-- Each input is passed over, or has a result when the work on it is done. -/
def AllFinished (batch : BatchOptions) (inputs : List Path) (pool : Pool) (schedule : List Nat) :
    Prop :=
  ∀ before j behind, schedule = before ++ j :: behind → ∀ input report, inputs[j]? = some input →
    (pool.play batch.jobs before).report? j = none →
    (pool.play batch.jobs (before ++ [j])).report? j = some report →
    report.status = .skipped ∨
      hasResult (pool.play batch.jobs (before ++ [j])).disk (outputs batch input) = true

theorem AllFinished.front (h : AllFinished batch inputs pool (schedule ++ rest)) :
    AllFinished batch inputs pool schedule := by
  intro before j behind hsplit
  exact h before j (behind ++ rest) (by rw [hsplit, List.append_assoc, List.cons_append])

/-- **Results stay**: an input that is done with has a result from then on. -/
theorem hasResult_of_report (h : pool.IsFresh batch chance inputs) (hskip : batch.skipExisting = true)
    (hdisk : pool.disk.IsTree) : ∀ {schedule : List Nat},
    AllFinished batch inputs pool schedule → ∀ {i : Nat} {input : Path} {report : FileReport},
    inputs[i]? = some input → (pool.play batch.jobs schedule).report? i = some report →
    hasResult (pool.play batch.jobs schedule).disk (outputs batch input) = true := by
  intro schedule
  induction schedule using List.reverseRecOn with
  | nil =>
    intro _ i input report _ hreport
    rw [show pool.play batch.jobs [] = pool from rfl, h.report?_eq_none] at hreport
    cases hreport
  | append_singleton schedule j ih =>
    intro hfinished i input report hinput hreport
    have htrees := trees_play batch.jobs h hskip hdisk schedule
    cases htrees.turn h hskip j with
    | passedOver _ hsame =>
      rw [hsame] at hreport ⊢
      exact ih hfinished.front hinput hreport
    | @taken input' hinput' _ hleft hoperates hothers =>
      have hlast := fun report' => hfinished schedule j [] rfl input' report' hinput' hleft
      by_cases hi : i = j
      · subst hi
        rw [hinput', Option.some_inj] at hinput
        subst hinput
        rw [hreport] at hoperates
        exact hoperates.own_hasResult (hlast report hreport)
      · rw [hothers i hi] at hreport
        exact hoperates.hasResult htrees.1.1 hlast (ih hfinished.front hinput hreport)

/-- **What was there stays**, but for what stands where results of an input lead to that were
overlooked. -/
theorem entry?_play (h : pool.IsFresh batch chance inputs) (hskip : batch.skipExisting = true)
    (hdisk : pool.disk.IsTree) (hq : pool.disk.entry? q ≠ none) : ∀ {schedule : List Nat},
    (∀ i input, inputs[i]? = some input →
      ¬Overlooks batch input (found jobs i pool schedule) q) →
    Disk.entry? (pool.play jobs schedule).disk q = pool.disk.entry? q ∧
      ∀ i, ∀ d ∈ found jobs i pool schedule, d.entry? q = pool.disk.entry? q := by
  intro schedule
  induction schedule using List.reverseRecOn with
  | nil => exact fun _ => ⟨rfl, fun i d hd => absurd hd List.not_mem_nil⟩
  | append_singleton schedule j ih =>
    intro hover
    have hfront : ∀ i input, inputs[i]? = some input →
        ¬Overlooks batch input (found jobs i pool schedule) q := by
      intro i input hinput h
      refine hover i input hinput ?_
      rw [found_append]
      exact h.append
    obtain ⟨hsame, hseen⟩ := ih hfront
    have htrees := trees_play jobs h hskip hdisk schedule
    refine ⟨?_, fun i d hd => ?_⟩
    · cases htrees.turn h hskip j with
      | passedOver _ hsame' => rw [hsame', hsame]
      | @taken input hinput _ _ hoperates _ =>
        refine (hoperates.entry?_eq (hsame ▸ hq) (fun d hd => ?_) (hfront j input hinput)).trans hsame
        rw [htrees.1.2]
        exact ⟨htrees.2 j d hd, hseen j d hd ▸ hq⟩
    · rcases mem_found_concat hd with hd | rfl
      · exact hseen i d hd
      · exact hsame

theorem folder_play (h : pool.IsFresh batch chance inputs) (hskip : batch.skipExisting = true)
    (hdisk : pool.disk.IsTree) (hq : pool.disk.entry? q = some .folder) (schedule : List Nat) :
    Disk.entry? (pool.play jobs schedule).disk q = some .folder := by
  induction schedule using List.reverseRecOn with
  | nil => exact hq
  | append_singleton schedule j ih =>
    cases (trees_play jobs h hskip hdisk schedule).turn h hskip j with
    | passedOver _ hsame => rwa [hsame]
    | taken _ _ _ hoperates _ => exact hoperates.folder ih

theorem read_play (h : pool.IsFresh batch chance inputs) (hskip : batch.skipExisting = true)
    (hdisk : pool.disk.IsTree) (hread : pool.disk.read path = .ok content)
    (hover : ∀ i input, inputs[i]? = some input →
      ¬Overlooks batch input (found jobs i pool schedule) (pool.disk.destination path)) :
    (pool.play jobs schedule).disk.read path = .ok content := by
  have hfound := occupied_of_read hread
  have hplace := Disk.place_of_occupied hfound
  rw [← hread]
  refine Disk.read_congr (trees_play jobs h hskip hdisk schedule).1.2 fun q hq => ?_
  rcases List.mem_append.mp hq with hq | hq
  · have hfolder := Disk.folders_of_place hdisk.working hplace q hq
    rw [hfolder]
    exact folder_play h hskip hdisk hfolder schedule
  · rw [List.mem_singleton.mp hq]
    refine (entry?_play h hskip hdisk (fun hmissing => ?_) hover).1
    rw [Disk.occupied_of_missing hmissing] at hfound
    cases hfound

/-! ### Inputs that have results -/

/-- **Where all inputs have a result** nothing is done. -/
theorem play_of_results (h : pool.IsFresh batch chance inputs) (hskip : batch.skipExisting = true)
    (hdisk : pool.disk.IsTree)
    (hall : ∀ input ∈ inputs, hasResult pool.disk (outputs batch input) = true)
    (schedule : List Nat) : (pool.play jobs schedule).disk = pool.disk ∧
      ∀ i, ∀ d ∈ found jobs i pool schedule, d = pool.disk := by
  induction schedule using List.reverseRecOn with
  | nil => exact ⟨rfl, fun i d hd => absurd hd List.not_mem_nil⟩
  | append_singleton schedule j ih =>
    obtain ⟨hsame, hseen⟩ := ih
    refine ⟨?_, fun i d hd => ?_⟩
    · cases (trees_play jobs h hskip hdisk schedule).turn h hskip j with
      | passedOver _ hpassed => rw [hpassed, hsame]
      | taken hinput _ _ hoperates _ =>
        refine (hoperates.disk_eq fun first second hvain => ?_).trans hsame
        have hnone := hvain.hasResult_eq_false (hseen j)
        rw [hall _ (List.mem_of_getElem? hinput)] at hnone
        cases hnone
    · rcases mem_found_concat hd with hd | rfl
      · exact hseen i d hd
      · exact hsame

theorem reports_of_results (h : pool.IsFresh batch chance inputs) (hskip : batch.skipExisting = true)
    (hdisk : pool.disk.IsTree)
    (hall : ∀ input ∈ inputs, hasResult pool.disk (outputs batch input) = true)
    (hover : (pool.play jobs schedule).IsOver) :
    (pool.play jobs schedule).reports = inputs.map skippedReport := by
  refine List.ext_getElem? fun i => ?_
  rw [getElem?_reports hover, List.getElem?_map]
  cases hinput : inputs[i]? with
  | none =>
    have hlength := List.getElem?_eq_none_iff.mp hinput
    rw [← h.length, ← length_play jobs pool schedule] at hlength
    unfold report?
    rw [List.getElem?_eq_none hlength]
    rfl
  | some input =>
    obtain ⟨report, hreport⟩ := h.exists_report hover hinput
    rw [hreport]
    rcases report_play h hskip hdisk hinput hreport with ⟨rfl, -⟩ | ⟨⟨first, second, hvain⟩, -⟩
    · rfl
    · have hnone := hvain.hasResult_eq_false ((play_of_results h hskip hdisk hall schedule).2 i)
      rw [hall _ (List.mem_of_getElem? hinput)] at hnone
      cases hnone

end Batch.Pool

end ProofProse
