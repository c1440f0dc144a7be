import ProofProse.Proofs.Finished
import ProofProse.Proofs.Loss

/-! # Batches that pass over finished inputs

When each input of a run is passed over or has a result as soon as the work on it is done, however
the workers take turns, then a second run passes over all of them and leaves the disk as it is. In the
first run exactly those inputs are worked on whose results are looked for in vain, and what was on the
disk before stays, but for what is overlooked (`Batch.second_run_changes_nothing`).

That the result has been written at some time does not suffice
(`Batch.finished_work_may_be_undone`). -/

namespace ProofProse

/-! ### Inputs that are finished in order -/

namespace Batch

variable {batch : BatchOptions} {options : Options} {disk disk' : Disk} {input path : Path}
  {inputs : List Path} {pool : Pool} {i : Nat} {report : FileReport} {front behind : List Nat}
  {place p q : Place}

open Pool (AllFinished)

/-- Each input is passed over or has a result when it has been handled, in order. -/
def FinishesInOrder (batch : BatchOptions) (options : Options) (disk : Disk) : List Path → Prop
  | [] => True
  | input :: inputs =>
    let processed := process batch options disk input
    (processed.report.status = .skipped ∨ hasResult processed.disk (outputs batch input) = true) ∧
      FinishesInOrder batch options processed.disk inputs

theorem allFinished_append (h : AllFinished batch inputs pool front)
    (h' : AllFinished batch inputs (pool.play batch.jobs front) behind) :
    AllFinished batch inputs pool (front ++ behind) := by
  intro before j rest hsplit input report hinput hleft hreport
  rcases List.append_eq_append_iff.mp hsplit with ⟨more, rfl, hrest⟩ | ⟨more, hfront, hrest⟩
  · rw [List.append_assoc, Pool.play_append] at hreport ⊢
    rw [Pool.play_append] at hleft
    exact h' more j rest hrest input report hinput hleft hreport
  · cases more with
    | nil =>
      rw [List.append_nil] at hfront
      subst hfront
      rw [Pool.play_append] at hreport ⊢
      exact h' [] j rest hrest.symm input report hinput hleft hreport
    | cons j' more =>
      obtain ⟨rfl, -⟩ := List.cons.inj hrest
      exact h before j more hfront input report hinput hleft hreport

theorem play_of_report (h : pool.report? i = some report) (n : Nat) :
    pool.play batch.jobs (List.replicate n i) = pool := by
  have hpassed : pool.advance batch.jobs i = pool := by
    rcases Pool.advance_cases batch.jobs pool i with ⟨-, hsame⟩ | ⟨_, _, _, -, htask, -⟩
    · exact hsame
    · unfold Pool.report? at h
      rw [htask] at h
      cases h
  induction n with
  | zero => rfl
  | succ n ih =>
    show (pool.advance batch.jobs i).play batch.jobs (List.replicate n i) = pool
    rw [hpassed, ih]

/-- Operations for one input: only what is on the disk behind them counts. -/
theorem allFinished_replicate {n : Nat} (h : ∀ input report, inputs[i]? = some input →
      (pool.play batch.jobs (List.replicate n i)).report? i = some report →
      report.status = .skipped ∨
        hasResult (pool.play batch.jobs (List.replicate n i)).disk (outputs batch input) = true) :
    AllFinished batch inputs pool (List.replicate n i) := by
  intro before j behind hsplit input report hinput _ hreport
  obtain ⟨-, -, hlast⟩ := List.append_eq_replicate_iff.mp hsplit.symm
  rw [List.length_cons, List.replicate_succ] at hlast
  obtain ⟨rfl, hbehind⟩ := List.cons.inj hlast
  have hsame : pool.play batch.jobs (List.replicate n j) = pool.play batch.jobs (before ++ [j]) := by
    rw [hsplit, List.append_cons, Pool.play_append, hbehind]
    exact play_of_report hreport _
  rw [← hsame] at hreport ⊢
  exact h input report hinput hreport

/-- **A run follows a schedule**: by induction on the inputs that are left. -/
theorem exists_play_eq (batch : BatchOptions) (options : Options) : ∀ (inputs done : List Path)
    (reports : List FileReport) (disk : Disk), done.length = reports.length → ∃ schedule,
    Pool.play batch.jobs ⟨disk, reports.map .ofReport ++ inputs.map (.ofInput batch options)⟩
        schedule =
      ⟨(processInOrder batch options disk inputs).2,
        (reports ++ (processInOrder batch options disk inputs).1.map Prod.snd).map .ofReport⟩ ∧
    (FinishesInOrder batch options disk inputs → AllFinished batch (done ++ inputs)
      ⟨disk, reports.map .ofReport ++ inputs.map (.ofInput batch options)⟩ schedule)
  | [], done, reports, disk, _ => by
    refine ⟨[], by simp [processInOrder, Pool.play], fun _ before j behind hsplit => ?_⟩
    exact absurd hsplit.symm (List.append_ne_nil_of_right_ne_nil _ (List.cons_ne_nil _ _))
  | input :: inputs, done, reports, disk, hlength => by
    obtain ⟨n, hn⟩ := Pool.exists_finish_eq batch.jobs reports.length
      ⟨disk, reports.map .ofReport ++ (input :: inputs).map (.ofInput batch options)⟩
    rw [finish_next] at hn
    obtain ⟨schedule, hplay, hfinished⟩ := exists_play_eq batch options inputs (done ++ [input])
      (reports ++ [(process batch options disk input).report]) (process batch options disk input).disk
      (by rw [List.length_append, List.length_append, hlength]; rfl)
    refine ⟨List.replicate n reports.length ++ schedule, ?_, fun hinOrder => ?_⟩
    · rw [Pool.play_append, ← hn, hplay, List.append_assoc]
      rfl
    · obtain ⟨hfirst, hrest⟩ := hinOrder
      refine allFinished_append (allFinished_replicate fun other report hother hreport => ?_) ?_
      · rw [← hn] at hreport ⊢
        rw [← hlength, List.getElem?_append_right le_rfl, Nat.sub_self] at hother
        obtain rfl : input = other := Option.some.inj hother
        have hown : report = (process batch options disk input).report := by
          unfold Pool.report? at hreport
          simpa [Task.ofReport, Work.result?] using hreport.symm
        rw [hown]
        exact hfirst
      · rw [← hn]
        rw [List.append_assoc] at hfinished
        exact hfinished hrest

/-- **A run** that the first failure does not end is one of those in which workers take turns. -/
theorem exists_runBy_eq (batch : BatchOptions) (options : Options) (disk : Disk) (inputs : List Path)
    (hfast : batch.failFast = false) : ∃ schedule,
    ((Pool.start batch (fun _ => .steady options) disk inputs).play batch.jobs schedule).IsOver ∧
    (FinishesInOrder batch options disk inputs →
      AllFinished batch inputs (Pool.start batch (fun _ => .steady options) disk inputs) schedule) ∧
    run batch options disk inputs =
      runBy schedule batch (fun _ => .steady options) disk inputs := by
  obtain ⟨schedule, hplay, hfinished⟩ := exists_play_eq batch options inputs [] [] disk rfl
  rw [List.map_nil, List.nil_append, List.nil_append] at hplay hfinished
  have hstart := start_steady batch options disk inputs
  refine ⟨schedule, ?_, hstart ▸ hfinished, ?_⟩
  · rw [hstart, hplay]
    intro task htask
    obtain ⟨report, -, rfl⟩ := List.mem_map.mp htask
    rfl
  · rw [run_eq hfast]
    unfold runBy Pool.conclude
    rw [hstart, hplay, reports_ofReport]

/-! ### Two runs -/

variable {chance : Nat → Path → Chance} {schedule : List Nat}

theorem outputs_jobs (batch : BatchOptions) (jobs : Nat) (input : Path) :
    outputs { batch with jobs := jobs } input = outputs batch input := by
  unfold outputs relativePath
  rfl

theorem runBy_eq (hsummary : batch.summary = none) (schedule : List Nat)
    (chance : Nat → Path → Chance) (disk : Disk) (inputs : List Path) :
    runBy schedule batch chance disk inputs =
      (.ok ⟨((Pool.start batch chance disk inputs).play batch.jobs schedule).reports⟩,
        ((Pool.start batch chance disk inputs).play batch.jobs schedule).disk) := by
  unfold runBy Pool.conclude conclude
  rw [hsummary]

/-- **Where all inputs have a result** a run changes nothing. -/
theorem runBy_of_results (batch : BatchOptions) (hdisk : disk.IsTree) (hskip : batch.skipExisting = true)
    (hsummary : batch.summary = none)
    (hall : ∀ input ∈ inputs, hasResult disk (outputs batch input) = true)
    (chance : Nat → Path → Chance) (schedule : List Nat) :
    (runBy schedule batch chance disk inputs).2 = disk ∧
      (((Pool.start batch chance disk inputs).play batch.jobs schedule).IsOver →
        runBy schedule batch chance disk inputs = (.ok ⟨inputs.map skippedReport⟩, disk)) := by
  have hfresh := Pool.isFresh_start batch chance disk inputs
  have hsame : ((Pool.start batch chance disk inputs).play batch.jobs schedule).disk = disk :=
    (Pool.play_of_results hfresh hskip hdisk hall schedule).1
  rw [runBy_eq hsummary]
  refine ⟨hsame, fun hover => ?_⟩
  rw [Pool.reports_of_results hfresh hskip hdisk hall hover, hsame]

theorem run_of_results (batch : BatchOptions) (options : Options) (hdisk : disk.IsTree)
    (hskip : batch.skipExisting = true) (hfast : batch.failFast = false)
    (hsummary : batch.summary = none)
    (hall : ∀ input ∈ inputs, hasResult disk (outputs batch input) = true) :
    run batch options disk inputs = (.ok ⟨inputs.map skippedReport⟩, disk) := by
  obtain ⟨schedule, hover, -, hrun⟩ := exists_runBy_eq batch options disk inputs hfast
  rw [hrun]
  exact (runBy_of_results batch hdisk hskip hsummary hall _ schedule).2 hover

/-- **A second run changes nothing.** Let a batch pass over the inputs that have a result, and go on
behind a failure. Whatever is on the disk, whatever the inputs are and however the operations of the
workers follow each other, let each input be passed over or have a result when the work on it is
done. Then any run over these inputs afterwards, by any number of workers, passes over all of them
and leaves the disk as it is. In the first run exactly those inputs are worked on of which the proofs
are not found at the first look and the failure is not found at the second one. A single worker looks
for both at the same time, and where no other input has results at the same places there is neither of
them at the first look. All files can be read afterwards as before, but for those that stand where a
result leads to that was looked for in vain, and of which the path steps up from where there was no
folder. -/
theorem second_run_changes_nothing (hdisk : disk.IsTree) (hskip : batch.skipExisting = true)
    (hfast : batch.failFast = false) (hsummary : batch.summary = none)
    (hover : ((Pool.start batch chance disk inputs).play batch.jobs schedule).IsOver)
    (hfinished : AllFinished batch inputs (Pool.start batch chance disk inputs) schedule) :
    let start := Pool.start batch chance disk inputs
    let last := (start.play batch.jobs schedule).disk
    (∀ jobs again, again ⊆ inputs →
      let batch := { batch with jobs := jobs }
      (∀ chance schedule, (runBy schedule batch chance last again).2 = last ∧
        (((Pool.start batch chance last again).play jobs schedule).IsOver →
          runBy schedule batch chance last again = (.ok ⟨again.map skippedReport⟩, last))) ∧
      ∀ options, run batch options last again = (.ok ⟨again.map skippedReport⟩, last)) ∧
    (∃ reports, runBy schedule batch chance disk inputs = (.ok ⟨reports⟩, last) ∧
      reports.length = inputs.length ∧
      ∀ i input, inputs[i]? = some input →
        let seen := Pool.found batch.jobs i start schedule
        ∃ report, reports[i]? = some report ∧
          (report.status ≠ .skipped ↔
            ∃ first second, LooksInVain batch input seen first second) ∧
          (report.status ≠ .skipped →
            ∃ third ∈ seen, Reports input ((chance i input).extract third) report) ∧
          (report.status = .skipped → report = skippedReport input ∧
            ∀ before behind, schedule = before ++ i :: behind →
              (start.play batch.jobs (before ++ [i])).disk = (start.play batch.jobs before).disk) ∧
          ∀ first second, LooksInVain batch input seen first second →
            (batch.jobs ≤ 1 → second = first) ∧
            (SharesNone batch disk inputs i input →
              hasResult first (outputs batch input) = false)) ∧
    ∀ path content, disk.read path = .ok content →
      (∀ i input, inputs[i]? = some input → ¬Overlooks batch input
        (Pool.found batch.jobs i start schedule) (disk.destination path)) →
      last.read path = .ok content := by
  intro start last
  have hfresh := Pool.isFresh_start batch chance disk inputs
  have htree : last.IsTree := (Pool.trees_play batch.jobs hfresh hskip hdisk schedule).1.1
  refine ⟨fun jobs again hagain => ?_, ⟨_, runBy_eq hsummary schedule chance disk inputs, ?_,
    fun i input hinput => ?_⟩, fun path content hread hoff =>
      Pool.read_play hfresh hskip hdisk hread hoff⟩
  · have hall : ∀ input ∈ again,
        hasResult last (outputs { batch with jobs := jobs } input) = true := by
      intro input hmem
      obtain ⟨i, hi, rfl⟩ := List.getElem_of_mem (hagain hmem)
      have hinput := List.getElem?_eq_getElem hi
      obtain ⟨report, hreport⟩ := hfresh.exists_report hover hinput
      rw [outputs_jobs]
      exact Pool.hasResult_of_report hfresh hskip hdisk hfinished hinput hreport
    exact ⟨runBy_of_results { batch with jobs := jobs } htree hskip hsummary hall,
      fun options =>
        run_of_results { batch with jobs := jobs } options htree hskip hfast hsummary hall⟩
  · rw [Pool.length_reports hover, Pool.length_play, hfresh.length]
  · obtain ⟨report, hreport⟩ := hfresh.exists_report hover hinput
    have hcases := Pool.report_play hfresh hskip hdisk hinput hreport
    refine ⟨report, (Pool.getElem?_reports hover i).trans hreport, ?_, ?_, ?_,
      fun first second hvain => ⟨fun hjobs => Pool.second_eq_first hfresh hskip hdisk hjobs hinput hvain,
        fun hshares => Pool.hasResult_first hfresh hskip hdisk hshares hvain⟩⟩
    · rcases hcases with ⟨rfl, hnever⟩ | ⟨hvain, third, -, hreports⟩
      · exact iff_of_false (fun hstatus => hstatus rfl) fun ⟨first, second, hvain⟩ =>
          hnever first second hvain
      · exact iff_of_true hreports.status_ne hvain
    · intro hstatus
      rcases hcases with ⟨rfl, -⟩ | ⟨-, hreports⟩
      · exact absurd rfl hstatus
      · exact hreports
    · intro hstatus
      rcases hcases with ⟨rfl, hnever⟩ | ⟨-, third, -, hreports⟩
      · refine ⟨rfl, fun before behind hsplit => ?_⟩
        exact Pool.disk_advance hfresh hskip hdisk hsplit hnever hinput
      · exact absurd hstatus hreports.status_ne

/-! ### Batches of a few inputs -/

/-- Two workers that pass over the inputs that have a result. -/
def passing : BatchOptions where
  jobs := 2
  skipExisting := true

theorem status_extractAndWrite (options : Options) (results : Outputs) (disk : Disk)
    (input : Path) : (extractAndWrite options results disk input).report.status ≠ .skipped := by
  unfold extractAndWrite
  split <;> split <;> exact nofun

/-- An input has a result when it has been handled, if nothing is in the way of its results. -/
theorem hasResult_of_writable (options : Options)
    (hworking : disk.entry? disk.working = some .folder)
    (hwritable : (outputs batch input).Writable disk)
    (hover : passesOver batch disk input = false) :
    hasResult (process batch options disk input).disk (outputs batch input) = true := by
  obtain ⟨above, stem, hbeside⟩ := sideBySide_outputs hwritable.proofs.fileName
  rw [process_of_not_passesOver options hover]
  cases hextract : extractFile options disk input with
  | ok extraction =>
    obtain ⟨disk', hwrite, hreplaced⟩ := replaceFile_ok hbeside (proofLines extraction.proofs)
      hworking hwritable.proofs hwritable.failure hwritable.apart
    obtain ⟨hread, -⟩ := read_of_replaced hbeside hwritable.proofs hwritable.failure
      hwritable.apart hreplaced
    rw [extractAndWrite_of_ok hextract hwrite]
    exact hasResult_of_proofs (occupied_of_read hread)
  | error failure =>
    obtain ⟨disk', hrun, hreplaced⟩ := failure_is_written hbeside hworking hwritable hextract
    obtain ⟨hread, -⟩ := read_of_replaced hbeside.symm hwritable.failure hwritable.proofs
      (hwritable.symm_apart hbeside) hreplaced
    rw [hrun]
    exact hasResult_of_failure (occupied_of_read hread)

theorem not_overlooks {seen : List Disk}
    (h : ∀ path ∈ results batch input, Path.Component.parent ∉ path.components) :
    ¬Overlooks batch input seen q := by
  have hstays : ∀ {path : Path}, Path.Component.parent ∉ path.components →
      ∀ disk : Disk, ¬disk.Climbs path := by
    rintro path hnone disk ⟨front, behind, hsplit, -⟩
    exact hnone (hsplit ▸ List.mem_append_right front List.mem_cons_self)
  intro hover
  cases hover with
  | proofs _ hclimbs => exact hstays (h _ (proofs_mem_results batch input)) _ hclimbs
  | failure _ hclimbs => exact hstays (h _ (failure_mem_results batch input)) _ hclimbs

theorem read_climbEntries : Disk.read (.ofList climbEntries) ⟨"proofs/a.txt"⟩ = .ok [] := by
  have hentry := Disk.entry?_ofList climbEntries_ne_nil
  have hplace : Disk.place (.ofList climbEntries) ⟨"proofs/a.txt"⟩ = .ok ["proofs", "a.txt"] :=
    Disk.place_of_entries rfl hentry (by decide) (by decide) (by decide)
  exact Disk.read_of_place hplace (hentry _) (by decide)

theorem passesOver_climbEntries :
    passesOver passing (.ofList climbEntries) ⟨"texes/a.tex"⟩ = true := by
  have houtputs : outputs passing ⟨"texes/a.tex"⟩ = ⟨⟨"proofs/a.txt"⟩, ⟨"proofs/a.err"⟩⟩ := by
    decide
  refine passesOver_of_hasResult rfl (hasResult_of_proofs ?_)
  rw [houtputs]
  exact occupied_of_read read_climbEntries

/-- Inputs of which one has its proofs, and another one has no result and is listed twice. -/
def repeatedInputs : List Path := [⟨"texes/a.tex"⟩, ⟨"texes/b.tex"⟩, ⟨"texes/b.tex"⟩]

/-- **Finished inputs are passed over**: at first one result is written, and then nothing is done. -/
theorem repeated_inputs_are_finished :
    let start := Pool.start passing (fun _ => .steady .standard) (.ofList climbEntries) repeatedInputs
    (Disk.ofList climbEntries).IsTree ∧ ∃ schedule,
      (start.play passing.jobs schedule).IsOver ∧
      AllFinished passing repeatedInputs start schedule ∧
      let last := (start.play passing.jobs schedule).disk
      run passing .standard last repeatedInputs =
        (.ok ⟨repeatedInputs.map skippedReport⟩, last) ∧
      last.read ⟨"proofs/a.txt"⟩ = .ok [] := by
  intro start
  have hdisk : (Disk.ofList climbEntries).IsTree := Disk.isTree_ofList (by decide)
  have houtputs : outputs passing ⟨"texes/b.tex"⟩ = ⟨⟨"proofs/b.txt"⟩, ⟨"proofs/b.err"⟩⟩ := by
    decide
  have hfree : ∀ path ∈ [(⟨"proofs/b.txt"⟩ : Path), ⟨"proofs/b.err"⟩],
      Disk.occupied (.ofList climbEntries) path = false := by
    intro path hpath
    refine Disk.occupied_of_missing ?_
    rw [Disk.entry?_ofList (by decide), Disk.destination, Disk.working_ofList]
    revert path
    decide
  have hfirst : passesOver passing (.ofList climbEntries) ⟨"texes/b.tex"⟩ = false := by
    apply passesOver_of_no_result
    apply hasResult_of_free <;> rw [houtputs] <;> exact hfree _ (by decide)
  have hresult := hasResult_of_writable .standard hdisk.working
    (houtputs ▸ writable_ofList (by decide) (by decide) (by decide)) hfirst
  have hinOrder : FinishesInOrder passing .standard (.ofList climbEntries) repeatedInputs := by
    unfold repeatedInputs FinishesInOrder
    rw [process_of_passesOver .standard passesOver_climbEntries]
    refine ⟨.inl rfl, .inr hresult, ?_⟩
    rw [FinishesInOrder, process_of_passesOver .standard (passesOver_of_hasResult rfl hresult)]
    exact ⟨.inl rfl, trivial⟩
  obtain ⟨schedule, hover, hfinished, -⟩ :=
    exists_runBy_eq passing .standard (.ofList climbEntries) repeatedInputs rfl
  obtain ⟨hsecond, -, hread⟩ :=
    second_run_changes_nothing hdisk rfl rfl rfl hover (hfinished hinOrder)
  refine ⟨hdisk, schedule, hover, hfinished hinOrder,
    (hsecond passing.jobs repeatedInputs (List.Subset.refl _)).2 .standard,
    hread _ [] read_climbEntries fun i input hinput => not_overlooks ?_⟩
  have hnames : ∀ input ∈ repeatedInputs, ∀ path ∈ results passing input,
      Path.Component.parent ∉ path.components := by decide
  exact hnames input (List.mem_of_getElem? hinput)

/-! ### Work that is undone -/

/-- A source without proofs, and a folder for results. -/
def sharingEntries : List (Place × DiskEntry) :=
  [(["texes"], .folder), (["texes", "a.tex"], .file []), (["proofs"], .folder)]

/-- Inputs whose paths differ in the case of their endings, so that they have the same results. -/
def sharingInputs : List Path := [⟨"texes/a.tex"⟩, ⟨"texes/a.TEX"⟩]

theorem isFree_sharingEntries :
    IsFree (.ofList sharingEntries) ⟨"proofs/a.txt"⟩ ["proofs", "a.txt"] ∧
      IsFree (.ofList sharingEntries) ⟨"proofs/a.err"⟩ ["proofs", "a.err"] := by
  have hentry : ∀ q, Disk.entry? (.ofList sharingEntries) q = _ := Disk.entry?_ofList (by decide)
  have hplace : Disk.place (.ofList sharingEntries) ⟨"proofs"⟩ = .ok ["proofs"] :=
    Disk.place_of_entries rfl hentry (by decide) (by decide) (by decide)
  have hfolder : Disk.isFolder (.ofList sharingEntries) ⟨"proofs"⟩ = true := by
    rw [Disk.isFolder_of_place hplace, hentry]
    decide
  constructor
  · refine ⟨Disk.place_of_entries rfl hentry (by decide) (by decide) (by decide), by decide, ?_,
      makeFolderOf_of_isFolder (by decide) hfolder⟩
    rw [hentry]
    decide
  · refine ⟨Disk.place_of_entries rfl hentry (by decide) (by decide) (by decide), by decide, ?_,
      makeFolderOf_of_isFolder (by decide) hfolder⟩
    rw [hentry]
    decide

theorem extractFile_sharingEntries :
    (∃ extraction, extractFile .standard (.ofList sharingEntries) ⟨"texes/a.tex"⟩ = .ok extraction) ∧
      extractFile .standard (.ofList sharingEntries) ⟨"texes/a.TEX"⟩ =
        .error (.io DiskFault.notFound.message) := by
  have hentry : ∀ q, Disk.entry? (.ofList sharingEntries) q = _ := Disk.entry?_ofList (by decide)
  constructor
  · have hplace : Disk.place (.ofList sharingEntries) ⟨"texes/a.tex"⟩ = .ok ["texes", "a.tex"] :=
      Disk.place_of_entries rfl hentry (by decide) (by decide) (by decide)
    have hsome : (extractFile .standard (.ofList sharingEntries)
        ⟨"texes/a.tex"⟩).toOption.isSome = true := by
      unfold extractFile
      rw [Disk.read_of_place hplace (hentry _) (by decide)]
      decide +kernel
    cases hextract : extractFile .standard (.ofList sharingEntries) ⟨"texes/a.tex"⟩ with
    | ok extraction => exact ⟨extraction, rfl⟩
    | error failure =>
      rw [hextract] at hsome
      cases hsome
  · have hplace : Disk.place (.ofList sharingEntries) ⟨"texes/a.TEX"⟩ = .ok ["texes", "a.TEX"] :=
      Disk.place_of_entries rfl hentry (by decide) (by decide) (by decide)
    have hnone : Disk.entry? (.ofList sharingEntries) ["texes", "a.TEX"] = none := by
      rw [hentry]
      decide
    unfold extractFile Disk.read
    rw [Disk.find_of_place hplace, hnone]

/-- Inputs with the same results. The paths of the second one step up from a missing folder. -/
def climbingInputs : List Path := [⟨"texes/a.tex"⟩, ⟨"texes/new/../a.tex"⟩]

/-- The second of these inputs does not find the proofs that are there. It has a result when it has been
handled, but the proofs are gone. -/
theorem process_climbing :
    let last := (process passing .standard (.ofList climbEntries) ⟨"texes/new/../a.tex"⟩).disk
    hasResult last (outputs passing ⟨"texes/new/../a.tex"⟩) = true ∧
      last.occupied ⟨"proofs/a.txt"⟩ = false := by
  have houtputs : outputs passing ⟨"texes/new/../a.tex"⟩ =
      ⟨⟨"proofs/new/../a.txt"⟩, ⟨"proofs/new/../a.err"⟩⟩ := by decide
  have hover : passesOver passing (.ofList climbEntries) ⟨"texes/new/../a.tex"⟩ = false := by
    apply passesOver_of_no_result
    apply hasResult_of_free <;> rw [houtputs] <;> exact free_climbEntries (by decide)
  have hwritable : Outputs.Writable ⟨⟨"proofs/new/../a.txt"⟩, ⟨"proofs/new/../a.err"⟩⟩
      (.ofList climbEntries) := writable_ofList climbEntries_ne_nil (by decide) (by decide)
  obtain ⟨-, hworking, hentries⟩ :=
    process_of_missing .standard climbEntries_ne_nil houtputs hwritable hover read_climbing
  refine ⟨hasResult_of_writable .standard rfl (houtputs ▸ hwritable) hover, ?_⟩
  refine Disk.occupied_of_missing ?_
  rw [hentries, Disk.destination, hworking]
  decide

/-- **Finished work may be undone**, though each input is passed over or has its result written. In the
first of these runs a result that is there is not found, since it is looked for behind a missing folder.
In the second one two workers take away the results of each other. -/
theorem finished_work_may_be_undone :
    (Disk.ofList climbEntries).IsTree ∧ (Disk.ofList sharingEntries).IsTree ∧
    (∃ schedule,
      let start :=
        Pool.start passing (fun _ => .steady .standard) (.ofList climbEntries) climbingInputs
      let last := start.play passing.jobs schedule
      last.IsOver ∧ AllFinished passing climbingInputs start schedule ∧
      run passing .standard (.ofList climbEntries) climbingInputs =
        runBy schedule passing (fun _ => .steady .standard) (.ofList climbEntries) climbingInputs ∧
      Disk.read (.ofList climbEntries) (outputs passing ⟨"texes/a.tex"⟩).proofs = .ok [] ∧
      last.disk.occupied (outputs passing ⟨"texes/a.tex"⟩).proofs = false) ∧
    ∃ before behind,
      let start :=
        Pool.start passing (fun _ => .steady .standard) (.ofList sharingEntries) sharingInputs
      let middle := start.play passing.jobs before
      let last := middle.play passing.jobs behind
      middle.disk.occupied (outputs passing ⟨"texes/a.tex"⟩).proofs = true ∧
      middle.disk.occupied (outputs passing ⟨"texes/a.TEX"⟩).failure = true ∧
      last.IsOver ∧ (∀ report ∈ last.reports, report.status ≠ .skipped) ∧
      ∃ report reports disk, run passing .standard last.disk sharingInputs =
        (.ok ⟨report :: reports⟩, disk) ∧ report.status ≠ .skipped := by
  have houtputs : outputs passing ⟨"texes/a.tex"⟩ = ⟨⟨"proofs/a.txt"⟩, ⟨"proofs/a.err"⟩⟩ := by
    decide
  have houtputs' : outputs passing ⟨"texes/a.TEX"⟩ = ⟨⟨"proofs/a.txt"⟩, ⟨"proofs/a.err"⟩⟩ := by
    decide
  refine ⟨Disk.isTree_ofList (by decide), Disk.isTree_ofList (by decide), ?_, ?_⟩
  · obtain ⟨hresult, hgone⟩ := process_climbing
    have hinOrder : FinishesInOrder passing .standard (.ofList climbEntries) climbingInputs := by
      unfold climbingInputs FinishesInOrder
      rw [process_of_passesOver .standard passesOver_climbEntries]
      exact ⟨.inl rfl, .inr hresult, trivial⟩
    obtain ⟨schedule, hend, hfinished, hrun⟩ :=
      exists_runBy_eq passing .standard (.ofList climbEntries) climbingInputs rfl
    rw [houtputs]
    refine ⟨schedule, hend, hfinished hinOrder, hrun, read_climbEntries, ?_⟩
    have hdisks := congrArg Prod.snd hrun
    rw [run_eq rfl, runBy_eq rfl] at hdisks
    unfold conclude climbingInputs processInOrder at hdisks
    rw [process_of_passesOver .standard passesOver_climbEntries] at hdisks
    exact (congrArg (Disk.occupied · _) hdisks.symm).trans hgone
  · have hskip : passing.skipExisting = true := rfl
    obtain ⟨hproofs, hfailure⟩ := isFree_sharingEntries
    obtain ⟨⟨extraction, hextract⟩, hfail⟩ := extractFile_sharingEntries
    obtain ⟨middle, last, ⟨before, hbefore⟩, ⟨behind, hbehind⟩, hwritten, hwritten', hgone, hgone',
      hover, hreports⟩ := exists_loss (Disk.isTree_ofList (by decide)) hskip le_rfl houtputs houtputs'
        hproofs hfailure (by decide) hextract hfail
    have hlook : passesOver passing last.disk ⟨"texes/a.tex"⟩ = false := by
      apply passesOver_of_no_result
      apply hasResult_of_free <;> rw [houtputs] <;> assumption
    refine ⟨before, behind, ?_⟩
    intro start middle' last'
    have hmiddle : middle' = middle := hbefore
    have hlast : last' = last := by rw [← hbehind, ← hmiddle]
    rw [hmiddle, hlast, houtputs, houtputs', hreports]
    refine ⟨hwritten, hwritten', hover, ?_, _, _, _, run_eq rfl, ?_⟩
    · intro report hreport hskipped
      rcases List.mem_pair.mp hreport with rfl | rfl <;> cases hskipped
    · rw [process_of_not_passesOver .standard hlook]
      exact status_extractAndWrite .standard _ last.disk _

end Batch

end ProofProse
