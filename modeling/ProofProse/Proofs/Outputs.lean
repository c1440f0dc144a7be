import ProofProse.Batch.Output
import ProofProse.Proofs.Component

/-! # Paths of results

The two results of an input differ in the ending only: when one of them has a file name, they stand
in the same folder, and neither asks for a folder (`Batch.results_of_fileName`). -/

namespace ProofProse

namespace Path

variable {path : Path} {rooted : Bool} {front : List String} {name : String}

theorem asksFolder_ofParts (hparts : AreParts rooted (front ++ [name])) (hname : IsName name) :
    Disk.asksFolder (ofParts rooted (front ++ [name])) = false := by
  have hne : name.toList ≠ [] := fun hempty => hname.ne_empty (String.toList_eq_nil_iff.mp hempty)
  have hslash : Disk.endsInSlash (ofParts rooted (front ++ [name])) = false := by
    have htext := text_ofParts_concat rooted front "" name
    rw [String.empty_append] at htext
    unfold Disk.endsInSlash
    rw [htext, String.toList_append, List.getLast?_append, List.getLast?_eq_some_getLast hne,
      Option.or, beq_eq_false_iff_ne]
    intro hlast
    exact hname.noSlash (Option.some.inj hlast ▸ List.getLast_mem hne)
  have hdot : Disk.endsInDot (ofParts rooted (front ++ [name])) = false := by
    have hfilter : [name].filter (· != "") = [name] := by
      rw [List.filter_cons, if_pos (bne_iff_ne.mpr hname.ne_empty)]
      rfl
    unfold Disk.endsInDot
    rw [parts_ofParts hparts, if_neg (by simp), List.filter_append, hfilter, List.getLast?_concat,
      beq_eq_false_iff_ne]
    exact fun hlast => hname.ne_current (Option.some.inj hlast)
  unfold Disk.asksFolder
  rw [hslash, hdot]
  rfl

end Path

namespace Batch

variable {options : BatchOptions} {input : Path} {ending : String}

/-- The path of a result of an input. -/
def resultPath (options : BatchOptions) (input : Path) (ending : String) : Path :=
  (options.outputRoot.join (relativePath options input)).withEnding ending

theorem outputs_eq (options : BatchOptions) (input : Path) : outputs options input =
    ⟨resultPath options input "txt", resultPath options input "err"⟩ := rfl

theorem isEnding_txt : Path.IsEnding "txt" := by decide

theorem isEnding_err : Path.IsEnding "err" := by decide

/-- **The results of an input** that has a file name for one of them: both have one, they stand in
the same folder, and neither asks for a folder. -/
theorem results_of_fileName (h : (resultPath options input ending).fileName? ≠ none) :
    ∃ above stem, ∀ ending, Path.IsEnding ending →
      (resultPath options input ending).components = above ++ [.name (stem ++ "." ++ ending)] ∧
      Disk.asksFolder (resultPath options input ending) = false := by
  unfold resultPath Path.withEnding at *
  generalize (options.outputRoot.join (relativePath options input)).dropEnding = base at *
  cases hname : base.fileName? with
  | none =>
    unfold Path.setEnding at h
    rw [hname] at h
    exact absurd hname h
  | some name =>
    obtain ⟨front, htrim, hisName, hparts, -⟩ := Path.trimmedParts_of_fileName hname
    refine ⟨base.components.dropLast, (Path.splitName name).1, fun ending hending => ⟨?_, ?_⟩⟩
    · exact Path.components_setEnding hname hending
    · have hnew : Path.IsName ((Path.splitName name).1 ++ "." ++ ending) :=
        Path.isName_stem_append (fun hmem => hisName.noSlash (Path.stem_subset name _ hmem)) hending
      have hset : base.setEnding ending =
          .ofParts base.isRooted (front ++ [(Path.splitName name).1 ++ "." ++ ending]) := by
        unfold Path.setEnding
        rw [hname]
        dsimp only
        rw [htrim, List.dropLast_concat]
      rw [hset]
      exact Path.asksFolder_ofParts (hparts.replaceLast hnew.ne_empty hnew.noSlash) hnew

/-- An input that has no file name for its results has the same path for all. -/
theorem resultPath_of_no_fileName {other : String} (hending : Path.IsEnding ending)
    (h : (resultPath options input ending).fileName? = none) :
    resultPath options input other = resultPath options input ending := by
  unfold resultPath Path.withEnding at *
  generalize (options.outputRoot.join (relativePath options input)).dropEnding = base at *
  cases hname : base.fileName? with
  | none =>
    unfold Path.setEnding
    rw [hname]
  | some name =>
    have hset := Path.components_setEnding hname hending
    unfold Path.fileName? at h
    rw [hset, List.getLast?_concat] at h
    cases h

theorem fileName_of_ne (h : (outputs options input).proofs ≠ (outputs options input).failure) :
    (outputs options input).proofs.fileName? ≠ none := by
  rw [outputs_eq] at h ⊢
  dsimp only at h ⊢
  exact fun hnone => h (resultPath_of_no_fileName isEnding_txt hnone).symm

/-! ### Looking for results -/

variable {disk : Disk} {results : Outputs}

theorem hasResult_of_proofs (h : disk.occupied results.proofs = true) :
    hasResult disk results = true := by
  unfold hasResult
  rw [h, Bool.true_or]

theorem hasResult_of_failure (h : disk.occupied results.failure = true) :
    hasResult disk results = true := by
  unfold hasResult
  rw [h, Bool.or_true]

theorem hasResult_of_free (hproofs : disk.occupied results.proofs = false)
    (hfailure : disk.occupied results.failure = false) : hasResult disk results = false := by
  unfold hasResult
  rw [hproofs, hfailure, Bool.or_false]

end Batch

end ProofProse
