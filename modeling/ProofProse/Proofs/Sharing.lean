import ProofProse.Proofs.Collected
import ProofProse.Proofs.Outputs

/-! # Shared results

The results of a source are at its place, with another ending (`Batch.components_resultPath`). The
ending of a source may be written with capitals, and the results do not tell how it was: two sources
of one folder that differ in the letter case of their endings have the same results, and no others
have (`Batch.results_shared_iff`). -/

namespace ProofProse

open ProofProse.Path (Component)

/-! ### Endings of sources -/

namespace Path

/-- The components of two sources are the same, but for the letter case of the endings. -/
def SameButForCase (p q : Path) : Prop :=
  ∃ above stem e f, Text.sameIgnoringCase e "tex" = true ∧ Text.sameIgnoringCase f "tex" = true ∧
    p.components = above ++ [.name (stem ++ "." ++ e)] ∧
    q.components = above ++ [.name (stem ++ "." ++ f)]

theorem sameIgnoringCase_iff {s t : String} : Text.sameIgnoringCase s t = true ↔
    s.toList.map Char.toLower = t.toList.map Char.toLower := by
  unfold Text.sameIgnoringCase Text.lowerAscii
  rw [beq_iff_eq, ← String.toList_inj, String.toList_map, String.toList_map]

theorem length_of_sameIgnoringCase {s t : String} (h : Text.sameIgnoringCase s t = true) :
    s.toList.length = t.toList.length := by
  simpa using congrArg List.length (sameIgnoringCase_iff.mp h)

theorem append_ending_inj {stem stem' e f : String} (hlength : e.toList.length = f.toList.length)
    (h : stem ++ "." ++ e = stem' ++ "." ++ f) : stem = stem' ∧ e = f := by
  have hlists := congrArg String.toList h
  rw [String.toList_append, String.toList_append (s := stem' ++ ".")] at hlists
  obtain ⟨hstem, hending⟩ := List.append_inj' hlists hlength
  rw [String.toList_append, String.toList_append] at hstem
  exact ⟨String.toList_inj.mp (List.append_cancel_right hstem), String.toList_inj.mp hending⟩

end Path

namespace Batch

variable {disk : Disk} {options : BatchOptions} {root p q : Path} {front front' : List String}
  {stem stem' e f ending : String}

/-! ### The results of a source -/

/-- A source by its name: a stem, a dot, and the ending. -/
theorem isSource_iff {path : Path} {name : String} (h : path.fileName? = some name) :
    isSource path = true ↔ ∃ stem e, name = stem ++ "." ++ e ∧ stem ≠ "" ∧ '.' ∉ e.toList ∧
      Text.sameIgnoringCase e "tex" = true := by
  unfold isSource Path.ending?
  rw [h]
  show ((Path.splitName name).2.any _) = true ↔ _
  constructor
  · intro hsource
    rcases Path.splitName_cases name with hnone | ⟨stem, e, hcut, hname, hstem, hdot⟩
    · rw [hnone] at hsource
      cases hsource
    · rw [hcut] at hsource
      exact ⟨stem, e, hname, hstem, hdot, hsource⟩
  · rintro ⟨stem, e, rfl, hstem, hdot, htex⟩
    rw [Path.splitName_append hstem hdot]
    exact htex

/-- A path that leads to a source below a folder: names, a stem and the ending. -/
structure Leads (root path : Path) (front : List String) (stem e : String) : Prop where
  text : root.text ≠ ""
  eq_join : path = root.join (.ofParts false (front ++ [stem ++ "." ++ e]))
  names : ∀ n ∈ front ++ [stem ++ "." ++ e], Path.IsName n
  stem : stem ≠ ""
  noDot : '.' ∉ e.toList
  isTex : Text.sameIgnoringCase e "tex" = true

theorem exists_leads (hdisk : disk.IsTree) (hroot : disk.isFolder root = true)
    (hp : p ∈ collect disk [root]) : ∃ front stem e, Leads root p front stem e := by
  obtain ⟨hwalked, hsource⟩ := (mem_collect_iff hdisk hroot).mp hp
  obtain ⟨htext, names, hne, hnames, rfl⟩ := filesBelow_names hdisk hwalked
  have hsplit := List.dropLast_concat_getLast hne
  generalize names.getLast hne = name at hsplit
  generalize names.dropLast = front at hsplit
  subst hsplit
  have hfile : (root.join (.ofParts false (front ++ [name]))).fileName? = some name := by
    refine Path.fileName?_eq_some_iff.mpr ⟨root.components ++ front.map .name, ?_⟩
    rw [Path.components_join root hne hnames, List.map_append, List.append_assoc]
    rfl
  obtain ⟨stem, e, rfl, hstem, hdot, htex⟩ := (isSource_iff hfile).mp hsource
  exact ⟨front, stem, e, htext, rfl, hnames, hstem, hdot, htex⟩

theorem Leads.components (h : Leads root p front stem e) :
    p.components = root.components ++ front.map .name ++ [.name (stem ++ "." ++ e)] := by
  rw [h.eq_join, Path.components_join root (by simp) h.names, List.map_append, List.append_assoc]
  rfl

/-- What comes of the name of a source when it gets another ending. A stem of one dot is left with
two, which are the step upwards. -/
def resultComponent (stem ending : String) : Component :=
  if stem = "." then .parent else .name (stem ++ "." ++ ending)

/-- **The results of a source** are at its place below the folder for results, and have other
endings. -/
theorem components_resultPath (h : Leads options.inputRoot p front stem e)
    (hending : Path.IsEnding ending) :
    (resultPath options p ending).components =
      options.outputRoot.components ++ front.map .name ++ [resultComponent stem ending] := by
  have hrelative : relativePath options p = .ofParts false (front ++ [stem ++ "." ++ e]) := by
    unfold relativePath
    rw [h.eq_join, Path.below?_join h.text (by simp) h.names]
  have hparts := Path.areParts_folderParts options.outputRoot h.names
  rw [← List.append_assoc] at hparts
  have hname : Path.IsName (stem ++ "." ++ e) := h.names _ (by simp)
  have hfront : ∀ n ∈ front, Path.IsName n := fun n hn => h.names n (List.mem_append_left _ hn)
  unfold resultPath
  rw [hrelative, Path.join_ofNames _ (by simp) h.names, ← List.append_assoc,
    Path.components_withEnding hparts hname h.stem h.noDot hending, Path.partComponents_append,
    Path.partComponents_names hfront, ← List.append_assoc, Path.partComponents_folderParts]
  rfl

/-! ### Two sources -/

theorem resultComponent_inj (h : resultComponent stem ending = resultComponent stem' ending) :
    stem = stem' := by
  unfold resultComponent at h
  split at h <;> split at h
  · next hstem hstem' => rw [hstem, hstem']
  · cases h
  · cases h
  · exact (Path.append_ending_inj rfl (Component.name.inj h)).1

/-- Two sources are the same but for the case exactly if their folders and stems are the same. -/
theorem sameButForCase_iff (hp : Leads root p front stem e) (hq : Leads root q front' stem' f) :
    p.SameButForCase q ↔ front = front' ∧ stem = stem' := by
  have hlength : ∀ {s t : String}, Text.sameIgnoringCase s "tex" = true →
      Text.sameIgnoringCase t "tex" = true → s.toList.length = t.toList.length := fun hs ht =>
    (Path.length_of_sameIgnoringCase hs).trans (Path.length_of_sameIgnoringCase ht).symm
  constructor
  · rintro ⟨above, stem'', e', f', he, hf, hpabove, hqabove⟩
    rw [hp.components] at hpabove
    rw [hq.components] at hqabove
    obtain ⟨hfront, hname⟩ := List.append_inj' hpabove rfl
    obtain ⟨hfront', hname'⟩ := List.append_inj' hqabove rfl
    have hstem := (Path.append_ending_inj (hlength hp.isTex he)
      (Component.name.inj (List.singleton_inj.mp hname))).1
    have hstem' := (Path.append_ending_inj (hlength hq.isTex hf)
      (Component.name.inj (List.singleton_inj.mp hname'))).1
    have hmaps := List.append_cancel_left (hfront.trans hfront'.symm)
    refine ⟨(List.map_inj_right fun s t hst => ?_).mp hmaps, hstem.trans hstem'.symm⟩
    exact Component.name.inj hst
  · rintro ⟨rfl, rfl⟩
    exact ⟨_, stem, e, f, hp.isTex, hq.isTex, hp.components, hq.components⟩

/-- Two sources have the same result of a kind exactly if they are the same but for the case. -/
theorem result_shared_iff (hp : Leads options.inputRoot p front stem e)
    (hq : Leads options.inputRoot q front' stem' f) (hending : Path.IsEnding ending) :
    (resultPath options p ending).components =
      (resultPath options q ending).components ↔
      p.SameButForCase q := by
  rw [components_resultPath hp hending, components_resultPath hq hending, sameButForCase_iff hp hq]
  constructor
  · intro h
    obtain ⟨hfront, hresult⟩ := List.append_inj' h rfl
    refine ⟨(List.map_inj_right fun s t hst => ?_).mp (List.append_cancel_left hfront), ?_⟩
    · exact Component.name.inj hst
    · exact resultComponent_inj (List.singleton_inj.mp hresult)
  · rintro ⟨rfl, rfl⟩
    rfl

/-- The proofs of a source stand where another one tells of a failure only if the two are the same
but for the case. -/
theorem sameButForCase_of_proofs_eq_failure (hp : Leads options.inputRoot p front stem e)
    (hq : Leads options.inputRoot q front' stem' f)
    (h : (resultPath options p "txt").components = (resultPath options q "err").components) :
    p.SameButForCase q := by
  rw [components_resultPath hp isEnding_txt, components_resultPath hq isEnding_err] at h
  obtain ⟨hfront, hresult⟩ := List.append_inj' h rfl
  refine (sameButForCase_iff hp hq).mpr
    ⟨(List.map_inj_right fun s t hst => ?_).mp (List.append_cancel_left hfront), ?_⟩
  · exact Component.name.inj hst
  · have hcomponent := List.singleton_inj.mp hresult
    unfold resultComponent at hcomponent
    split at hcomponent <;> split at hcomponent
    · next hstem hstem' => rw [hstem, hstem']
    · cases hcomponent
    · cases hcomponent
    · have hending := (Path.append_ending_inj (by decide) (Component.name.inj hcomponent)).2
      exact absurd hending (by decide)

/-- **Sources that share their results.** Whatever the folders and files are, each input that is
collected from the folder of inputs is there once, and two of them have the same file of proofs, or
the same file that tells of a failure, exactly if they are the same but for the letter case of their
endings. The proofs of one stand where another one tells of a failure in this case only. -/
theorem results_shared_iff (hdisk : disk.IsTree) (options : BatchOptions) :
    let inputs := collect disk [options.inputRoot]
    inputs.Pairwise (fun p q => p.components ≠ q.components) ∧
    ∀ p ∈ inputs, ∀ q ∈ inputs, p ≠ q →
      ((outputs options p).proofs.components = (outputs options q).proofs.components ↔
        p.SameButForCase q) ∧
      ((outputs options p).failure.components = (outputs options q).failure.components ↔
        p.SameButForCase q) ∧
      ((outputs options p).proofs.components = (outputs options q).failure.components →
        p.SameButForCase q) := by
  intro inputs
  refine ⟨pairwise_collect disk _, fun p hp q hq hne => ?_⟩
  by_cases hroot : disk.isFolder options.inputRoot = true
  · obtain ⟨front, stem, e, hleads⟩ := exists_leads hdisk hroot hp
    obtain ⟨front', stem', f, hleads'⟩ := exists_leads hdisk hroot hq
    rw [outputs_eq, outputs_eq]
    dsimp only
    exact ⟨result_shared_iff hleads hleads' isEnding_txt,
      result_shared_iff hleads hleads' isEnding_err,
      sameButForCase_of_proofs_eq_failure hleads hleads'⟩
  · have honly : inputs = [options.inputRoot] := collect_of_not_folder hroot
    rw [honly] at hp hq
    exact absurd ((List.mem_singleton.mp hp).trans (List.mem_singleton.mp hq).symm) hne

/-- A folder with two sources that are the same but for the case. -/
def caseDisk : Disk :=
  .ofList [(["texes"], .folder), (["texes", "a.TEX"], .file []), (["texes", "a.tex"], .file [])]

/-- **One place for two results**: both sources are inputs, and their results have the same paths.
-/
theorem one_place_for_two_results :
    caseDisk.IsTree ∧
    (⟨"texes/a.TEX"⟩ : Path) ∈ collect caseDisk [⟨"texes"⟩] ∧
    (⟨"texes/a.tex"⟩ : Path) ∈ collect caseDisk [⟨"texes"⟩] ∧
    (outputs {} ⟨"texes/a.TEX"⟩).proofs.components = (outputs {} ⟨"texes/a.tex"⟩).proofs.components ∧
    (outputs {} ⟨"texes/a.TEX"⟩).failure.components =
      (outputs {} ⟨"texes/a.tex"⟩).failure.components := by
  have hdisk : caseDisk.IsTree := Disk.isTree_ofList (by decide)
  have hplaces : ∀ e ∈ [((["texes"] : Place), DiskEntry.folder), (["texes", "a.TEX"], .file []),
      (["texes", "a.tex"], .file [])], e.1 ≠ [] := by decide
  have hentry : ∀ place, caseDisk.entry? place = _ := Disk.entry?_ofList hplaces
  have hroot : caseDisk.place ⟨"texes"⟩ = .ok ["texes"] :=
    Disk.place_of_entries rfl hentry (by decide) (by decide) (by decide)
  have hfolder : caseDisk.isFolder ⟨"texes"⟩ = true :=
    (Disk.isFolder_of_place hroot).mpr (by rw [hentry]; decide)
  have hmem : ∀ (path : Path) (name ending : String), pathBelow ⟨"texes"⟩ [name] = path →
      caseDisk.place path = .ok ["texes", name] →
      caseDisk.entry? ["texes", name] = some (.file []) → path.ending? = some ending →
      Text.sameIgnoringCase ending "tex" = true → path ∈ collect caseDisk [⟨"texes"⟩] := by
    intro path name ending hbelow hplace hfile hending htex
    have hopen : ¬caseDisk.isFolder path = true := by
      rw [Disk.isFolder_of_place hplace, hfile]
      exact nofun
    have hwalked : walked? caseDisk ⟨"texes"⟩ [name] = some path := by
      unfold walked?
      rw [hbelow]
      show (if caseDisk.isFolder ⟨"texes"⟩ && !caseDisk.isFolder path then _ else _) = _
      rw [hfolder, Bool.eq_false_iff.mpr hopen]
      rfl
    refine (mem_collect_iff hdisk hfolder).mpr ⟨mem_filesBelow_iff.mpr ?_, ?_⟩
    · exact ⟨["texes"], [name], hroot, List.cons_ne_nil _ _, by simp [hfile], hwalked⟩
    · unfold isSource
      rw [hending]
      exact htex
  have hcapitals : Text.sameIgnoringCase "TEX" "tex" = true :=
    Path.sameIgnoringCase_iff.mpr (by decide)
  have hsmall : Text.sameIgnoringCase "tex" "tex" = true := Path.sameIgnoringCase_iff.mpr rfl
  have hfirst := hmem ⟨"texes/a.TEX"⟩ "a.TEX" "TEX" (by decide)
    (Disk.place_of_entries rfl hentry (by decide) (by decide) (by decide))
    (by rw [hentry]; decide) (by decide) hcapitals
  have hsecond := hmem ⟨"texes/a.tex"⟩ "a.tex" "tex" (by decide)
    (Disk.place_of_entries rfl hentry (by decide) (by decide) (by decide))
    (by rw [hentry]; decide) (by decide) hsmall
  have hne : (⟨"texes/a.TEX"⟩ : Path) ≠ ⟨"texes/a.tex"⟩ := by decide
  have hcase : Path.SameButForCase ⟨"texes/a.TEX"⟩ ⟨"texes/a.tex"⟩ :=
    ⟨[.name "texes"], "a", "TEX", "tex", hcapitals, hsmall, by decide, by decide⟩
  obtain ⟨hproofs, hfailure, -⟩ := (results_shared_iff hdisk {}).2 _ hfirst _ hsecond hne
  exact ⟨hdisk, hfirst, hsecond, hproofs.mpr hcase, hfailure.mpr hcase⟩

end Batch

end ProofProse
