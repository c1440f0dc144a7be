import Mathlib.Data.List.Induction
import Mathlib.Tactic.SplitIfs
import ProofProse.Proofs.Component
import ProofProse.Proofs.Trail

/-! # Where folded paths lead

A path leads from every folder to some place (`Path.placeFrom`). A folded path goes up first and
then down through names (`Path.IsFolded`), and where it leads from all folders tells it apart from
all other folded paths (`Path.IsFolded.eq_of_placeFrom`). Folding keeps where a path leads, so the
path of a target is the one folded path that leads where the target leads from the folder of the
including file, and a chain of inclusions is resolved like one path
(`Path.targets_resolve_like_one_path`). -/

namespace ProofProse.Path

open Disk (next foldl_next_names)

variable {path target including a b c : Path} {cs ds : List Component} {start : Place}
  {name : String}

/-! ### Up and then down -/

/-- Steps upwards, and names behind them. -/
def IsUpThenDown (cs : List Component) : Prop :=
  ∃ (ups : Nat) (names : List String), (∀ name ∈ names, IsName name) ∧
    cs = List.replicate ups .parent ++ names.map .name

theorem isUpThenDown_nil : IsUpThenDown [] := ⟨0, [], nofun, rfl⟩

theorem IsUpThenDown.concat (h : IsUpThenDown cs) (hname : IsName name) :
    IsUpThenDown (cs ++ [.name name]) := by
  obtain ⟨ups, names, hnames, rfl⟩ := h
  refine ⟨ups, names ++ [name], fun n hn => ?_, by simp⟩
  rcases List.mem_append.mp hn with hn | hn
  · exact hnames n hn
  · rwa [List.mem_singleton.mp hn]

theorem IsUpThenDown.forall_mem (h : IsUpThenDown cs) :
    ∀ c ∈ cs, c = .parent ∨ ∃ s, IsName s ∧ c = .name s := by
  obtain ⟨ups, names, hnames, rfl⟩ := h
  intro c hc
  rcases List.mem_append.mp hc with hc | hc
  · exact .inl (List.eq_of_mem_replicate hc)
  · obtain ⟨s, hs, rfl⟩ := List.mem_map.mp hc
    exact .inr ⟨s, hnames s hs, rfl⟩

theorem foldl_next_parents (ups : Nat) (start : Place) :
    (List.replicate ups Component.parent).foldl next start = start.take (start.length - ups) := by
  induction ups generalizing start with
  | zero => simp
  | succ ups ih =>
    have hstep : next start .parent = start.take (start.length - 1) := List.dropLast_eq_take
    rw [List.replicate_succ, List.foldl_cons, ih, hstep, List.take_take, List.length_take]
    congr 1
    omega

/-- **Where it leads** from all folders tells what goes up and then down. -/
theorem IsUpThenDown.eq_of_foldl_next (h : IsUpThenDown cs) (h' : IsUpThenDown ds)
    (hplaces : ∀ start : Place, cs.foldl next start = ds.foldl next start) : cs = ds := by
  obtain ⟨ups, names, hnames, rfl⟩ := h
  obtain ⟨ups', names', hnames', rfl⟩ := h'
  simp only [List.foldl_append, foldl_next_parents, foldl_next_names] at hplaces
  have hcount : ∀ {names : List String}, (∀ name ∈ names, IsName name) → names.count "" = 0 :=
    fun hnames => List.count_eq_zero.mpr fun hmem => (hnames "" hmem).ne_empty rfl
  -- The empty text is no name, so it counts the steps that are left of the folder.
  have hups := congrArg (List.count "") (hplaces (List.replicate (ups + ups') ""))
  simp [hcount hnames, hcount hnames'] at hups
  have hdown := hplaces []
  simp only [List.take_nil, List.nil_append] at hdown
  rw [hdown, show ups = ups' by omega]

/-! ### Folding step by step -/

/-- What some components are folded to goes up and then down, and leads where they lead. -/
structure Folds (cs : List Component) (folded : Folded) : Prop where
  relative : folded.rooted = false
  upThenDown : IsUpThenDown folded.reversed.reverse
  leads : ∀ start : Place, folded.reversed.reverse.foldl next start = cs.foldl next start

theorem step_parents (ups : Nat) : Folded.step ⟨false, List.replicate ups .parent⟩ .parent =
    ⟨false, List.replicate (ups + 1) .parent⟩ := by
  cases ups <;> rfl

theorem Folds.parent {folded : Folded} (h : Folds cs folded) :
    Folds (cs ++ [.parent]) (folded.step .parent) := by
  obtain ⟨rooted, reversed⟩ := folded
  obtain ⟨hrooted, ⟨ups, names, hnames, hreversed⟩, hleads⟩ := h
  cases hrooted
  rw [List.reverse_eq_iff] at hreversed
  rcases List.eq_nil_or_concat names with rfl | ⟨front, s, rfl⟩
  · -- There is no name that the step upwards could take away.
    have hups : reversed = List.replicate ups .parent := by simpa using hreversed
    subst hups
    rw [step_parents]
    refine ⟨rfl, ⟨ups + 1, [], nofun, by simp⟩, fun start => ?_⟩
    rw [List.foldl_append, ← hleads, List.reverse_replicate, List.reverse_replicate,
      List.replicate_succ', List.foldl_append]
  · let above : List Component := List.replicate ups .parent ++ front.map .name
    have hname : reversed = .name s :: above.reverse := by
      refine hreversed.trans ?_
      rw [List.concat_eq_append, List.map_append, ← List.append_assoc, List.reverse_append]
      rfl
    subst hname
    show Folds _ ⟨false, above.reverse⟩
    refine ⟨rfl, ⟨ups, front, fun n hn => hnames n (by simp [hn]), List.reverse_reverse above⟩,
      fun start => ?_⟩
    rw [List.foldl_append, ← hleads, List.reverse_cons, List.foldl_append]
    exact (List.dropLast_concat).symm

theorem Folds.step {folded : Folded} {c : Component} (h : Folds cs folded)
    (hc : c.IsInner) : Folds (cs ++ [c]) (folded.step c) := by
  cases c with
  | root => exact hc.elim
  | current => exact ⟨h.relative, h.upThenDown, fun start => by
      rw [List.foldl_append, ← h.leads]; rfl⟩
  | parent => exact h.parent
  | name s =>
    have hreversed : (folded.step (.name s)).reversed.reverse =
        folded.reversed.reverse ++ [.name s] := List.reverse_cons
    refine ⟨h.relative, hreversed ▸ h.upThenDown.concat hc, fun start => ?_⟩
    rw [hreversed, List.foldl_append, List.foldl_append, h.leads]

theorem folds_components (h : ∀ c ∈ cs, c.IsInner) :
    Folds cs (cs.foldl Folded.step {}) := by
  induction cs using List.reverseRecOn with
  | nil => exact ⟨rfl, isUpThenDown_nil, fun _ => rfl⟩
  | append_singleton cs c ih =>
    rw [List.foldl_append]
    exact (ih fun d hd => h d (List.mem_append_left _ hd)).step (h c (by simp))

/-! ### Folded paths -/

/-- Where a path leads from a folder, whatever is there. -/
def placeFrom (start : Place) (path : Path) : Place := path.components.foldl next start

/-- A folded path goes up and then down, and is written without anything that says nothing. -/
structure IsFolded (path : Path) : Prop where
  upThenDown : IsUpThenDown path.components
  written : path = ofParts false (path.components.map Component.text)

theorem partComponents_texts (h : ∀ c ∈ cs, c = .parent ∨ ∃ s, IsName s ∧ c = .name s)
    (first : Bool) : partComponents first (cs.map Component.text) = cs := by
  induction cs generalizing first with
  | nil => rfl
  | cons c cs ih =>
    have hc : partComponent? first c.text = some c := by
      rcases h c List.mem_cons_self with rfl | ⟨s, hs, rfl⟩
      · rfl
      · exact partComponent?_name hs first
    rw [List.map_cons, partComponents, hc, ih fun d hd => h d (List.mem_cons_of_mem c hd)]
    rfl

theorem areParts_texts (h : ∀ c ∈ cs, c = .parent ∨ ∃ s, IsName s ∧ c = .name s) :
    AreParts false (cs.map Component.text) := by
  have htext : ∀ c ∈ cs, c.text ≠ "" ∧ '/' ∉ c.text.toList := by
    intro c hc
    rcases h c hc with rfl | ⟨s, hs, rfl⟩
    · exact ⟨by decide, by decide⟩
    · exact ⟨hs.ne_empty, hs.noSlash⟩
  refine ⟨fun part hpart => ?_, fun _ hhead => ?_⟩
  · obtain ⟨c, hc, rfl⟩ := List.mem_map.mp hpart
    exact (htext c hc).2
  · obtain ⟨c, hc, hempty⟩ := List.mem_map.mp (List.mem_of_mem_head? hhead)
    exact (htext c hc).1 hempty

theorem IsUpThenDown.components_ofParts (h : IsUpThenDown cs) :
    (ofParts false (cs.map Component.text)).components = cs := by
  rw [Path.components_ofParts (areParts_texts h.forall_mem), partComponents_texts h.forall_mem]
  rfl

theorem IsFolded.isRooted (h : path.IsFolded) : path.isRooted = false := by
  rw [h.written]
  exact isRooted_ofParts (areParts_texts h.upThenDown.forall_mem)

/-- **Where it leads** from all folders tells a folded path. -/
theorem IsFolded.eq_of_placeFrom {other : Path} (h : path.IsFolded) (h' : other.IsFolded)
    (hplaces : ∀ start, path.placeFrom start = other.placeFrom start) : path = other := by
  rw [h.written, h'.written, h.upThenDown.eq_of_foldl_next h'.upThenDown hplaces]

/-- **Folding** keeps where a path leads. -/
theorem isFolded_fold (h : path.isRooted = false) :
    path.fold.IsFolded ∧ ∀ start, path.fold.placeFrom start = path.placeFrom start := by
  obtain ⟨hrelative, hup, hleads⟩ := folds_components (isInner_of_components h)
  have hcomponents : path.fold.components =
      (path.components.foldl Folded.step {}).reversed.reverse := by
    unfold fold Folded.path
    rw [hrelative, hup.components_ofParts]
  refine ⟨⟨hcomponents ▸ hup, ?_⟩, fun start => ?_⟩
  · rw [hcomponents]
    unfold fold Folded.path
    rw [hrelative]
  · unfold placeFrom
    rw [hcomponents, hleads]

/-! ### Targets in folders -/

theorem components_empty : Path.components ⟨""⟩ = [] := by decide

theorem components_folder (path : Path) : path.folder.components = path.components.dropLast := by
  unfold folder
  rcases parent?_cases path with ⟨hnone, hcomponents⟩ | ⟨above, c, habove, hcomponents, -⟩
  · rw [hnone, hcomponents, topOf]
    cases path.isRooted <;> exact components_empty
  · rw [habove, hcomponents, List.dropLast_concat]
    rfl

theorem isRooted_folder_of_relative (h : path.isRooted = false) : path.folder.isRooted = false := by
  rw [← Bool.not_eq_true]
  intro hrooted
  have hroot : Component.root ∈ path.folder.components := by
    rw [components_eq, hrooted]
    exact List.mem_cons_self
  rw [components_folder] at hroot
  exact isInner_of_components h _ (List.dropLast_subset _ hroot)

theorem foldl_next_partComponents (first : Bool) (parts : List String) (start : Place) :
    (partComponents first parts).foldl next start =
      (partComponents true parts).foldl next start := by
  cases parts with
  | nil => rfl
  | cons part parts =>
    unfold partComponents
    have hpart : (partComponent? first part).toList.foldl next start =
        (partComponent? true part).toList.foldl next start := by
      cases first
      · unfold partComponent?
        split_ifs <;> rfl
      · rfl
    rw [List.foldl_append, List.foldl_append, hpart]

/-- **A target** leads on from where its folder leads. -/
theorem placeFrom_join (folder : Path) (h : target.isRooted = false) :
    (folder.join target).placeFrom start = target.placeFrom (folder.placeFrom start) := by
  by_cases hfolder : folder.text = ""
  · rw [eq_of_text (q := ⟨""⟩) hfolder]
    have hjoin : (⟨""⟩ : Path).join target = target := by
      unfold join
      split <;> rfl
    rw [hjoin, placeFrom, placeFrom, placeFrom, components_empty]
    rfl
  have htarget := ofParts_parts target
  rw [h] at htarget
  have hjoin : folder.join target =
      ofParts folder.isRooted (folder.folderParts ++ target.parts) := by
    have hjoin := join_ofParts folder target.parts_ne_nil (by rw [htarget, h])
    rwa [htarget] at hjoin
  have hslash : ∀ part ∈ target.parts, '/' ∉ part.toList := by
    rw [parts_of_isRooted h]
    exact fun part hpart => Text.notMem_of_split hpart
  have hparts : AreParts folder.isRooted (folder.folderParts ++ target.parts) := by
    have hnone : ∀ name ∈ ([] : List String), IsName name := nofun
    have hfront := areParts_folderParts folder hnone
    rw [List.append_nil] at hfront
    by_cases hnil : folder.folderParts = []
    · refine ⟨by rw [hnil]; exact hslash, fun hrooted => ?_⟩
      -- Only the top has no parts in front of a target.
      have hcomponents := partComponents_folderParts folder
      rw [hnil, hrooted] at hcomponents
      exact absurd hcomponents.symm (components_ne_nil hfolder)
    · exact hfront.append hnil hslash
  unfold placeFrom
  rw [hjoin, components_ofParts hparts, partComponents_append, ← List.append_assoc,
    partComponents_folderParts, List.foldl_append, foldl_next_partComponents,
    components_eq target, h]
  rfl

/-- The path of a target is folded, and leads where the target leads from the folder. -/
theorem isFolded_sibling (hincluding : including.isRooted = false)
    (htarget : target.isRooted = false) :
    (including.sibling target).IsFolded ∧ ∀ start, (including.sibling target).placeFrom start =
      target.placeFrom (including.folder.placeFrom start) := by
  have hjoin := isRooted_join (isRooted_folder_of_relative hincluding) htarget
  obtain ⟨hfolded, hplaces⟩ := isFolded_fold hjoin
  unfold sibling
  rw [htarget, if_neg Bool.false_ne_true]
  exact ⟨hfolded, fun start => by rw [hplaces, placeFrom_join _ htarget]⟩

theorem placeFrom_folder_sibling (ha : a.isRooted = false) (hb : b.isRooted = false)
    (hname : b.fileName? = some name) :
    (a.sibling b).folder.placeFrom start = b.folder.placeFrom (a.folder.placeFrom start) := by
  obtain ⟨above, habove⟩ := fileName?_eq_some_iff.mp hname
  have hisName : IsName name := isInner_of_components hb (.name name) (by rw [habove]; simp)
  obtain ⟨hfile, hfilePlaces⟩ := isFolded_sibling ha hb
  obtain ⟨hfolder, hfolderPlaces⟩ := isFolded_sibling ha (isRooted_folder_of_relative hb)
  have hcomponents : (a.sibling b).components =
      (a.sibling b.folder).components ++ [.name name] := by
    refine hfile.upThenDown.eq_of_foldl_next (hfolder.upThenDown.concat hisName) fun start => ?_
    have hfront := hfolderPlaces start
    unfold placeFrom at hfront
    rw [List.foldl_append, hfront, components_folder b, habove, List.dropLast_concat]
    have hwhole := hfilePlaces start
    unfold placeFrom at hwhole
    rw [hwhole, habove, List.foldl_append]
  rw [← hfolderPlaces, placeFrom, placeFrom, components_folder, hcomponents, List.dropLast_concat]

/-- **Targets resolve like one path.** The path of a target is the folded path that leads where the
target leads from the folder of the including file, and names itself from the folder that paths
begin in. A target of a target is the target of the joined path. -/
theorem targets_resolve_like_one_path :
    (∀ including target : Path, including.isRooted = false → target.isRooted = false →
      (including.sibling target).IsFolded ∧
      (∀ start, (including.sibling target).placeFrom start =
        (including.folder.join target).placeFrom start) ∧
      (∀ other : Path, other.IsFolded →
        (∀ start, other.placeFrom start = (including.folder.join target).placeFrom start) →
        other = including.sibling target) ∧
      sibling ⟨""⟩ (including.sibling target) = including.sibling target) ∧
    ∀ a b c : Path, a.isRooted = false → b.isRooted = false → c.isRooted = false →
      b.fileName?.isSome = true → (a.sibling b).sibling c = a.sibling (b.folder.join c) := by
  refine ⟨fun including target hincluding htarget => ?_, fun a b c ha hb hc hname => ?_⟩
  · obtain ⟨hfolded, hplaces⟩ := isFolded_sibling hincluding htarget
    have hjoin : ∀ start, (including.sibling target).placeFrom start =
        (including.folder.join target).placeFrom start := fun start => by
      rw [hplaces, placeFrom_join _ htarget]
    refine ⟨hfolded, hjoin, fun other hother h => ?_, ?_⟩
    · exact hother.eq_of_placeFrom hfolded fun start => by rw [h, hjoin]
    · have hstart : isRooted ⟨""⟩ = false := rfl
      obtain ⟨hagain, hagainPlaces⟩ := isFolded_sibling hstart hfolded.isRooted
      refine hagain.eq_of_placeFrom hfolded fun start => ?_
      rw [hagainPlaces]
      rfl
  · obtain ⟨name, hname⟩ := Option.isSome_iff_exists.mp hname
    have hjoin := isRooted_join (isRooted_folder_of_relative hb) hc
    obtain ⟨hleft, hleftPlaces⟩ := isFolded_sibling (isFolded_sibling ha hb).1.isRooted hc
    obtain ⟨hright, hrightPlaces⟩ := isFolded_sibling ha hjoin
    refine hleft.eq_of_placeFrom hright fun start => ?_
    calc ((a.sibling b).sibling c).placeFrom start
        = c.placeFrom ((a.sibling b).folder.placeFrom start) := hleftPlaces start
      _ = c.placeFrom (b.folder.placeFrom (a.folder.placeFrom start)) := by
          rw [placeFrom_folder_sibling ha hb hname]
      _ = (b.folder.join c).placeFrom (a.folder.placeFrom start) := (placeFrom_join _ hc).symm
      _ = (a.sibling (b.folder.join c)).placeFrom start := (hrightPlaces start).symm

/-- The definitions of a chapter stand above the paper, and so does what another chapter names. -/
theorem definitions_above_the_paper :
    (isRooted ⟨"paper/ch/one.tex"⟩ = false ∧ isRooted ⟨"../../../common/./defs.tex"⟩ = false) ∧
    sibling ⟨"paper/ch/one.tex"⟩ ⟨"../../../common/./defs.tex"⟩ = ⟨"../common/defs.tex"⟩ ∧
    IsFolded ⟨"../common/defs.tex"⟩ ∧
    fileName? ⟨"./ch//one.tex"⟩ = some "one.tex" ∧
    sibling (sibling ⟨"paper/main.tex"⟩ ⟨"./ch//one.tex"⟩) ⟨"../../up.tex"⟩ =
      sibling ⟨"paper/main.tex"⟩ (join ⟨"./ch"⟩ ⟨"../../up.tex"⟩) := by
  have hsibling : sibling ⟨"paper/ch/one.tex"⟩ ⟨"../../../common/./defs.tex"⟩ =
      ⟨"../common/defs.tex"⟩ := by decide
  have hfolder : folder ⟨"./ch//one.tex"⟩ = ⟨"./ch"⟩ := by decide
  obtain ⟨hone, hchain⟩ := targets_resolve_like_one_path
  refine ⟨by decide, hsibling, ?_, by decide, ?_⟩
  · rw [← hsibling]
    exact (hone _ _ (by decide) (by decide)).1
  · rw [← hfolder]
    exact hchain _ _ _ (by decide) (by decide) (by decide) (by decide)

end ProofProse.Path
