import ProofProse.Batch.Input
import ProofProse.Batch.Output
import ProofProse.Proofs.Component
import ProofProse.Proofs.Trail

/-! # Inputs that are collected

The inputs of a folder are the sources below it (`Batch.mem_collect_iff`), each by the names that
lead to it (`Batch.pathBelow_names`). They are put in the order of paths
(`Batch.pairwise_lt_collect`), which tells two paths apart exactly if their components differ
(`Path.compare_eq_iff`), so each is there once (`Batch.pairwise_collect`). -/

namespace ProofProse

/-! ### The order of paths -/

theorem toList_loop (bytes : ByteArray) (i : Nat) (out : List UInt8) :
    ByteArray.toList.loop bytes i out = out.reverse ++ bytes.data.toList.drop i := by
  fun_induction ByteArray.toList.loop bytes i out with
  | case1 i out h ih =>
    have hi : i < bytes.data.toList.length := h
    have hget : bytes.get! i = bytes.data.toList[i] := by
      unfold ByteArray.get!
      exact getElem!_pos bytes.data i h
    rw [ih, List.drop_eq_getElem_cons hi, List.reverse_cons, hget, List.append_assoc]
    rfl
  | case2 i out h =>
    have hi : bytes.data.toList.length ≤ i := Nat.le_of_not_lt h
    rw [List.drop_eq_nil_of_le hi, List.append_nil]

theorem toList_eq (bytes : ByteArray) : bytes.toList = bytes.data.toList := toList_loop bytes 0 []

namespace Path

theorem compareLists_eq_compareLex {α : Type} (cmp : α → α → Ordering) :
    ∀ xs ys : List α, compareLists cmp xs ys = List.compareLex cmp xs ys
  | [], [] => List.compareLex_nil_nil.symm
  | [], _ :: _ => List.compareLex_nil_cons.symm
  | _ :: _, [] => List.compareLex_cons_nil.symm
  | x :: xs, y :: ys => by
    rw [List.compareLex_cons_cons, compareLists, compareLists_eq_compareLex cmp xs ys]

theorem Component.key_inj {c d : Component} (h : c.key = d.key) : c = d := by
  obtain ⟨hrank, hbytes⟩ := List.cons.inj h
  cases c with
  | name s =>
    cases d with
    | name t =>
      have hlists : s.toUTF8.toList = t.toUTF8.toList :=
        (List.map_inj_right fun _ _ => UInt8.toNat_inj.mp).mp hbytes
      rw [toList_eq, toList_eq] at hlists
      rw [String.toByteArray_inj.mp (ByteArray.ext (Array.toList_inj.mp hlists))]
    | _ => cases hrank
  | _ => cases d <;> first | rfl | cases hrank

/-- The order of components by their keys. -/
def Component.order (c d : Component) : Ordering := List.compareLex Ord.compare c.key d.key

instance : Std.TransCmp Component.order where
  eq_swap := by
    intro c d
    unfold Component.order
    exact Std.OrientedCmp.eq_swap
  isLE_trans := by
    intro c d e hcd hde
    unfold Component.order at *
    exact Std.TransCmp.isLE_trans hcd hde

instance : Std.LawfulEqCmp Component.order where
  compare_self := by
    intro c
    unfold Component.order
    exact Std.ReflCmp.compare_self
  eq_of_compare h := Component.key_inj (Std.LawfulEqCmp.eq_of_compare h)

theorem compare_eq_compareLex (p q : Path) :
    p.compare q = List.compareLex Component.order p.components q.components := by
  unfold compare
  rw [compareLists_eq_compareLex]
  congr 1
  funext c d
  exact compareLists_eq_compareLex _ _ _

instance : Std.TransCmp Path.compare where
  eq_swap {p q} := by
    rw [compare_eq_compareLex, compare_eq_compareLex]
    exact Std.OrientedCmp.eq_swap
  isLE_trans {p q r} h h' := by
    rw [compare_eq_compareLex] at *
    exact Std.TransCmp.isLE_trans h h'

/-- **The order tells two paths apart** exactly if their components differ. -/
theorem compare_eq_iff {p q : Path} : p.compare q = .eq ↔ p.components = q.components := by
  rw [compare_eq_compareLex]
  exact Std.LawfulEqCmp.compare_eq_iff_eq

/-! ### Below a folder -/

variable {root : Path} {names front : List String}

theorem join_join (root : Path) {name : String} (hne : front ≠ [])
    (hnames : ∀ n ∈ front ++ [name], IsName n) :
    (root.join (ofParts false front)).join ⟨name⟩ =
      root.join (ofParts false (front ++ [name])) := by
  have hfront : ∀ n ∈ front, IsName n := fun n hn => hnames n (List.mem_append_left _ hn)
  have hname : ∀ n ∈ [name], IsName n := fun n hn => hnames n (List.mem_append_right _ hn)
  have halone : (⟨name⟩ : Path) = ofParts false [name] := eq_of_text (by simp [ofParts])
  have hparts := areParts_folderParts root hfront
  have hnil : root.folderParts ++ front ≠ [] := by simp [hne]
  have hlast : (root.folderParts ++ front).getLast? ≠ some "" := by
    rw [List.getLast?_append, List.getLast?_eq_some_getLast hne, Option.or]
    exact fun h => (hfront _ (List.getLast_mem hne)).ne_empty (Option.some.inj h)
  rw [join_ofNames root hne hfront, join_ofNames root (by simp) hnames, halone,
    join_ofNames _ (List.cons_ne_nil _ _) hname, isRooted_ofParts hparts, folderParts,
    parts_ofParts hparts, if_neg hnil, if_neg hlast, List.append_assoc]

/-- Passing over the parts that stand for some components leaves what is behind them, and parts that
say nothing. -/
theorem passParts_append : ∀ (first : Bool) (front behind : List String),
    ∃ silent, (∀ part ∈ silent, partComponent? false part = none) ∧
      passParts first (partComponents first front) (front ++ behind) = some (silent ++ behind)
  | _, [], behind => ⟨[], nofun, by cases behind <;> rfl⟩
  | first, part :: front, behind => by
    obtain ⟨silent, hsilent, hpass⟩ := passParts_append false front behind
    unfold partComponents
    cases hpart : partComponent? first part with
    | some c =>
      refine ⟨silent, hsilent, ?_⟩
      show passParts first (c :: partComponents false front) (part :: (front ++ behind)) = _
      unfold passParts
      rw [hpart]
      dsimp only
      rw [if_pos rfl, hpass]
    | none =>
      have hpart' : partComponent? false part = none := by
        unfold partComponent? at *
        split at hpart
        · next hempty => rw [if_pos hempty]
        split at hpart
        · next hempty hdot => rw [if_neg hempty, if_pos hdot, if_neg Bool.false_ne_true]
        split at hpart <;> cases hpart
      show ∃ silent, _ ∧
        passParts first (partComponents false front) (part :: (front ++ behind)) = _
      cases hfront : partComponents false front with
      | nil =>
        -- Nothing is left to be passed over, so all parts in front say nothing.
        refine ⟨part :: front, fun p hp => ?_, rfl⟩
        rcases List.mem_cons.mp hp with rfl | hp
        · exact hpart'
        · obtain ⟨before, behind, rfl⟩ := List.append_of_mem hp
          rw [partComponents_append, partComponents] at hfront
          have hnone := (List.append_eq_nil_iff.mp (List.append_eq_nil_iff.mp hfront).2).1
          rwa [Bool.false_and, Option.toList_eq_nil_iff] at hnone
      | cons c components =>
        refine ⟨silent, hsilent, ?_⟩
        rw [hfront] at hpass
        unfold passParts
        rw [hpart]
        exact hpass

theorem trimParts_names (hnames : ∀ n ∈ names, IsName n) : trimParts false names = names := by
  rcases List.eq_nil_or_concat names with rfl | ⟨front, name, rfl⟩
  · rfl
  · rw [List.concat_eq_append] at *
    exact trimParts_concat (partComponent?_name (hnames name (by simp)) _)

/-- **Below a folder** are the names that are joined to it. -/
theorem below?_join (hroot : root.text ≠ "") (hne : names ≠ []) (hnames : ∀ n ∈ names, IsName n) :
    (root.join (ofParts false names)).below? root = some (ofParts false names) := by
  have hparts := areParts_folderParts root hnames
  have hnil : root.folderParts ++ names ≠ [] := by simp [hne]
  have hdrop : ∀ silent : List String, (∀ part ∈ silent, partComponent? false part = none) →
      trimParts false (dropSilent (silent ++ names)) = names := by
    intro silent hsilent
    have hfront : dropSilent (silent ++ names) = names := by
      unfold dropSilent
      rw [List.dropWhile_append_of_pos fun part hpart => by rw [hsilent part hpart]; rfl]
      obtain ⟨name, behind, rfl⟩ := List.exists_cons_of_ne_nil hne
      rw [List.dropWhile_cons, partComponent?_name (hnames name List.mem_cons_self) false]
      rfl
    rw [hfront, trimParts_names hnames]
  have hpassed : ∀ first cs, partComponents first root.folderParts = cs →
      (passParts first cs (root.folderParts ++ names)).map
        (fun parts => ofParts false (trimParts false (dropSilent parts))) =
      some (ofParts false names) := by
    rintro first cs rfl
    obtain ⟨silent, hsilent, hpass⟩ := passParts_append first root.folderParts names
    rw [hpass, Option.map_some, hdrop silent hsilent]
  have hcomponents := partComponents_folderParts root
  rw [join_ofNames root hne hnames]
  unfold below?
  rw [isRooted_ofParts hparts, parts_ofParts hparts, if_neg hnil, ← hcomponents]
  cases hrooted : root.isRooted with
  | true =>
    show (if true = true then _ else none) = _
    rw [if_pos rfl]
    exact hpassed false _ rfl
  | false =>
    have hinner := isInner_of_components hrooted
    have hsome := components_ne_nil hroot
    rw [← hcomponents, hrooted] at hinner hsome
    change ∀ c ∈ partComponents true root.folderParts, c.IsInner at hinner
    change partComponents true root.folderParts ≠ [] at hsome
    have hnotop : topOf false ++ partComponents (!false) root.folderParts =
        partComponents true root.folderParts := rfl
    rw [hnotop]
    split
    · next hnone => exact absurd hnone hsome
    · next cs hcs => exact (hinner .root (hcs ▸ List.mem_cons_self)).elim
    · exact hpassed true _ rfl

end Path

/-! ### Each input once -/

namespace Batch

variable {disk : Disk} {root path : Path} {paths : List Path} {names : List String}

theorem dropRepeated_subset (paths : List Path) : dropRepeated paths ⊆ paths := by
  fun_induction dropRepeated paths with
  | case1 p q rest _ ih =>
    intro r hr
    rcases List.mem_cons.mp (ih hr) with rfl | hr
    · exact List.mem_cons_self
    · exact List.mem_cons_of_mem _ (List.mem_cons_of_mem _ hr)
  | case2 p q rest _ ih => exact List.cons_subset_cons p ih
  | case3 paths _ => exact List.Subset.refl _

theorem exists_mem_dropRepeated (paths : List Path) : ∀ p ∈ paths,
    ∃ q ∈ dropRepeated paths, q.components = p.components := by
  fun_induction dropRepeated paths with
  | case1 p q rest hsame ih =>
    intro r hr
    rcases List.mem_cons.mp hr with rfl | hr
    · exact ih r List.mem_cons_self
    rcases List.mem_cons.mp hr with rfl | hr
    · obtain ⟨found, hfound, heq⟩ := ih p List.mem_cons_self
      exact ⟨found, hfound, heq.trans hsame⟩
    · exact ih r (List.mem_cons_of_mem _ hr)
  | case2 p q rest hsame ih =>
    intro r hr
    rcases List.mem_cons.mp hr with rfl | hr
    · exact ⟨r, List.mem_cons_self, rfl⟩
    · obtain ⟨found, hfound, heq⟩ := ih r hr
      exact ⟨found, List.mem_cons_of_mem _ hfound, heq⟩
  | case3 paths _ => exact fun p hp => ⟨p, hp, rfl⟩

theorem pairwise_dropRepeated (h : paths.Pairwise fun p q => (p.compare q).isLE) :
    (dropRepeated paths).Pairwise fun p q => p.compare q = .lt := by
  fun_induction dropRepeated paths with
  | case1 p q rest _ ih =>
    obtain ⟨hp, hrest⟩ := List.pairwise_cons.mp h
    exact ih (List.pairwise_cons.mpr
      ⟨fun r hr => hp r (List.mem_cons_of_mem _ hr), (List.pairwise_cons.mp hrest).2⟩)
  | case2 p q rest hdiffer ih =>
    obtain ⟨hp, hrest⟩ := List.pairwise_cons.mp h
    refine List.pairwise_cons.mpr ⟨fun r hr => ?_, ih hrest⟩
    have hpq : p.compare q = .lt := by
      cases hcompare : p.compare q with
      | lt => rfl
      | eq => exact absurd (Path.compare_eq_iff.mp hcompare) hdiffer
      | gt =>
        have hle := hp q List.mem_cons_self
        rw [hcompare] at hle
        cases hle
    rcases List.mem_cons.mp (dropRepeated_subset _ hr) with rfl | hr
    · exact hpq
    · exact Std.TransCmp.lt_of_lt_of_isLE hpq ((List.pairwise_cons.mp hrest).1 r hr)
  | case3 paths hshort =>
    cases paths with
    | nil => exact .nil
    | cons p paths =>
      cases paths with
      | nil => exact List.pairwise_singleton _ _
      | cons q rest => exact absurd rfl (hshort p q rest)

theorem notAfter_iff {p q : Path} : notAfter p q = true ↔ (p.compare q).isLE = true := by
  unfold notAfter
  cases p.compare q <;> decide

/-- The inputs are **in the order of paths**, each before the next. -/
theorem pairwise_lt_collect (disk : Disk) (paths : List Path) :
    (collect disk paths).Pairwise fun p q => p.compare q = .lt := by
  have hsorted : ((paths.flatMap (inputsOf disk)).mergeSort notAfter).Pairwise
      fun p q => (p.compare q).isLE := by
    refine List.Pairwise.imp notAfter_iff.mp (List.pairwise_mergeSort ?_ ?_ _)
    · intro p q r hpq hqr
      exact notAfter_iff.mpr (Std.TransCmp.isLE_trans (notAfter_iff.mp hpq) (notAfter_iff.mp hqr))
    · intro p q
      have hswap : p.compare q = (q.compare p).swap := Std.OrientedCmp.eq_swap
      rw [Bool.or_eq_true, notAfter_iff, notAfter_iff, hswap]
      cases q.compare p <;> decide
  exact pairwise_dropRepeated hsorted

/-- **Each input is there once.** -/
theorem pairwise_collect (disk : Disk) (paths : List Path) :
    (collect disk paths).Pairwise fun p q => p.components ≠ q.components := by
  refine (pairwise_lt_collect disk paths).imp fun hlt heq => ?_
  rw [Path.compare_eq_iff.mpr heq] at hlt
  cases hlt

/-- The components of the inputs are those of what the given paths stand for. -/
theorem exists_mem_collect_iff {components : List Path.Component} :
    (∃ p ∈ collect disk paths, p.components = components) ↔
      ∃ given ∈ paths, ∃ p ∈ inputsOf disk given, p.components = components := by
  have hsorted : ∀ {p : Path}, p ∈ (paths.flatMap (inputsOf disk)).mergeSort notAfter ↔
      ∃ given ∈ paths, p ∈ inputsOf disk given := by
    intro p
    rw [List.mem_mergeSort, List.mem_flatMap]
  constructor
  · rintro ⟨p, hp, hcomponents⟩
    obtain ⟨given, hgiven, hinputs⟩ := hsorted.mp (dropRepeated_subset _ hp)
    exact ⟨given, hgiven, p, hinputs, hcomponents⟩
  · rintro ⟨given, hgiven, p, hinputs, rfl⟩
    exact exists_mem_dropRepeated _ p (hsorted.mpr ⟨given, hgiven, hinputs⟩)

/-! ### Sources below a folder -/

theorem pathBelow_join (root : Path) : ∀ {front : List String} (names : List String), front ≠ [] →
    (∀ n ∈ front ++ names, Path.IsName n) →
    pathBelow (root.join (.ofParts false front)) names = root.join (.ofParts false (front ++ names))
  | front, [], _, _ => by
    rw [List.append_nil]
    rfl
  | front, name :: names, hne, hnames => by
    rw [List.append_cons] at hnames ⊢
    have hjoin := Path.join_join root hne fun n hn => hnames n (List.mem_append_left _ hn)
    show pathBelow ((root.join (.ofParts false front)).join ⟨name⟩) names = _
    rw [hjoin]
    exact pathBelow_join root names (by simp) hnames

theorem pathBelow_names (root : Path) (hne : names ≠ []) (hnames : ∀ n ∈ names, Path.IsName n) :
    pathBelow root names = root.join (.ofParts false names) := by
  obtain ⟨name, names, rfl⟩ := List.exists_cons_of_ne_nil hne
  have halone : (⟨name⟩ : Path) = .ofParts false [name] := Path.eq_of_text (by simp [Path.ofParts])
  show pathBelow (root.join ⟨name⟩) names = _
  rw [halone]
  exact pathBelow_join root names (List.cons_ne_nil _ _) hnames

theorem isBelow_iff {folder place : Place} :
    Disk.isBelow folder place = true ↔ ∃ names, names ≠ [] ∧ place = folder ++ names := by
  unfold Disk.isBelow
  rw [Bool.and_eq_true, List.isPrefixOf_iff_prefix, decide_eq_true_eq]
  constructor
  · rintro ⟨⟨names, rfl⟩, hlength⟩
    refine ⟨names, ?_, rfl⟩
    rintro rfl
    rw [List.append_nil] at hlength
    exact Nat.lt_irrefl _ hlength
  · rintro ⟨names, hne, rfl⟩
    refine ⟨List.prefix_append _ _, ?_⟩
    rw [List.length_append]
    exact Nat.lt_add_of_pos_right (List.length_pos_iff.mpr hne)

theorem mem_placesBelow_iff {folder below : Place} : below ∈ disk.placesBelow folder ↔
    ∃ names, names ≠ [] ∧ below = folder ++ names ∧ disk.entry? below ≠ none := by
  have hkeys : ∀ {place : Place}, place ≠ [] →
      (place ∈ disk.entries.keys ↔ disk.entry? place ≠ none) := by
    intro place hplace
    unfold Disk.entry?
    rw [Std.HashMap.mem_keys, if_neg (by simpa using hplace), Std.HashMap.mem_iff_isSome_getElem?,
      Option.isSome_iff_ne_none]
  unfold Disk.placesBelow
  rw [List.mem_filter, isBelow_iff]
  constructor
  · rintro ⟨hkey, names, hne, rfl⟩
    exact ⟨names, hne, rfl, (hkeys (by simp [hne])).mp hkey⟩
  · rintro ⟨names, hne, rfl, hentry⟩
    exact ⟨(hkeys (by simp [hne])).mpr hentry, names, hne, rfl⟩

theorem mem_filesBelow_iff : path ∈ filesBelow disk root ↔
    ∃ place names, disk.place root = .ok place ∧ names ≠ [] ∧ disk.entry? (place ++ names) ≠ none ∧
      walked? disk root names = some path := by
  unfold filesBelow
  split
  · next place hplace =>
    rw [List.mem_filterMap]
    constructor
    · rintro ⟨below, hbelow, hwalked⟩
      obtain ⟨names, hne, rfl, hentry⟩ := mem_placesBelow_iff.mp hbelow
      rw [List.drop_left] at hwalked
      exact ⟨place, names, hplace, hne, hentry, hwalked⟩
    · rintro ⟨found, names, hfound, hne, hentry, hwalked⟩
      have hsame : place = found := Except.ok.inj (hplace.symm.trans hfound)
      subst hsame
      refine ⟨_, mem_placesBelow_iff.mpr ⟨names, hne, rfl, hentry⟩, ?_⟩
      rwa [List.drop_left]
  · next hfault =>
    constructor
    · exact fun h => absurd h List.not_mem_nil
    · rintro ⟨place, _, hplace, -⟩
      rw [hfault] at hplace
      cases hplace

theorem text_ne_empty_of_place {place : Place} (h : disk.place root = .ok place) : root.text ≠ "" :=
  (Disk.eq_destination h).2.1.ne_empty

/-- What a walk from a folder comes to is behind the folder by its names. -/
theorem filesBelow_names (hdisk : disk.IsTree) (h : path ∈ filesBelow disk root) :
    root.text ≠ "" ∧ ∃ names, names ≠ [] ∧ (∀ n ∈ names, Path.IsName n) ∧
      path = root.join (.ofParts false names) := by
  obtain ⟨place, names, hplace, hne, hentry, hwalked⟩ := mem_filesBelow_iff.mp h
  have hnames := hdisk.names_below hentry
  refine ⟨text_ne_empty_of_place hplace, names, hne, hnames, ?_⟩
  rw [← pathBelow_names root hne hnames]
  unfold walked? at hwalked
  dsimp only at hwalked
  split at hwalked
  · exact (Option.some.inj hwalked).symm
  · cases hwalked

theorem collect_of_not_folder (h : ¬disk.isFolder root = true) : collect disk [root] = [root] := by
  unfold collect
  rw [List.flatMap_singleton, inputsOf, if_neg h, List.mergeSort_singleton]
  rw [dropRepeated.eq_def]

/-- **The inputs of a folder** are the sources that a walk from it comes to. -/
theorem mem_collect_iff (hdisk : disk.IsTree) (hroot : disk.isFolder root = true) :
    path ∈ collect disk [root] ↔ path ∈ filesBelow disk root ∧ isSource path = true := by
  have hinputs : ∀ {p : Path}, p ∈ ([root].flatMap (inputsOf disk)).mergeSort notAfter ↔
      p ∈ filesBelow disk root ∧ isSource p = true := by
    intro p
    rw [List.mem_mergeSort, List.flatMap_singleton, inputsOf, if_pos hroot, List.mem_filter]
  rw [← hinputs]
  refine ⟨fun h => dropRepeated_subset _ h, fun h => ?_⟩
  obtain ⟨other, hother, hcomponents⟩ := exists_mem_dropRepeated _ path h
  obtain ⟨-, names, hne, hnames, rfl⟩ := filesBelow_names hdisk (hinputs.mp h).1
  obtain ⟨-, names', hne', hnames', rfl⟩ :=
    filesBelow_names hdisk (hinputs.mp (dropRepeated_subset _ hother)).1
  rw [Path.components_join root hne hnames, Path.components_join root hne' hnames'] at hcomponents
  have hsame : names' = names := by
    refine (List.map_inj_right fun s t hst => ?_).mp (List.append_cancel_left hcomponents)
    exact Path.Component.name.inj hst
  rw [hsame] at hother
  exact hother

end Batch

end ProofProse
