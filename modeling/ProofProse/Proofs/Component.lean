import ProofProse.Proofs.Inside

/-! # Components of paths

A path is put together again from its parts (`Path.ofParts_parts`), and the components of parts that
are put together are those of the parts (`Path.components_ofParts`). So what is done to a path can
be said of its components: the path above has all but the last (`Path.parent?_cases`), another
ending changes the last one only (`Path.components_setEnding`), and a path from a folder has those
of the folder in front (`Path.components_join`). -/

namespace ProofProse

/-! ### Cut texts -/

namespace Text

theorem splitFrom_ne_nil (p : Char → Bool) : ∀ (cs part : List Char), splitFrom p part cs ≠ []
  | [], _ => List.cons_ne_nil _ _
  | c :: cs, part => by
    unfold splitFrom
    split
    · exact List.cons_ne_nil _ _
    · exact splitFrom_ne_nil p cs (c :: part)

theorem intercalate_splitFrom {c : Char} : ∀ (cs part : List Char),
    [c].intercalate (splitFrom (· == c) part cs) = part.reverse ++ cs
  | [], part => by
    unfold splitFrom
    rw [List.intercalate_singleton, List.append_nil]
  | d :: cs, part => by
    unfold splitFrom
    split
    · next hd =>
      rw [List.intercalate_cons_of_ne_nil (splitFrom_ne_nil _ cs []), intercalate_splitFrom cs [],
        beq_iff_eq.mp hd]
      simp
    · rw [intercalate_splitFrom cs (d :: part), List.reverse_cons, List.append_assoc,
        List.singleton_append]

theorem split_ne_nil (c : Char) (s : String) : split c s ≠ [] := by
  unfold split
  rw [Ne, List.map_eq_nil_iff]
  exact splitFrom_ne_nil _ _ _

theorem intercalate_split (c : Char) (s : String) :
    String.intercalate (String.singleton c) (split c s) = s := by
  apply String.toList_inj.mp
  unfold split
  rw [String.toList_intercalate, String.toList_singleton, List.map_map]
  have hid : String.toList ∘ String.ofList = id := funext fun cs => String.toList_ofList
  rw [hid, List.map_id]
  exact intercalate_splitFrom s.toList []

theorem cutAt_eq_some {c : Char} : ∀ {cs before behind : List Char},
    cutAt c cs = some (before, behind) → cs = before ++ c :: behind ∧ c ∉ before
  | d :: ds, before, behind, h => by
    unfold cutAt at h
    split at h
    · next hd =>
      cases h
      exact ⟨by rw [hd]; rfl, List.not_mem_nil⟩
    · next hd =>
      obtain ⟨⟨front, back⟩, hcut, heq⟩ := Option.map_eq_some_iff.mp h
      cases heq
      obtain ⟨hds, hfront⟩ := cutAt_eq_some hcut
      refine ⟨by rw [hds]; rfl, fun hmem => ?_⟩
      rcases List.mem_cons.mp hmem with rfl | hmem
      · exact hd rfl
      · exact hfront hmem

theorem cutAt_append {c : Char} {before : List Char} (h : c ∉ before) (behind : List Char) :
    cutAt c (before ++ c :: behind) = some (before, behind) := by
  induction before with
  | nil =>
    rw [List.nil_append, cutAt, if_pos rfl]
  | cons d before ih =>
    have hd : d ≠ c := fun heq => h (heq ▸ List.mem_cons_self)
    rw [List.cons_append, cutAt, if_neg hd, ih fun hmem => h (List.mem_cons_of_mem d hmem)]
    rfl

end Text

namespace Path

variable {path root : Path} {rooted first : Bool} {parts front behind names : List String}
  {part name ending : String}

/-! ### Parts that are put together -/

theorem eq_of_text {p q : Path} (h : p.text = q.text) : p = q := by
  cases p
  cases q
  exact congrArg Path.mk h

/-- The components of the top, if a path starts there. -/
def topOf (rooted : Bool) : List Component := if rooted then [.root] else []

/-- Parts that are cut out again when they are put together: they have no slashes, and the first of
a path that does not start at the top is not empty. -/
structure AreParts (rooted : Bool) (parts : List String) : Prop where
  noSlash : ∀ part ∈ parts, '/' ∉ part.toList
  front : rooted = false → parts.head? ≠ some ""

theorem components_eq (path : Path) :
    path.components = topOf path.isRooted ++ partComponents (!path.isRooted) path.parts := by
  unfold components topOf
  cases path.isRooted <;> rfl

theorem text_ofParts (rooted : Bool) (parts : List String) :
    (ofParts rooted parts).text =
      (if rooted then "/" else "") ++ String.intercalate "/" parts := rfl

theorem toList_of_isRooted (h : path.isRooted = true) : ∃ cs, path.text.toList = '/' :: cs := by
  unfold isRooted at h
  rw [beq_iff_eq] at h
  obtain ⟨cs, hcs⟩ := List.head?_eq_some_iff.mp h
  exact ⟨cs, hcs⟩

theorem parts_of_toList {cs : List Char} (h : path.text.toList = '/' :: cs) :
    path.parts = Text.split '/' (String.ofList cs) := by
  unfold parts
  split
  · next cs' hcs' =>
    rw [h] at hcs'
    cases hcs'
    rfl
  · next hother => exact absurd h (hother cs)

/-- **A path is put together** again from its parts. -/
theorem ofParts_parts (path : Path) : ofParts path.isRooted path.parts = path := by
  apply eq_of_text
  rw [text_ofParts]
  cases hrooted : path.isRooted with
  | false =>
    rw [parts_of_isRooted hrooted, if_neg Bool.false_ne_true, String.empty_append]
    exact Text.intercalate_split '/' path.text
  | true =>
    obtain ⟨cs, hcs⟩ := toList_of_isRooted hrooted
    have hjoined : String.intercalate "/" (Text.split '/' (String.ofList cs)) = String.ofList cs :=
      Text.intercalate_split '/' _
    rw [parts_of_toList hcs, if_pos rfl, hjoined]
    apply String.toList_inj.mp
    rw [String.toList_append, String.toList_ofList, hcs]
    simp

theorem areParts_parts (path : Path) (hne : path.text ≠ "") :
    AreParts path.isRooted path.parts where
  noSlash := by
    intro part hpart
    unfold parts at hpart
    split at hpart <;> exact Text.notMem_of_split hpart
  front := by
    intro hrooted hhead
    have hpath := ofParts_parts path
    obtain ⟨behind, hparts⟩ := List.head?_eq_some_iff.mp hhead
    rw [hrooted, hparts] at hpath
    cases behind with
    | nil => exact hne (by rw [← hpath]; rfl)
    | cons part behind =>
      have htext : path.text = "" ++ "/" ++ String.intercalate "/" (part :: behind) := by
        rw [← hpath, text_ofParts, String.intercalate_cons_cons]
        simp
      unfold isRooted at hrooted
      rw [htext] at hrooted
      simp at hrooted

theorem AreParts.of_isPrefix (h : AreParts rooted parts) (hfront : front <+: parts) :
    AreParts rooted front where
  noSlash part hpart := h.noSlash part (hfront.subset hpart)
  front hrooted hhead := by
    refine h.front hrooted ?_
    obtain ⟨behind, rfl⟩ := hfront
    rw [List.head?_append, hhead]
    rfl

theorem isRooted_ofParts (h : AreParts rooted parts) :
    (ofParts rooted parts).isRooted = rooted := by
  cases rooted with
  | true => simp [isRooted, ofParts]
  | false =>
    cases parts with
    | nil => rfl
    | cons part parts =>
      have hne : part.toList ≠ [] := fun hempty =>
        h.front rfl (congrArg some (String.toList_eq_nil_iff.mp hempty))
      obtain ⟨c, cs, hcs⟩ := List.exists_cons_of_ne_nil hne
      have hc : c ≠ '/' := by
        rintro rfl
        exact h.noSlash part List.mem_cons_self (hcs ▸ List.mem_cons_self)
      have htext : ∃ cs', (ofParts false (part :: parts)).text.toList = c :: cs' := by
        rw [text_ofParts, if_neg Bool.false_ne_true, String.empty_append, String.toList_intercalate]
        cases parts with
        | nil => exact ⟨cs, by simp [hcs]⟩
        | cons next parts => exact ⟨_, by rw [List.map_cons, List.map_cons,
            List.intercalate_cons_cons, hcs, List.cons_append, List.cons_append]⟩
      obtain ⟨cs', hcs'⟩ := htext
      unfold isRooted
      rw [hcs']
      simpa using hc

/-- Parts are cut out again; without parts there is one, and it is empty. -/
theorem parts_ofParts (h : AreParts rooted parts) :
    (ofParts rooted parts).parts = if parts = [] then [""] else parts := by
  have hsplit : Text.split '/' (String.intercalate "/" parts) =
      if parts = [] then [""] else parts := by
    split
    · next hempty =>
      subst hempty
      rfl
    · next hne => exact Text.split_intercalate hne h.noSlash
  cases rooted with
  | false =>
    rw [parts_of_isRooted (isRooted_ofParts h), text_ofParts, if_neg Bool.false_ne_true,
      String.empty_append, hsplit]
  | true =>
    have htext : (ofParts true parts).text.toList =
        '/' :: (String.intercalate "/" parts).toList := by
      rw [text_ofParts, if_pos rfl, String.toList_append]
      rfl
    rw [parts_of_toList htext, String.ofList_toList, hsplit]

/-- **The components** of parts that are put together are those of the parts. -/
theorem components_ofParts (h : AreParts rooted parts) :
    (ofParts rooted parts).components = topOf rooted ++ partComponents (!rooted) parts := by
  rw [components_eq, isRooted_ofParts h, parts_ofParts h]
  split
  · next hempty =>
    subst hempty
    rfl
  · rfl

/-! ### Parts that say nothing -/

theorem partComponents_append (first : Bool) : ∀ front behind : List String,
    partComponents first (front ++ behind) =
      partComponents first front ++ partComponents (first && front.isEmpty) behind
  | [], behind => by
    rw [List.isEmpty_nil, Bool.and_true]
    rfl
  | part :: front, behind => by
    rw [List.cons_append, partComponents, partComponents, partComponents_append false front,
      List.append_assoc]
    simp

theorem partComponents_singleton (first : Bool) (part : String) :
    partComponents first [part] = (partComponent? first part).toList := by
  rw [partComponents, partComponents, List.append_nil]

/-- Parts are trimmed to nothing if they say nothing, and else to the last part that says
something. -/
theorem trimParts_cases : ∀ (first : Bool) (parts : List String),
    (trimParts first parts = [] ∧ partComponents first parts = []) ∨
      ∃ front last c behind, trimParts first parts = front ++ [last] ∧
        parts = front ++ [last] ++ behind ∧
        partComponent? (first && front.isEmpty) last = some c ∧
        partComponents first parts = partComponents first front ++ [c]
  | _, [] => .inl ⟨rfl, rfl⟩
  | first, part :: parts => by
    unfold trimParts partComponents
    dsimp only
    rcases trimParts_cases false parts with
      ⟨hrest, hnone⟩ | ⟨front, last, c, behind, hrest, hparts, hlast, hsome⟩
    · rw [hrest, hnone]
      cases hpart : partComponent? first part with
      | none => exact .inl ⟨rfl, rfl⟩
      | some c =>
        refine .inr ⟨[], part, c, parts, rfl, rfl, ?_, rfl⟩
        rw [List.isEmpty_nil, Bool.and_true, hpart]
    · rw [hrest, hsome]
      refine .inr ⟨part :: front, last, c, behind, ?_, ?_, ?_, ?_⟩
      · simp
      · rw [hparts]
        rfl
      · rw [Bool.false_and] at hlast
        simpa using hlast
      · rw [← List.append_assoc]

theorem partComponents_trimParts (first : Bool) (parts : List String) :
    partComponents first (trimParts first parts) = partComponents first parts := by
  rcases trimParts_cases first parts with
    ⟨htrim, hnone⟩ | ⟨front, last, c, -, htrim, -, hlast, hsome⟩
  · rw [htrim, hnone]
    rfl
  · rw [htrim, hsome, partComponents_append, partComponents_singleton, hlast]
    rfl

theorem trimParts_isPrefix (first : Bool) (parts : List String) :
    trimParts first parts <+: parts := by
  rcases trimParts_cases first parts with ⟨htrim, -⟩ | ⟨front, last, c, behind, htrim, hparts, -, -⟩
  · rw [htrim]
    exact List.nil_prefix
  · rw [htrim]
    exact ⟨behind, hparts.symm⟩

theorem trimParts_concat {c : Component}
    (h : partComponent? (first && front.isEmpty) part = some c) :
    trimParts first (front ++ [part]) = front ++ [part] := by
  induction front generalizing first with
  | nil =>
    rw [List.isEmpty_nil, Bool.and_true] at h
    simp [trimParts, h]
  | cons p front ih =>
    have hrest : trimParts false (front ++ [part]) = front ++ [part] := ih (by simpa using h)
    rw [List.cons_append, trimParts, hrest]
    simp

/-! ### The path above -/

theorem text_ofParts_isPrefix (rooted : Bool) (h : front <+: parts) :
    (ofParts rooted front).text.toList <+: (ofParts rooted parts).text.toList := by
  obtain ⟨behind, rfl⟩ := h
  rw [text_ofParts, text_ofParts, String.toList_append, String.toList_append]
  refine (List.prefix_append_right_inj _).mpr ?_
  by_cases hfront : front = []
  · subst hfront
    exact List.nil_prefix
  by_cases hbehind : behind = []
  · simp [hbehind]
  · rw [String.intercalate_append_of_ne_nil hfront hbehind, String.toList_append,
      String.toList_append, List.append_assoc]
    exact List.prefix_append _ _

/-- **The path above** has all components but the last, and its text is the beginning of the text.
-/
theorem parent?_cases (path : Path) :
    (path.parent? = none ∧ path.components = topOf path.isRooted) ∨
      ∃ above c, path.parent? = some above ∧ path.components = above.components ++ [c] ∧
        above.text.toList <+: path.text.toList := by
  by_cases hne : path.text = ""
  · have hpath : path = ⟨""⟩ := congrArg Path.mk hne
    rw [hpath]
    exact .inl ⟨rfl, rfl⟩
  have hparts := areParts_parts path hne
  unfold parent? trimmedParts
  rw [components_eq]
  rcases trimParts_cases (!path.isRooted) path.parts with
    ⟨htrim, hnone⟩ | ⟨front, last, c, behind, htrim, hsplit, -, hsome⟩
  · rw [htrim, hnone, List.append_nil]
    exact .inl ⟨rfl, rfl⟩
  · have habove : trimParts (!path.isRooted) front <+: path.parts := by
      refine (trimParts_isPrefix _ _).trans ?_
      rw [hsplit, List.append_assoc]
      exact List.prefix_append _ _
    refine .inr ⟨ofParts path.isRooted (trimParts (!path.isRooted) front), c, ?_, ?_, ?_⟩
    · rw [htrim]
      split
      · next h => exact absurd h (by simp)
      · rw [List.dropLast_concat]
    · rw [hsome, components_ofParts (hparts.of_isPrefix habove), partComponents_trimParts,
        List.append_assoc]
    · have htext := text_ofParts_isPrefix path.isRooted habove
      rwa [ofParts_parts] at htext

/-! ### File names -/

theorem fileName?_eq_some_iff :
    path.fileName? = some name ↔ ∃ above, path.components = above ++ [.name name] := by
  unfold fileName?
  constructor
  · intro h
    split at h
    · next s hlast =>
      cases h
      obtain ⟨above, habove⟩ := List.getLast?_eq_some_iff.mp hlast
      exact ⟨above, habove⟩
    · cases h
  · rintro ⟨above, habove⟩
    rw [habove, List.getLast?_concat]

/-- An ending of a file name: a name without a dot. -/
structure IsEnding (ending : String) : Prop where
  isName : IsName ending
  noDot : '.' ∉ ending.toList

instance (ending : String) : Decidable (IsEnding ending) :=
  decidable_of_iff (IsName ending ∧ '.' ∉ ending.toList)
    ⟨fun h => ⟨h.1, h.2⟩, fun h => ⟨h.isName, h.noDot⟩⟩

theorem splitName_append {stem ending : String} (hstem : stem ≠ "")
    (hending : '.' ∉ ending.toList) :
    splitName (stem ++ "." ++ ending) = (stem, some ending) := by
  have hreverse : (stem ++ "." ++ ending).toList.reverse =
      ending.toList.reverse ++ '.' :: stem.toList.reverse := by
    simp
  have hne : stem.toList.reverse.isEmpty = false := by
    rw [List.isEmpty_reverse, List.isEmpty_eq_false_iff]
    exact fun h => hstem (String.toList_eq_nil_iff.mp h)
  unfold splitName
  rw [hreverse, Text.cutAt_append (by simpa using hending)]
  dsimp only
  rw [hne, if_neg Bool.false_ne_true, List.reverse_reverse, List.reverse_reverse,
    String.ofList_toList, String.ofList_toList]

theorem splitName_cases (name : String) :
    splitName name = (name, none) ∨ ∃ stem ending, splitName name = (stem, some ending) ∧
      name = stem ++ "." ++ ending ∧ stem ≠ "" ∧ '.' ∉ ending.toList := by
  cases hcut : Text.cutAt '.' name.toList.reverse with
  | none =>
    left
    unfold splitName
    rw [hcut]
  | some cut =>
    obtain ⟨back, front⟩ := cut
    obtain ⟨hname, hback⟩ := Text.cutAt_eq_some hcut
    by_cases hfront : front.isEmpty = true
    · left
      unfold splitName
      rw [hcut]
      dsimp only
      rw [if_pos hfront]
    · right
      refine ⟨String.ofList front.reverse, String.ofList back.reverse, ?_, ?_, ?_, ?_⟩
      · unfold splitName
        rw [hcut]
        dsimp only
        rw [if_neg hfront]
      · apply String.toList_inj.mp
        rw [← List.reverse_reverse name.toList, hname]
        simp
      · intro hempty
        have hnil := congrArg String.toList hempty
        rw [String.toList_ofList] at hnil
        simp at hnil
        exact hfront (by rw [hnil]; rfl)
      · rw [String.toList_ofList, List.mem_reverse]
        exact hback

theorem stem_subset (name : String) : ∀ c ∈ (splitName name).1.toList, c ∈ name.toList := by
  intro c hc
  rcases splitName_cases name with h | ⟨stem, ending, h, hname, -, -⟩
  · rwa [h] at hc
  · rw [h] at hc
    rw [hname, String.toList_append, String.toList_append]
    exact List.mem_append_left _ (List.mem_append_left _ hc)

theorem isName_stem_append {stem : String} (hstem : '/' ∉ stem.toList) (h : IsEnding ending) :
    IsName (stem ++ "." ++ ending) := by
  have hne : ending.toList ≠ [] := fun hempty =>
    h.isName.ne_empty (String.toList_eq_nil_iff.mp hempty)
  have hlast : (stem ++ "." ++ ending).toList.getLast? = some (ending.toList.getLast hne) := by
    rw [String.toList_append, List.getLast?_append, List.getLast?_eq_some_getLast hne, Option.or]
  have hdot : ending.toList.getLast hne ≠ '.' := fun hdot => h.noDot (hdot ▸ List.getLast_mem hne)
  have hdiffers : ∀ s : String, (∀ c, s.toList.getLast? = some c → c = '.') →
      stem ++ "." ++ ending ≠ s := by
    rintro s hs rfl
    exact hdot (hs _ hlast)
  refine ⟨hdiffers "" (by simp), hdiffers "." (by simp), hdiffers ".." (by simp), ?_⟩
  rw [String.toList_append, String.toList_append]
  simp only [List.mem_append, not_or]
  exact ⟨⟨hstem, by simp⟩, h.isName.noSlash⟩

theorem trimmedParts_of_fileName (h : path.fileName? = some name) :
    ∃ front, path.trimmedParts = front ++ [name] ∧ IsName name ∧
      AreParts path.isRooted (front ++ [name]) ∧
      path.components =
        topOf path.isRooted ++ partComponents (!path.isRooted) front ++ [.name name] := by
  obtain ⟨above, habove⟩ := fileName?_eq_some_iff.mp h
  have hne : path.text ≠ "" := by
    intro hempty
    rw [eq_of_text (q := ⟨""⟩) hempty] at habove
    exact absurd habove (by simp [components, isRooted, parts, partComponents, partComponent?,
      Text.split, Text.splitWhere, Text.splitFrom])
  have hparts := areParts_parts path hne
  rw [components_eq] at habove ⊢
  unfold trimmedParts
  rcases trimParts_cases (!path.isRooted) path.parts with
    ⟨-, hnone⟩ | ⟨front, last, c, behind, htrim, hsplit, hlast, hsome⟩
  · rw [hnone, List.append_nil] at habove
    unfold topOf at habove
    split at habove
    · have hroot := congrArg List.getLast? habove
      simp at hroot
    · simp at habove
  · rw [hsome, ← List.append_assoc] at habove
    obtain ⟨-, hc⟩ := List.append_inj' habove rfl
    cases hc
    have hslash : '/' ∉ last.toList := hparts.noSlash last (by rw [hsplit]; simp)
    have hname : last = name ∧ IsName name := by
      have hinner := isInner_of_partComponent? hslash hlast
      unfold partComponent? at hlast
      split at hlast
      · cases hlast
      split at hlast
      · split at hlast <;> cases hlast
      split at hlast
      · cases hlast
      · cases hlast
        exact ⟨rfl, hinner⟩
    obtain ⟨rfl, hisName⟩ := hname
    refine ⟨front, htrim, hisName, hparts.of_isPrefix ⟨behind, hsplit.symm⟩, ?_⟩
    rw [hsome, List.append_assoc]

/-- **Another ending** changes the file name only. -/
theorem components_setEnding (h : path.fileName? = some name) (hending : IsEnding ending) :
    (path.setEnding ending).components =
      path.components.dropLast ++ [.name ((splitName name).1 ++ "." ++ ending)] := by
  obtain ⟨front, htrim, hname, hparts, hcomponents⟩ := trimmedParts_of_fileName h
  have hstem : '/' ∉ (splitName name).1.toList := fun hmem =>
    hname.noSlash (stem_subset name _ hmem)
  have hnew := isName_stem_append hstem hending
  have hset : path.setEnding ending =
      ofParts path.isRooted (front ++ [(splitName name).1 ++ "." ++ ending]) := by
    unfold setEnding
    rw [h]
    dsimp only
    rw [htrim, List.dropLast_concat]
  have hsound : AreParts path.isRooted (front ++ [(splitName name).1 ++ "." ++ ending]) := by
    refine ⟨fun part hpart => ?_, fun hrooted hhead => ?_⟩
    · rcases List.mem_append.mp hpart with hpart | hpart
      · exact hparts.noSlash part (List.mem_append_left _ hpart)
      · rw [List.mem_singleton.mp hpart]
        exact hnew.noSlash
    · cases front with
      | nil => exact hnew.ne_empty (Option.some.inj hhead)
      | cons part front => exact hparts.front hrooted hhead
  rw [hset, components_ofParts hsound, partComponents_append, partComponents_singleton,
    partComponent?_name hnew, hcomponents, List.dropLast_concat, List.append_assoc]
  rfl

/-! ### Another ending in place of the old one -/

section Replaced

variable {stem old : String}

theorem text_ofParts_concat (rooted : Bool) (front : List String) (part behind : String) :
    (ofParts rooted (front ++ [part ++ behind])).text =
      (ofParts rooted (front ++ [part])).text ++ behind := by
  rw [text_ofParts, text_ofParts, String.append_assoc]
  congr 1
  by_cases hfront : front = []
  · subst hfront
    simp
  · rw [String.intercalate_append_of_ne_nil hfront (List.cons_ne_nil _ _),
      String.intercalate_append_of_ne_nil hfront (List.cons_ne_nil _ _),
      String.intercalate_singleton,
      String.intercalate_singleton, String.append_assoc, String.append_assoc, String.append_assoc]

theorem fileName?_ofParts (hparts : AreParts rooted (front ++ [name])) (hname : IsName name) :
    (ofParts rooted (front ++ [name])).fileName? = some name := by
  refine fileName?_eq_some_iff.mpr ⟨topOf rooted ++ partComponents (!rooted) front, ?_⟩
  rw [components_ofParts hparts, partComponents_append, partComponents_singleton,
    partComponent?_name hname, List.append_assoc]
  rfl

theorem AreParts.replaceLast {other : String} (h : AreParts rooted (front ++ [name]))
    (hne : other ≠ "") (hslash : '/' ∉ other.toList) : AreParts rooted (front ++ [other]) := by
  refine ⟨fun part hpart => ?_, fun hrooted hhead => ?_⟩
  · rcases List.mem_append.mp hpart with hpart | hpart
    · exact h.noSlash part (List.mem_append_left _ hpart)
    · rwa [List.mem_singleton.mp hpart]
  · cases front with
    | nil => exact hne (Option.some.inj hhead)
    | cons part front => exact h.front hrooted hhead

theorem dropEnding_ofParts (hparts : AreParts rooted (front ++ [stem ++ "." ++ old]))
    (hname : IsName (stem ++ "." ++ old)) (hstem : stem ≠ "") (hold : '.' ∉ old.toList) :
    (ofParts rooted (front ++ [stem ++ "." ++ old])).dropEnding =
      ofParts rooted (front ++ [stem ++ "."]) := by
  have hending : (ofParts rooted (front ++ [stem ++ "." ++ old])).ending? = some old := by
    unfold ending?
    rw [fileName?_ofParts hparts hname]
    show (splitName _).2 = _
    rw [splitName_append hstem hold]
  have htext := congrArg String.toList (text_ofParts_concat rooted front (stem ++ ".") old)
  rw [String.toList_append] at htext
  apply eq_of_text
  unfold dropEnding
  rw [hending]
  dsimp only
  rw [htext, List.length_append, String.length_toList (s := old), Nat.add_sub_cancel_right,
    List.take_left, String.ofList_toList]

/-- **Another ending in place of the old one**: the file name keeps its stem. A name of two dots and
an ending is left with the two dots alone, and gets no new ending. -/
theorem components_withEnding (hparts : AreParts rooted (front ++ [stem ++ "." ++ old]))
    (hname : IsName (stem ++ "." ++ old)) (hstem : stem ≠ "") (hold : '.' ∉ old.toList)
    (hending : IsEnding ending) :
    ((ofParts rooted (front ++ [stem ++ "." ++ old])).withEnding ending).components =
      topOf rooted ++ partComponents (!rooted) front ++
        [if stem = "." then .parent else .name (stem ++ "." ++ ending)] := by
  have hslash : '/' ∉ (stem ++ ".").toList := by
    intro hmem
    refine hname.noSlash ?_
    rw [String.toList_append]
    exact List.mem_append_left _ hmem
  have hne : stem ++ "." ≠ "" := by simp
  have hrest := hparts.replaceLast hne hslash
  unfold withEnding
  rw [dropEnding_ofParts hparts hname hstem hold]
  split
  · next hdot =>
    -- What is left is the step upwards, which is no file name.
    subst hdot
    have hcomponents : (ofParts rooted (front ++ ["." ++ "."])).components =
        topOf rooted ++ partComponents (!rooted) front ++ [.parent] := by
      rw [components_ofParts hrest, partComponents_append, partComponents_singleton,
        List.append_assoc]
      rfl
    have hnone : (ofParts rooted (front ++ ["." ++ "."])).fileName? = none := by
      unfold fileName?
      rw [hcomponents, List.getLast?_concat]
    unfold setEnding
    rw [hnone]
    exact hcomponents
  · next hdot =>
    have hleft : IsName (stem ++ ".") := by
      refine ⟨hne, fun heq => hstem ?_, fun heq => hdot ?_, hslash⟩
      · exact (String.append_left_inj ".").mp (heq.trans (String.empty_append.symm))
      · exact (String.append_left_inj ".").mp (heq.trans (by decide : ".." = "." ++ "."))
    have hsplit : splitName (stem ++ ".") = (stem, some "") := by
      have hempty : splitName (stem ++ "." ++ "") = (stem, some "") :=
        splitName_append hstem (by simp)
      rwa [String.append_empty] at hempty
    rw [components_setEnding (fileName?_ofParts hrest hleft) hending, hsplit,
      components_ofParts hrest, partComponents_append, partComponents_singleton,
      partComponent?_name hleft, ← List.append_assoc]
    show (_ ++ [Component.name (stem ++ ".")]).dropLast ++ _ = _
    rw [List.dropLast_concat]

end Replaced

/-! ### Paths from a folder -/

theorem text_ofParts_append (rooted : Bool) (hfront : front ≠ []) (part : String) :
    (ofParts rooted (front ++ [part])).text = (ofParts rooted front).text ++ "/" ++ part := by
  rw [text_ofParts, text_ofParts,
    String.intercalate_append_of_ne_nil hfront (List.cons_ne_nil _ _), String.intercalate_singleton,
    String.append_assoc, String.append_assoc, String.append_assoc]

theorem text_ofParts_joined (rooted : Bool) (front : List String) (hne : names ≠ []) :
    (ofParts rooted (front ++ [String.intercalate "/" names])).text =
      (ofParts rooted (front ++ names)).text := by
  rw [text_ofParts, text_ofParts]
  congr 1
  by_cases hfront : front = []
  · subst hfront
    simp
  · rw [String.intercalate_append_of_ne_nil hfront (List.cons_ne_nil _ _),
      String.intercalate_append_of_ne_nil hfront hne, String.intercalate_singleton]

theorem parts_ne_nil (path : Path) : path.parts ≠ [] := by
  unfold parts
  split <;> exact Text.split_ne_nil _ _

/-- The parts of a folder that stand in front of those of a path from it. A slash at the end of the
folder leaves an empty part behind it, which is left out. -/
def folderParts (root : Path) : List String :=
  if root.parts.getLast? = some "" then root.parts.dropLast else root.parts

/-- A path ends in a slash exactly if its last part is empty, and the path is not. -/
theorem getLast?_parts_iff (hroot : root.text ≠ "") :
    root.parts.getLast? = some "" ↔ root.text.toList.getLast? = some '/' := by
  have hparts := root.parts_ne_nil
  have hsplit := List.dropLast_concat_getLast hparts
  have hpath := ofParts_parts root
  rw [List.getLast?_eq_some_getLast hparts, Option.some_inj]
  generalize root.parts.getLast hparts = last at hsplit
  generalize root.parts.dropLast = front at hsplit
  constructor
  · rintro rfl
    rw [← hsplit] at hpath
    by_cases hfront : front = []
    · subst hfront
      cases hrooted : root.isRooted with
      | true =>
        rw [← hpath, hrooted]
        rfl
      | false =>
        rw [← hpath, hrooted] at hroot
        exact absurd rfl hroot
    · have htext := text_ofParts_append root.isRooted hfront ""
      rw [hpath] at htext
      rw [htext]
      simp
  · intro hslash
    by_cases hempty : last = ""
    · exact hempty
    have hchars : last.toList ≠ [] := fun hnil => hempty (String.toList_eq_nil_iff.mp hnil)
    have htext := text_ofParts_concat root.isRooted front "" last
    rw [String.empty_append, hsplit, hpath] at htext
    rw [htext, String.toList_append, List.getLast?_append, List.getLast?_eq_some_getLast hchars,
      Option.or] at hslash
    have hmem : '/' ∈ last.toList := Option.some.inj hslash ▸ List.getLast_mem hchars
    exact absurd hmem ((areParts_parts root hroot).noSlash last (by rw [← hsplit]; simp))

theorem components_ne_nil (hroot : root.text ≠ "") : root.components ≠ [] := by
  rw [components_eq]
  cases hrooted : root.isRooted with
  | true => exact List.cons_ne_nil _ _
  | false =>
    obtain ⟨part, parts, hparts⟩ := List.exists_cons_of_ne_nil root.parts_ne_nil
    have hpart : part ≠ "" := by
      rintro rfl
      exact (areParts_parts root hroot).front hrooted (by rw [hparts]; rfl)
    have hsome : partComponent? true part ≠ none := by
      unfold partComponent?
      rw [if_neg (by simpa using hpart)]
      split
      · exact Option.some_ne_none _
      · split <;> exact Option.some_ne_none _
    obtain ⟨c, hc⟩ := Option.ne_none_iff_exists'.mp hsome
    rw [hparts]
    show (partComponent? true part).toList ++ _ ≠ []
    rw [hc]
    exact List.cons_ne_nil _ _

theorem AreParts.append (h : AreParts rooted front) (hfront : front ≠ [])
    (hnames : ∀ name ∈ names, '/' ∉ name.toList) : AreParts rooted (front ++ names) where
  noSlash part hpart := (List.mem_append.mp hpart).elim (h.noSlash part) (hnames part)
  front hrooted hhead := by
    obtain ⟨part, front, rfl⟩ := List.exists_cons_of_ne_nil hfront
    exact h.front hrooted hhead

theorem areParts_folderParts (root : Path) (hnames : ∀ name ∈ names, IsName name) :
    AreParts root.isRooted (root.folderParts ++ names) := by
  have hslash : ∀ name ∈ names, '/' ∉ name.toList := fun name hname => (hnames name hname).noSlash
  have halone : root.folderParts = [] → AreParts root.isRooted (root.folderParts ++ names) := by
    intro hempty
    rw [hempty]
    refine ⟨hslash, fun _ hhead => ?_⟩
    obtain ⟨behind, rfl⟩ := List.head?_eq_some_iff.mp hhead
    exact (hnames "" List.mem_cons_self).ne_empty rfl
  by_cases hroot : root.text = ""
  · exact halone (by rw [eq_of_text (q := ⟨""⟩) hroot]; rfl)
  by_cases hempty : root.folderParts = []
  · exact halone hempty
  refine ((areParts_parts root hroot).of_isPrefix ?_).append hempty hslash
  unfold folderParts
  split
  · exact List.dropLast_prefix _
  · exact List.prefix_rfl

/-- **A path from a folder** has the parts of the folder in front. -/
theorem join_ofParts (root : Path) (hne : parts ≠ [])
    (hrelative : (ofParts false parts).isRooted = false) :
    root.join (ofParts false parts) = ofParts root.isRooted (root.folderParts ++ parts) := by
  by_cases hroot : root.text = ""
  · rw [eq_of_text (q := ⟨""⟩) hroot]
    unfold join
    split <;> rfl
  have hchars : root.text.toList ≠ [] := fun hnil => hroot (String.toList_eq_nil_iff.mp hnil)
  have hpath := ofParts_parts root
  apply eq_of_text
  unfold join folderParts
  rw [hrelative, if_neg Bool.false_ne_true, ofParts_text,
    ← text_ofParts_joined _ _ hne]
  split
  · next hnone => exact absurd (List.getLast?_eq_none_iff.mp hnone) hchars
  · next hlast =>
    have hempty := (getLast?_parts_iff hroot).mpr hlast
    obtain ⟨front, hfront⟩ := List.getLast?_eq_some_iff.mp hempty
    have htext := text_ofParts_concat root.isRooted front "" (String.intercalate "/" parts)
    rw [String.empty_append, ← hfront, hpath] at htext
    rw [if_pos hempty, hfront, List.dropLast_concat, htext]
  · next c hother hlast =>
    have hempty : ¬root.parts.getLast? = some "" := by
      rw [getLast?_parts_iff hroot, hlast]
      exact fun h => hother (Option.some.inj h)
    have htext := text_ofParts_append root.isRooted root.parts_ne_nil (String.intercalate "/" parts)
    rw [hpath] at htext
    rw [if_neg hempty, htext]

theorem join_ofNames (root : Path) (hne : names ≠ []) (hnames : ∀ name ∈ names, IsName name) :
    root.join (ofParts false names) = ofParts root.isRooted (root.folderParts ++ names) :=
  join_ofParts root hne (isRooted_ofNames hnames)

theorem partComponents_folderParts (root : Path) :
    topOf root.isRooted ++ partComponents (!root.isRooted) root.folderParts = root.components := by
  rw [components_eq]
  congr 1
  unfold folderParts
  split
  · next hlast =>
    obtain ⟨front, hfront⟩ := List.getLast?_eq_some_iff.mp hlast
    rw [hfront, List.dropLast_concat, partComponents_append, partComponents_singleton]
    simp [partComponent?]
  · rfl

theorem components_join (root : Path) (hne : names ≠ []) (hnames : ∀ name ∈ names, IsName name) :
    (root.join (ofParts false names)).components = root.components ++ names.map .name := by
  rw [join_ofNames root hne hnames, components_ofParts (areParts_folderParts root hnames),
    partComponents_append, partComponents_names hnames, ← List.append_assoc,
    partComponents_folderParts]

end Path

end ProofProse
