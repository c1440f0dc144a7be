import ProofProse.Inclusion.Library

/-! # Paths that stay inside

A plain path is a list of names with slashes between them (`Path.IsPlain`): it says where a file is
below the folder that paths begin in, and has no dots and no steps upwards. Texts that are joined are
cut into the same texts again (`Text.split_intercalate`), so the components of a plain path are its
names (`Path.components_ofNames`).

A target that is named in a plain path, does not start at the top and never climbs above the folder
that paths begin in (`Path.StaysInside`) resolves to a plain path (`Path.isPlain_sibling`), whatever
dots and steps upwards it is written with. -/

namespace ProofProse

/-! ### Joined texts -/

namespace Text

theorem splitFrom_of_notMem {c : Char} : ∀ (cs part behind : List Char), c ∉ cs →
    splitFrom (· == c) part (cs ++ behind) = splitFrom (· == c) (cs.reverse ++ part) behind
  | [], _, _, _ => rfl
  | d :: cs, part, behind, h => by
    have hd : (d == c) = false :=
      beq_eq_false_iff_ne.mpr fun heq => h (heq ▸ List.mem_cons_self)
    have hcs : c ∉ cs := fun hmem => h (List.mem_cons_of_mem d hmem)
    have hstep : splitFrom (· == c) part (d :: cs ++ behind) =
        splitFrom (· == c) (d :: part) (cs ++ behind) := by
      rw [List.cons_append, splitFrom, hd, if_neg Bool.false_ne_true]
    rw [hstep, splitFrom_of_notMem cs (d :: part) behind hcs]
    simp

/-- Lists of characters that are joined by a separator, cut at the separator. -/
theorem splitWhere_intercalate {c : Char} : ∀ {parts : List (List Char)}, parts ≠ [] →
    (∀ part ∈ parts, c ∉ part) → splitWhere (· == c) ([c].intercalate parts) = parts
  | [], h, _ => absurd rfl h
  | [part], _, h => by
    have hpart := splitFrom_of_notMem part [] [] (h part List.mem_cons_self)
    unfold splitWhere
    rw [List.intercalate_singleton, ← List.append_nil part, hpart]
    simp [splitFrom]
  | part :: next :: parts, _, h => by
    have hpart := splitFrom_of_notMem part [] (c :: [c].intercalate (next :: parts))
      (h part List.mem_cons_self)
    have hrest : splitWhere (· == c) ([c].intercalate (next :: parts)) = next :: parts :=
      splitWhere_intercalate (List.cons_ne_nil _ _) fun p hp => h p (List.mem_cons_of_mem part hp)
    unfold splitWhere at *
    rw [List.intercalate_cons_cons, List.append_assoc, List.singleton_append, hpart, splitFrom,
      beq_self_eq_true, if_pos rfl, hrest]
    simp

/-- **Texts that are joined** by a separator are cut into the same texts at the separator. -/
theorem split_intercalate {c : Char} {texts : List String} (hne : texts ≠ [])
    (h : ∀ text ∈ texts, c ∉ text.toList) :
    split c (String.intercalate (String.singleton c) texts) = texts := by
  have hparts : ∀ part ∈ texts.map String.toList, c ∉ part := by
    intro part hpart
    obtain ⟨text, htext, rfl⟩ := List.mem_map.mp hpart
    exact h text htext
  have hsplit := splitWhere_intercalate (by simpa using hne) hparts
  unfold split
  rw [String.toList_intercalate, String.toList_singleton, hsplit, List.map_map]
  simp

theorem notMem_of_splitFrom {p : Char → Bool} : ∀ (cs part : List Char), (∀ d ∈ part, p d = false) →
    ∀ found ∈ splitFrom p part cs, ∀ d ∈ found, p d = false
  | [], part, hpart, found, hfound, d, hd => by
    rw [List.mem_singleton.mp hfound] at hd
    exact hpart d (List.mem_reverse.mp hd)
  | c :: cs, part, hpart, found, hfound, d, hd => by
    unfold splitFrom at hfound
    split at hfound
    · rcases List.mem_cons.mp hfound with rfl | hfound
      · exact hpart d (List.mem_reverse.mp hd)
      · exact notMem_of_splitFrom cs [] nofun found hfound d hd
    · next hc =>
      refine notMem_of_splitFrom cs (c :: part) (fun e he => ?_) found hfound d hd
      rcases List.mem_cons.mp he with rfl | he
      · exact Bool.eq_false_iff.mpr hc
      · exact hpart e he

theorem notMem_of_split {c : Char} {s part : String} (h : part ∈ split c s) : c ∉ part.toList := by
  obtain ⟨cs, hcs, rfl⟩ := List.mem_map.mp h
  intro hmem
  rw [String.toList_ofList] at hmem
  have hc := notMem_of_splitFrom _ [] nofun cs hcs c hmem
  rw [beq_self_eq_true] at hc
  cases hc

end Text

namespace Path

/-! ### Plain paths -/

/-- A name of a file or folder. -/
structure IsName (name : String) : Prop where
  ne_empty : name ≠ ""
  ne_current : name ≠ "."
  ne_parent : name ≠ ".."
  noSlash : '/' ∉ name.toList

instance (name : String) : Decidable (IsName name) :=
  decidable_of_iff (name ≠ "" ∧ name ≠ "." ∧ name ≠ ".." ∧ '/' ∉ name.toList)
    ⟨fun ⟨hempty, hcurrent, hparent, hslash⟩ => ⟨hempty, hcurrent, hparent, hslash⟩,
      fun h => ⟨h.ne_empty, h.ne_current, h.ne_parent, h.noSlash⟩⟩

/-- A path that is a list of names. -/
def IsPlain (path : String) : Prop :=
  ∃ names : List String, (∀ name ∈ names, IsName name) ∧ path = (ofParts false names).text

variable {name path target : String} {names parts : List String}

theorem partComponent?_name (h : IsName name) (first : Bool) :
    partComponent? first name = some (.name name) := by
  unfold partComponent?
  rw [beq_eq_false_iff_ne.mpr h.ne_empty, beq_eq_false_iff_ne.mpr h.ne_current,
    beq_eq_false_iff_ne.mpr h.ne_parent]
  rfl

theorem partComponents_names (h : ∀ name ∈ names, IsName name) (first : Bool) :
    partComponents first names = names.map .name := by
  induction names generalizing first with
  | nil => rfl
  | cons name names ih =>
    have hname := partComponent?_name (h name List.mem_cons_self) first
    have hrest := ih (fun n hn => h n (List.mem_cons_of_mem name hn)) false
    unfold partComponents
    rw [hname, hrest]
    rfl

theorem ofParts_text (names : List String) :
    (ofParts false names).text = String.intercalate "/" names := by
  simp [ofParts]

theorem isRooted_ofNames (h : ∀ name ∈ names, IsName name) :
    (ofParts false names).isRooted = false := by
  unfold isRooted
  rw [ofParts_text, String.toList_intercalate, beq_eq_false_iff_ne]
  cases names with
  | nil => simp
  | cons name names =>
    have hname := h name List.mem_cons_self
    have hne : name.toList ≠ [] := by
      intro hempty
      exact hname.ne_empty (String.toList_eq_nil_iff.mp hempty)
    obtain ⟨c, cs, hcs⟩ := List.exists_cons_of_ne_nil hne
    have hhead : (List.intercalate "/".toList ((name :: names).map String.toList)).head? = some c := by
      cases names <;> simp [List.intercalate, hcs]
    rw [hhead]
    intro heq
    cases heq
    exact hname.noSlash (hcs ▸ List.mem_cons_self)

theorem parts_of_isRooted {path : Path} (h : path.isRooted = false) :
    path.parts = Text.split '/' path.text := by
  unfold parts
  split
  · next cs hcs =>
    unfold isRooted at h
    rw [hcs] at h
    cases h
  · rfl

/-- The parts of a list of names; without names there is one part, and it is empty. -/
theorem parts_ofNames (h : ∀ name ∈ names, IsName name) :
    (ofParts false names).parts = if names = [] then [""] else names := by
  rw [parts_of_isRooted (isRooted_ofNames h), ofParts_text]
  split
  · next hempty =>
    subst hempty
    rfl
  · next hne => exact Text.split_intercalate hne fun name hname => (h name hname).noSlash

/-- **The components** of a list of names are the names. -/
theorem components_ofNames (h : ∀ name ∈ names, IsName name) :
    (ofParts false names).components = names.map .name := by
  unfold components
  rw [isRooted_ofNames h, if_neg Bool.false_ne_true, parts_ofNames h]
  split
  · next hempty =>
    subst hempty
    rfl
  · exact partComponents_names h true

/-! ### Components of any path -/

/-- A component behind the top: it is no top, and a name has no slash in it. -/
def Component.IsInner : Component → Prop
  | .root => False
  | .name s => IsName s
  | _ => True

theorem isInner_of_partComponent? {first : Bool} {part : String} {c : Component}
    (hpart : '/' ∉ part.toList) (h : partComponent? first part = some c) : c.IsInner := by
  unfold partComponent? at h
  split at h
  · cases h
  next hempty =>
  split at h
  · split at h
    · cases h
      trivial
    · cases h
  next hcurrent =>
  split at h
  · cases h
    trivial
  · next hparent =>
    cases h
    exact ⟨by simpa using hempty, by simpa using hcurrent, by simpa using hparent, hpart⟩

theorem isInner_of_partComponents : ∀ {parts : List String} {first : Bool} {c : Component},
    (∀ part ∈ parts, '/' ∉ part.toList) → c ∈ partComponents first parts → c.IsInner
  | part :: parts, first, c, h, hc => by
    unfold partComponents at hc
    rcases List.mem_append.mp hc with hc | hc
    · exact isInner_of_partComponent? (h part List.mem_cons_self) (Option.mem_toList.mp hc)
    · exact isInner_of_partComponents (fun p hp => h p (List.mem_cons_of_mem part hp)) hc

theorem isInner_of_components {path : Path} (hpath : path.isRooted = false) :
    ∀ c ∈ path.components, c.IsInner := by
  intro c hc
  unfold components at hc
  rw [hpath, if_neg Bool.false_ne_true, parts_of_isRooted hpath] at hc
  exact isInner_of_partComponents (fun part hpart => Text.notMem_of_split hpart) hc

/-! ### Folding -/

/-- What is left of inner components when they are folded: names, and steps upwards. -/
theorem inner_foldl_step : ∀ (components : List Component) (folded : Folded),
    (∀ c ∈ components, c.IsInner) → folded.rooted = false →
    (∀ c ∈ folded.reversed, c = .parent ∨ ∃ s, IsName s ∧ c = .name s) →
    (components.foldl Folded.step folded).rooted = false ∧
      ∀ c ∈ (components.foldl Folded.step folded).reversed,
        c = .parent ∨ ∃ s, IsName s ∧ c = .name s
  | [], _, _, hrooted, hreversed => ⟨hrooted, hreversed⟩
  | c :: components, folded, h, hrooted, hreversed => by
    have hc := h c List.mem_cons_self
    refine inner_foldl_step components (folded.step c)
      (fun d hd => h d (List.mem_cons_of_mem c hd)) ?_ ?_
    · cases c with
      | root => exact hc.elim
      | current => exact hrooted
      | parent =>
        unfold Folded.step
        dsimp only
        split <;> exact hrooted
      | name s => exact hrooted
    · cases c with
      | root => exact hc.elim
      | current => exact hreversed
      | parent =>
        unfold Folded.step
        dsimp only
        split
        · next s above habove =>
          intro d hd
          exact hreversed d (habove ▸ List.mem_cons_of_mem _ hd)
        · intro d hd
          rcases List.mem_cons.mp hd with rfl | hd
          · exact .inl rfl
          · exact hreversed d hd
      | name s =>
        intro d hd
        rcases List.mem_cons.mp hd with rfl | hd
        · exact .inr ⟨s, hc, rfl⟩
        · exact hreversed d hd

/-- The folded target that is named in the file `including`. -/
def foldedFrom (including target : Path) : Folded :=
  (including.folder.join target).components.foldl Folded.step {}

/-- A target does not start at the top, and never climbs above the folder that paths begin in. -/
structure StaysInside (including target : Path) : Prop where
  relative : target.isRooted = false
  below : .parent ∉ (foldedFrom including target).reversed

instance (including target : Path) : Decidable (StaysInside including target) :=
  decidable_of_iff (target.isRooted = false ∧ .parent ∉ (foldedFrom including target).reversed)
    ⟨fun h => ⟨h.1, h.2⟩, fun h => ⟨h.relative, h.below⟩⟩

theorem isPlain_of_folded {folded : Folded} (hrooted : folded.rooted = false)
    (h : ∀ c ∈ folded.reversed, ∃ s, IsName s ∧ c = .name s) : IsPlain folded.path.text := by
  refine ⟨folded.reversed.reverse.map Component.text, fun name hname => ?_, ?_⟩
  · obtain ⟨c, hc, rfl⟩ := List.mem_map.mp hname
    obtain ⟨s, hs, rfl⟩ := h c (List.mem_reverse.mp hc)
    exact hs
  · unfold Folded.path
    rw [hrooted]

theorem isRooted_join {folder target : Path} (hfolder : folder.isRooted = false)
    (htarget : target.isRooted = false) : (folder.join target).isRooted = false := by
  unfold join
  rw [htarget, if_neg Bool.false_ne_true]
  have hfront : ∀ {cs : List Char} {text : String}, folder.text.toList ≠ [] →
      text.toList = folder.text.toList ++ cs → isRooted ⟨text⟩ = false := by
    intro cs text hne htext
    obtain ⟨c, rest, hrest⟩ := List.exists_cons_of_ne_nil hne
    unfold isRooted at *
    rw [htext, hrest]
    rwa [hrest] at hfolder
  split
  · exact htarget
  · next hlast =>
    have hne : folder.text.toList ≠ [] := by
      intro hempty
      rw [hempty] at hlast
      cases hlast
    exact hfront hne String.toList_append
  · next hlast =>
    have hne : folder.text.toList ≠ [] := by
      intro hempty
      rw [hempty] at hlast
      cases hlast
    have happend : (folder.text ++ "/" ++ target.text).toList =
        folder.text.toList ++ ('/' :: target.text.toList) := by simp
    exact hfront hne happend

/-! ### Targets named in plain paths -/

theorem trimParts_subset : ∀ {first : Bool} {parts : List String} {part : String},
    part ∈ trimParts first parts → part ∈ parts
  | first, p :: parts, part, h => by
    unfold trimParts at h
    dsimp only at h
    split at h
    · cases h
    · rcases List.mem_cons.mp h with rfl | h
      · exact List.mem_cons_self
      · exact List.mem_cons_of_mem p (trimParts_subset h)

theorem isRooted_folder (h : IsPlain path) : (folder ⟨path⟩).isRooted = false := by
  obtain ⟨names, hnames, rfl⟩ := h
  have hrooted := isRooted_ofNames hnames
  by_cases hempty : names = []
  · subst hempty
    rfl
  have hparts : (ofParts false names).parts = names := by
    rw [parts_ofNames hnames, if_neg hempty]
  have htrimmed : ∀ part ∈ (ofParts false names).trimmedParts, part ∈ names := fun part hpart => by
    have hmem := trimParts_subset hpart
    rwa [hparts] at hmem
  show ((ofParts false names).parent?.getD ⟨""⟩).isRooted = false
  unfold parent?
  cases hrest : (ofParts false names).trimmedParts with
  | nil => rfl
  | cons first rest =>
    rw [hrest] at htrimmed
    show (ofParts (ofParts false names).isRooted (trimParts _ (first :: rest).dropLast)).isRooted = false
    rw [hrooted]
    refine isRooted_ofNames fun part hpart => hnames part (htrimmed part ?_)
    exact List.dropLast_subset _ (trimParts_subset hpart)

/-- **A target that stays inside** resolves to a plain path. -/
theorem isPlain_sibling {including : String} (hincluding : IsPlain including)
    (h : StaysInside ⟨including⟩ ⟨target⟩) : IsPlain (Library.siblingPath including target) := by
  obtain ⟨hrelative, hbelow⟩ := h
  have hrooted := isRooted_join (isRooted_folder hincluding) hrelative
  obtain ⟨hfolded, hreversed⟩ :=
    inner_foldl_step ((folder ⟨including⟩).join ⟨target⟩).components {}
      (isInner_of_components hrooted) rfl nofun
  have hpath : Library.siblingPath including target = (foldedFrom ⟨including⟩ ⟨target⟩).path.text := by
    unfold Library.siblingPath sibling
    rw [hrelative]
    rfl
  rw [hpath]
  refine isPlain_of_folded hfolded fun c hc => ?_
  rcases hreversed c hc with rfl | hname
  · exact absurd hc hbelow
  · exact hname

theorem siblingPath_plain (h : IsPlain path) : Library.siblingPath "" path = path := by
  obtain ⟨names, hnames, rfl⟩ := h
  have hnone : (folder ⟨""⟩).join (ofParts false names) = ofParts false names := by
    have hfolder : folder ⟨""⟩ = ⟨""⟩ := by decide
    unfold join
    rw [isRooted_ofNames hnames, hfolder]
    rfl
  have hfold : ∀ (names : List String) (folded : Folded),
      (names.map Component.name).foldl Folded.step folded =
        { folded with reversed := (names.map .name).reverse ++ folded.reversed } := by
    intro names
    induction names with
    | nil => exact fun _ => rfl
    | cons name names ih =>
      intro folded
      rw [List.map_cons, List.foldl_cons, ih]
      simp [Folded.step]
  unfold Library.siblingPath sibling
  rw [show isRooted ⟨(ofParts false names).text⟩ = false from isRooted_ofNames hnames,
    if_neg Bool.false_ne_true]
  show ((folder ⟨""⟩).join (ofParts false names)).fold.text = _
  rw [hnone]
  unfold fold
  rw [components_ofNames hnames, hfold]
  unfold Folded.path
  simp [Component.text, Function.comp_def]

end Path

end ProofProse
