import ProofProse.Proofs.Inside

/-! # Trails of paths

A path leads from place to place, one component after the other. Which places these are does not
depend on what is there (`Disk.next`): they are its trail, of which the last is its destination. The
places before it have to be folders, and then the path leads to its destination (`Disk.place_ok`).
Two disks that have the same along the trail of a path answer it alike (`Disk.find_congr`).

The files and folders of a disk form a tree (`Disk.IsTree`): what is above something is a folder. -/

namespace ProofProse

open ProofProse.Path (Component)

/-! ### Disks by their entries -/

namespace Disk

variable {disk disk' disk'' : Disk} {place start : Place} {entry : DiskEntry}

/-- The same is at every place. How the entries came there is left aside. -/
structure Same (disk disk' : Disk) : Prop where
  working : disk'.working = disk.working
  entries : ∀ place, disk'.entry? place = disk.entry? place

theorem entry?_nil (disk : Disk) : disk.entry? [] = some .folder := rfl

theorem ne_nil_of_entry (h : disk.entry? place ≠ some .folder) : place ≠ [] := by
  rintro rfl
  exact h disk.entry?_nil

theorem entry?_empty (place : Place) :
    entry? {} place = if place = [] then some .folder else none := by
  unfold entry?
  rw [Std.HashMap.getElem?_empty]
  cases place <;> rfl

theorem entry?_put (hplace : place ≠ []) (q : Place) :
    entry? (disk.put place entry) q = if q = place then some entry else disk.entry? q := by
  unfold entry? put
  cases q with
  | nil => rw [if_pos List.isEmpty_nil, if_pos List.isEmpty_nil, if_neg fun h => hplace h.symm]
  | cons name names =>
    rw [List.isEmpty_cons, if_neg Bool.false_ne_true, if_neg Bool.false_ne_true,
      Std.HashMap.getElem?_insert]
    simp only [beq_iff_eq, eq_comm (a := place)]

theorem entry?_erase (hplace : place ≠ []) (q : Place) :
    entry? (disk.erase place) q = if q = place then none else disk.entry? q := by
  unfold entry? erase
  cases q with
  | nil => rw [if_pos List.isEmpty_nil, if_pos List.isEmpty_nil, if_neg fun h => hplace h.symm]
  | cons name names =>
    rw [List.isEmpty_cons, if_neg Bool.false_ne_true, if_neg Bool.false_ne_true,
      Std.HashMap.getElem?_erase]
    simp only [beq_iff_eq, eq_comm (a := place)]

/-- The files and folders of a disk form a tree: paths begin in a folder, what is above something is
a folder, and everything has a name. -/
structure IsTree (disk : Disk) : Prop where
  working : disk.entry? disk.working = some .folder
  above : ∀ place name, disk.entry? (place ++ [name]) ≠ none → disk.entry? place = some .folder
  names : ∀ place, disk.entry? place ≠ none → ∀ name ∈ place, Path.IsName name

theorem IsTree.names_below {names : List String} (hdisk : disk.IsTree)
    (h : disk.entry? (place ++ names) ≠ none) : ∀ name ∈ names, Path.IsName name :=
  fun name hname => hdisk.names _ h name (List.mem_append_right _ hname)

end Disk

/-! ### From place to place -/

/-- A component is not too long. -/
def Path.Component.Fits : Path.Component → Prop
  | .name s => s.utf8ByteSize ≤ Disk.nameLimit
  | _ => True

instance : DecidablePred Path.Component.Fits
  | .root => .isTrue trivial
  | .current => .isTrue trivial
  | .parent => .isTrue trivial
  | .name s => inferInstanceAs (Decidable (s.utf8ByteSize ≤ Disk.nameLimit))

/-- The text of a path may be given to the system. -/
structure Path.IsSound (path : Path) : Prop where
  noZero : path.text.contains '\x00' = false
  ne_empty : path.text ≠ ""
  short : path.text.utf8ByteSize ≤ Disk.pathLimit

instance (path : Path) : Decidable path.IsSound :=
  decidable_of_iff ('\x00' ∉ path.text.toList ∧ path.text ≠ "" ∧
      path.text.utf8ByteSize ≤ Disk.pathLimit)
    ⟨fun ⟨hzero, hempty, hshort⟩ => ⟨by simpa using hzero, hempty, hshort⟩,
      fun h => ⟨by simpa using h.noZero, h.ne_empty, h.short⟩⟩

/-- The beginning of a text that may be given to the system may be given to it too. -/
theorem Path.IsSound.of_text {path above : Path} (h : path.IsSound) (hne : above.text ≠ "")
    (htext : above.text.toList <+: path.text.toList) : above.IsSound := by
  obtain ⟨rest, hrest⟩ := htext
  have hpath : path.text = above.text ++ String.ofList rest := by
    apply String.toList_inj.mp
    rw [← hrest, String.toList_append, String.toList_ofList]
  have hzero := h.noZero
  have hshort := h.short
  rw [hpath, String.utf8ByteSize_append] at hshort
  rw [String.contains_char_eq, decide_eq_false_iff_not, ← hrest] at hzero
  refine ⟨?_, hne, Nat.le_trans (Nat.le_add_right _ _) hshort⟩
  rw [String.contains_char_eq, decide_eq_false_iff_not]
  exact fun hmem => hzero (List.mem_append_left _ hmem)

namespace Disk

variable {disk disk' : Disk} {place start : Place} {components : List Component} {path : Path}

/-- The place one component further, whatever is there. -/
def next (place : Place) : Component → Place
  | .root => []
  | .current => place
  | .parent => place.dropLast
  | .name s => place ++ [s]

theorem foldl_next_names (names : List String) (start : Place) :
    (names.map Component.name).foldl next start = start ++ names := by
  induction names generalizing start with
  | nil => simp
  | cons name names ih =>
    rw [List.map_cons, List.foldl_cons, ih, next, List.append_assoc, List.singleton_append]

/-- The places that components lead through, the last one left out. -/
def passed (start : Place) : List Component → List Place
  | [] => []
  | c :: components => start :: passed (next start c) components

/-- Where a path leads to. -/
def destination (disk : Disk) (path : Path) : Place := path.components.foldl next disk.working

theorem destination_congr (h : disk'.working = disk.working) (path : Path) :
    disk'.destination path = disk.destination path := by
  unfold destination
  rw [h]

/-- The places that a path leads through, and where it leads to. -/
def trail (disk : Disk) (path : Path) : List Place :=
  passed disk.working path.components ++ [disk.destination path]

theorem passed_append : ∀ (start : Place) (front behind : List Component),
    passed start (front ++ behind) = passed start front ++ passed (front.foldl next start) behind
  | _, [], _ => rfl
  | start, c :: front, behind => by
    rw [List.cons_append, passed, passed_append (next start c) front behind]
    rfl

theorem tail_passed_cons (start : Place) (c : Component) (components : List Component) :
    (passed start (c :: components) ++ [(c :: components).foldl next start]).tail =
      next start c :: (passed (next start c) components ++
        [components.foldl next (next start c)]).tail := by
  cases components <;> rfl

/-- The first component is the only one that can be the top or the folder itself. -/
theorem later_component (path : Path) {c : Component} (hc : c ∈ path.components.tail) :
    c = .parent ∨ ∃ s, c = .name s := by
  have hinner : ∀ {parts : List String} {c : Component}, c ∈ Path.partComponents false parts →
      c = .parent ∨ ∃ s, c = .name s := by
    intro parts
    induction parts with
    | nil => exact fun hc => absurd hc List.not_mem_nil
    | cons part parts ih =>
      intro c hc
      unfold Path.partComponents at hc
      rcases List.mem_append.mp hc with hc | hc
      · unfold Path.partComponent? at hc
        split at hc
        · cases hc
        split at hc
        · cases hc
        split at hc
        · exact .inl (List.mem_singleton.mp hc)
        · exact .inr ⟨part, List.mem_singleton.mp hc⟩
      · exact ih hc
  unfold Path.components at hc
  split at hc
  · exact hinner hc
  · cases hparts : path.parts with
    | nil =>
      rw [hparts] at hc
      exact absurd hc List.not_mem_nil
    | cons part parts =>
      rw [hparts, Path.partComponents] at hc
      cases hpart : Path.partComponent? true part with
      | none =>
        rw [hpart] at hc
        exact hinner (List.mem_of_mem_tail hc)
      | some d =>
        rw [hpart] at hc
        exact hinner hc

/-! ### Going along a path -/

theorem enter_of_folder (h : disk.entry? place = some .folder) (c : Component) :
    disk.enter place c = if c.Fits then .ok (next place c) else .error .nameTooLong := by
  unfold enter
  cases c with
  | name s =>
    rw [h]
    dsimp only
    by_cases hs : (Component.name s).Fits
    · rw [if_neg (Nat.not_lt.mpr hs), if_pos hs]
      rfl
    · rw [if_pos (Nat.lt_of_not_le hs), if_neg hs]
  | root => rfl
  | current =>
    rw [h]
    rfl
  | parent =>
    rw [h]
    rfl

theorem enter_ok {c : Component} {found : Place} (h : disk.enter place c = .ok found) :
    found = next place c ∧ c.Fits := by
  unfold enter at h
  cases c with
  | root =>
    cases h
    exact ⟨rfl, trivial⟩
  | name s =>
    dsimp only at h
    split at h
    · cases h
    · cases h
    · split at h
      · cases h
      · next hs =>
        cases h
        exact ⟨rfl, Nat.le_of_not_lt hs⟩
  | current =>
    dsimp only at h
    split at h <;> cases h
    exact ⟨rfl, trivial⟩
  | parent =>
    dsimp only at h
    split at h <;> cases h
    exact ⟨rfl, trivial⟩

theorem enter_congr (h : disk'.entry? place = disk.entry? place) (c : Component) :
    disk'.enter place c = disk.enter place c := by
  unfold enter
  rw [h]

theorem foldlM_enter_passed : ∀ (components : List Component) (start : Place),
    (∀ q ∈ passed start components, disk.entry? q = some .folder) →
    (∀ c ∈ components, c.Fits) →
    components.foldlM disk.enter start = .ok (components.foldl next start)
  | [], _, _, _ => rfl
  | c :: components, start, hfolders, hfits => by
    have henter : disk.enter start c = .ok (next start c) := by
      rw [enter_of_folder (hfolders start List.mem_cons_self), if_pos (hfits c List.mem_cons_self)]
    rw [List.foldlM_cons, henter]
    exact foldlM_enter_passed components (next start c)
      (fun q hq => hfolders q (List.mem_cons_of_mem _ hq))
      fun d hd => hfits d (List.mem_cons_of_mem _ hd)

theorem foldlM_enter_ok : ∀ {components : List Component} {start place : Place},
    components.foldlM disk.enter start = .ok place →
    place = components.foldl next start ∧ ∀ c ∈ components, c.Fits
  | [], _, _, h => by
    cases h
    exact ⟨rfl, nofun⟩
  | c :: components, start, place, h => by
    rw [List.foldlM_cons] at h
    cases henter : disk.enter start c with
    | error fault =>
      rw [henter] at h
      cases h
    | ok found =>
      rw [henter] at h
      obtain ⟨rfl, hc⟩ := enter_ok henter
      obtain ⟨hplace, hfits⟩ := foldlM_enter_ok h
      refine ⟨hplace, fun d hd => ?_⟩
      rcases List.mem_cons.mp hd with rfl | hd
      · exact hc
      · exact hfits d hd

theorem foldlM_enter_congr : ∀ (components : List Component) (start : Place),
    (∀ q ∈ passed start components, disk'.entry? q = disk.entry? q) →
    components.foldlM disk'.enter start = components.foldlM disk.enter start
  | [], _, _ => rfl
  | c :: components, start, h => by
    rw [List.foldlM_cons, List.foldlM_cons, enter_congr (h start List.mem_cons_self)]
    cases henter : disk.enter start c with
    | error fault => rfl
    | ok found =>
      obtain ⟨rfl, -⟩ := enter_ok henter
      exact foldlM_enter_congr components (next start c) fun q hq => h q (List.mem_cons_of_mem _ hq)

/-! ### Answers to paths -/

theorem place_of_isSound (hpath : path.IsSound) :
    disk.place path = path.components.foldlM disk.enter disk.working := by
  have hempty : path.text.isEmpty = false := by
    rw [Bool.eq_false_iff, Ne, String.isEmpty_iff]
    exact hpath.ne_empty
  unfold place
  rw [hpath.noZero, hempty, if_neg Bool.false_ne_true, if_neg Bool.false_ne_true,
    if_neg (Nat.not_lt.mpr hpath.short)]

/-- **Through folders** a path leads to its destination. -/
theorem place_ok (hpath : path.IsSound) (hfits : ∀ c ∈ path.components, c.Fits)
    (hfolders : ∀ q ∈ passed disk.working path.components, disk.entry? q = some .folder) :
    disk.place path = .ok (disk.destination path) := by
  rw [place_of_isSound hpath]
  exact foldlM_enter_passed _ _ hfolders hfits

theorem place_concat {front : List Component} {c : Component} (hpath : path.IsSound)
    (hcomponents : path.components = front ++ [c]) (hfits : ∀ d ∈ front, d.Fits)
    (hfolders : ∀ q ∈ passed disk.working front ++ [front.foldl next disk.working],
      disk.entry? q = some .folder) :
    disk.place path =
      if c.Fits then .ok (next (front.foldl next disk.working) c) else .error .nameTooLong := by
  have hfront := foldlM_enter_passed front disk.working
    (fun q hq => hfolders q (List.mem_append_left _ hq)) hfits
  have hlast := hfolders _ (List.mem_append_right _ List.mem_cons_self)
  rw [place_of_isSound hpath, hcomponents, List.foldlM_append, hfront, ← enter_of_folder hlast]
  show [c].foldlM disk.enter _ = _
  rw [List.foldlM_cons]
  cases disk.enter (front.foldl next disk.working) c <;> rfl

/-- The text of a path that is not sound leads nowhere, whatever the disk is. -/
theorem place_cases (path : Path) :
    path.IsSound ∨ ∃ fault, (fault = .notFound → path.text = "") ∧
      ∀ disk : Disk, disk.place path = .error fault := by
  by_cases hzero : path.text.contains '\x00' = true
  · exact .inr ⟨.zeroInPath, nofun, fun disk => by unfold place; rw [if_pos hzero]⟩
  by_cases hempty : path.text.isEmpty = true
  · refine .inr ⟨.notFound, fun _ => String.isEmpty_iff.mp hempty, fun disk => ?_⟩
    unfold place
    rw [if_neg hzero, if_pos hempty]
  by_cases hlong : path.text.utf8ByteSize > pathLimit
  · refine .inr ⟨.nameTooLong, nofun, fun disk => ?_⟩
    unfold place
    rw [if_neg hzero, if_neg hempty, if_pos hlong]
  · refine .inl ⟨Bool.eq_false_iff.mpr hzero, fun h => hempty ?_, Nat.le_of_not_lt hlong⟩
    rw [h]
    rfl

theorem eq_destination (h : disk.place path = .ok place) :
    place = disk.destination path ∧ path.IsSound ∧ ∀ c ∈ path.components, c.Fits := by
  rcases place_cases path with hpath | ⟨fault, -, hfault⟩
  · rw [place_of_isSound hpath] at h
    obtain ⟨hplace, hfits⟩ := foldlM_enter_ok h
    exact ⟨hplace, hpath, hfits⟩
  · rw [hfault disk] at h
    cases h

theorem place_congr (hworking : disk'.working = disk.working)
    (h : ∀ q ∈ passed disk.working path.components, disk'.entry? q = disk.entry? q) :
    disk'.place path = disk.place path := by
  rcases place_cases path with hpath | ⟨fault, -, hfault⟩
  · rw [place_of_isSound hpath, place_of_isSound hpath, hworking]
    exact foldlM_enter_congr _ _ h
  · rw [hfault, hfault]

/-- **Two disks** that have the same along the trail of a path find the same at the path. -/
theorem find_congr (hworking : disk'.working = disk.working)
    (h : ∀ q ∈ disk.trail path, disk'.entry? q = disk.entry? q) :
    disk'.find path = disk.find path := by
  have hplace : disk'.place path = disk.place path :=
    place_congr hworking fun q hq => h q (List.mem_append_left _ hq)
  unfold find
  rw [hplace]
  cases hrun : disk.place path with
  | error fault => rfl
  | ok place =>
    obtain ⟨rfl, -⟩ := eq_destination hrun
    have hentry := h (disk.destination path) (List.mem_append_right _ List.mem_cons_self)
    dsimp only [bind, Except.bind]
    rw [hentry]

theorem read_congr (hworking : disk'.working = disk.working)
    (h : ∀ q ∈ disk.trail path, disk'.entry? q = disk.entry? q) :
    disk'.read path = disk.read path := by
  unfold read
  rw [find_congr hworking h]

theorem find_of_fault {fault : DiskFault} (h : disk.place path = .error fault) :
    disk.find path = .error fault := by
  unfold find
  rw [h]
  rfl

theorem read_of_fault {fault : DiskFault} (h : disk.place path = .error fault) :
    disk.read path = .error fault := by
  unfold read
  rw [find_of_fault h]

theorem occupied_of_fault {fault : DiskFault} (h : disk.place path = .error fault) :
    disk.occupied path = false := by
  unfold occupied
  rw [find_of_fault h]
  rfl

theorem find_of_place (hplace : disk.place path = .ok place) :
    disk.find path =
      match disk.entry? place with
      | none => .error .notFound
      | some .folder => .ok (place, .folder)
      | some (.file content) =>
        if asksFolder path then .error .notFolder else .ok (place, .file content) := by
  unfold find
  rw [hplace]
  rfl

theorem entry?_of_find {entry : DiskEntry} (h : disk.find path = .ok (place, entry)) :
    disk.entry? place = some entry := by
  unfold find at h
  cases hplace : disk.place path with
  | error fault =>
    rw [hplace] at h
    cases h
  | ok found =>
    rw [hplace] at h
    dsimp only [bind, Except.bind] at h
    split at h
    · cases h
    · next hentry =>
      cases h
      exact hentry
    · next hentry =>
      split at h
      · cases h
      · cases h
        exact hentry

theorem isFolder_of_place (hplace : disk.place path = .ok place) :
    disk.isFolder path = true ↔ disk.entry? place = some .folder := by
  unfold isFolder
  rw [find_of_place hplace]
  cases disk.entry? place with
  | none => simp
  | some entry =>
    cases entry with
    | folder => simp
    | file content => cases asksFolder path <;> simp

/-! ### Disks that are listed -/

/-- The disk of a list of files and folders, on which paths begin at the top. -/
def ofList : List (Place × DiskEntry) → Disk
  | [] => {}
  | (place, entry) :: entries => (ofList entries).put place entry

theorem working_ofList : ∀ entries : List (Place × DiskEntry), (ofList entries).working = []
  | [] => rfl
  | _ :: entries => working_ofList entries

theorem entry?_ofList : ∀ {entries : List (Place × DiskEntry)}, (∀ e ∈ entries, e.1 ≠ []) →
    ∀ place, entry? (ofList entries) place =
      if place = [] then some .folder else entries.lookup place
  | [], _, place => entry?_empty place
  | (p, entry) :: entries, h, place => by
    have hne : ∀ e ∈ entries, e.1 ≠ [] := fun e he => h e (List.mem_cons_of_mem _ he)
    have hrest := entry?_ofList hne place
    rw [ofList, entry?_put (h (p, entry) List.mem_cons_self), hrest]
    by_cases hp : place = p
    · subst hp
      rw [if_pos rfl, if_neg (h (place, entry) List.mem_cons_self), List.lookup_cons_self]
    · have hbeq : (place == p) = false := beq_eq_false_iff_ne.mpr hp
      rw [if_neg hp, List.lookup_cons, hbeq]

/-- Where paths begin at the top, it can be seen from the entries that a path leads to its
destination. -/
theorem place_of_entries {entries : Place → Option DiskEntry} (hworking : disk.working = [])
    (hentries : ∀ q, disk.entry? q = entries q) (hpath : path.IsSound)
    (hfits : ∀ c ∈ path.components, c.Fits)
    (hfolders : ∀ q ∈ passed [] path.components, entries q = some .folder) :
    disk.place path = .ok (path.components.foldl next []) := by
  rw [place_ok hpath hfits fun q hq => ?_, destination, hworking]
  rw [hentries]
  exact hfolders q (hworking ▸ hq)

/-- Every file and folder of a list has a name, and the place above it is the top or a folder of the
list. -/
def IsListing (entries : List (Place × DiskEntry)) : Prop :=
  ∀ e ∈ entries, e.1 ≠ [] ∧ (∀ name ∈ e.1, Path.IsName name) ∧
    (e.1.dropLast = [] ∨ entries.lookup e.1.dropLast = some .folder)

instance (entries : List (Place × DiskEntry)) : Decidable (IsListing entries) :=
  inferInstanceAs (Decidable (∀ e ∈ entries, e.1 ≠ [] ∧ (∀ name ∈ e.1, Path.IsName name) ∧
    (e.1.dropLast = [] ∨ entries.lookup e.1.dropLast = some .folder)))

theorem isTree_ofList {entries : List (Place × DiskEntry)} (h : IsListing entries) :
    (ofList entries).IsTree := by
  have hentry := entry?_ofList fun e he => (h e he).1
  have hmem : ∀ {place : Place}, place ≠ [] → entry? (ofList entries) place ≠ none →
      ∃ e ∈ entries, e.1 = place := by
    intro place hne hsome
    rw [hentry, if_neg hne] at hsome
    obtain ⟨entry, hlookup⟩ := Option.ne_none_iff_exists'.mp hsome
    obtain ⟨before, behind, hsplit, -⟩ := List.lookup_eq_some_iff.mp hlookup
    exact ⟨(place, entry), by rw [hsplit]; simp, rfl⟩
  refine ⟨?_, fun place name hsome => ?_, fun place hsome => ?_⟩
  · rw [working_ofList]
    rfl
  · obtain ⟨e, he, hplace⟩ := hmem (by simp) hsome
    obtain ⟨-, -, habove⟩ := h e he
    rw [hplace, List.dropLast_concat] at habove
    rw [hentry]
    split
    · rfl
    · next hne => exact habove.resolve_left hne
  · by_cases hne : place = []
    · subst hne
      exact nofun
    · obtain ⟨e, he, rfl⟩ := hmem hne hsome
      exact (h e he).2.1

end Disk

end ProofProse
