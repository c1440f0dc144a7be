import ProofProse.Proofs.Component
import ProofProse.Proofs.Trail

/-! # Folders that are made

Folders are made from the end of a path: when the folder above is missing, it is made first, and
then the folder is tried again. What comes of it can be read off the disk as it was, from the front
of the path (`Disk.makeFolders_ended`): one place after the other is there or is made, up to a file
that stands in the way or a name that is too long (`Disk.obstacle?`). What has been made before an
obstacle stays (`Disk.reached`). -/

namespace ProofProse

open ProofProse.Path (Component)

/-- The outcome of an action that ends with a disk. -/
def DiskAction.ended (fault? : Option DiskFault) (disk : Disk) :
    EStateM.Result DiskFault Disk Unit :=
  match fault? with
  | none => .ok () disk
  | some fault => .error fault disk

theorem DiskAction.ended_inj {fault? fault'? : Option DiskFault} {disk disk' : Disk}
    (h : DiskAction.ended fault? disk = DiskAction.ended fault'? disk') :
    fault? = fault'? ∧ disk = disk' := by
  cases fault? <;> cases fault'? <;> cases h <;> exact ⟨rfl, rfl⟩

theorem DiskAction.ofChange_error {change : Disk → Except DiskFault Disk} {disk : Disk}
    {fault : DiskFault} (h : change disk = .error fault) :
    DiskAction.ofChange change disk = DiskAction.ended (some fault) disk := by
  unfold DiskAction.ofChange
  rw [h]
  rfl

theorem DiskAction.ofChange_ok {change : Disk → Except DiskFault Disk} {disk disk' : Disk}
    (h : change disk = .ok disk') :
    DiskAction.ofChange change disk = DiskAction.ended none disk' := by
  unfold DiskAction.ofChange
  rw [h]
  rfl

namespace Disk

variable {disk disk' disk'' : Disk} {place start : Place} {path : Path} {c : Component}
  {components front : List Component} {made : Bool} {fault : DiskFault}

/-! ### Disks with some more folders -/

/-- At some places there are folders, and else nothing has changed. -/
structure Made (disk : Disk) (places : List Place) (disk' : Disk) : Prop where
  working : disk'.working = disk.working
  entries : ∀ q, disk'.entry? q = if q ∈ places then some .folder else disk.entry? q

theorem Made.of_folders {places : List Place}
    (h : ∀ q ∈ places, disk.entry? q = some .folder) : disk.Made places disk := by
  refine ⟨rfl, fun q => ?_⟩
  split
  · next hq => exact h q hq
  · rfl

theorem Made.keeps_folder {places : List Place} (h : disk.Made places disk')
    (hplace : disk.entry? place = some .folder) : disk'.entry? place = some .folder := by
  rw [h.entries]
  split
  · rfl
  · exact hplace

theorem Made.of_subset {places places' : List Place} (h : disk.Made places disk')
    (hsubset : ∀ q ∈ places, q ∈ places')
    (hrest : ∀ q ∈ places', disk.entry? q = some .folder ∨ q ∈ places) :
    disk.Made places' disk' := by
  refine ⟨h.working, fun q => ?_⟩
  rw [h.entries]
  by_cases hq : q ∈ places
  · rw [if_pos hq, if_pos (hsubset q hq)]
  · rw [if_neg hq]
    split
    · next hq' => exact (hrest q hq').resolve_right hq
    · rfl

theorem Made.append {places places' : List Place} (h : disk.Made places disk')
    (h' : disk'.Made places' disk'') : disk.Made (places ++ places') disk'' := by
  refine ⟨h'.working.trans h.working, fun q => ?_⟩
  rw [h'.entries, h.entries]
  by_cases hq : q ∈ places <;> by_cases hq' : q ∈ places' <;> simp [hq, hq']

/-! ### Along a path -/

/-- What stands in the way when the folders along some components are made: a file, or a name that
is too long. A file counts as occupied when folders have been made before it, or when it stands
last. -/
def obstacle? (disk : Disk) (made : Bool) (place : Place) : List Component → Option DiskFault
  | [] => none
  | c :: components =>
    if c.Fits then
      match disk.entry? (next place c) with
      | some (.file _) => some (if made || components.isEmpty then .occupied else .notFolder)
      | entry => obstacle? disk (made || entry.isNone) (next place c) components
    else some .nameTooLong

/-- The places along some components up to an obstacle. -/
def reached (disk : Disk) (place : Place) : List Component → List Place
  | [] => []
  | c :: components =>
    if c.Fits then
      match disk.entry? (next place c) with
      | some (.file _) => []
      | _ => next place c :: reached disk (next place c) components
    else []

theorem ne_file_of_folder (h : disk.entry? place = some .folder) (content : Encoding.Bytes) :
    disk.entry? place ≠ some (.file content) := by
  rw [h]
  exact nofun

theorem ne_file_of_none (h : disk.entry? place = none) (content : Encoding.Bytes) :
    disk.entry? place ≠ some (.file content) := by
  rw [h]
  exact nofun

theorem along_tooLong (disk : Disk) (place : Place) (hfits : ¬c.Fits)
    (components : List Component) :
    (∀ made, obstacle? disk made place (c :: components) = some .nameTooLong) ∧
      reached disk place (c :: components) = [] := by
  refine ⟨fun made => ?_, ?_⟩
  · rw [obstacle?, if_neg hfits]
  · rw [reached, if_neg hfits]

theorem along_file {content : Encoding.Bytes} (hfits : c.Fits)
    (hentry : disk.entry? (next place c) = some (.file content)) (components : List Component) :
    (∀ made, obstacle? disk made place (c :: components) =
        some (if made || components.isEmpty then .occupied else .notFolder)) ∧
      reached disk place (c :: components) = [] := by
  refine ⟨fun made => ?_, ?_⟩
  · rw [obstacle?, if_pos hfits, hentry]
  · rw [reached, if_pos hfits, hentry]

theorem along_open (hfits : c.Fits)
    (hentry : ∀ content, disk.entry? (next place c) ≠ some (.file content))
    (components : List Component) :
    (∀ made, obstacle? disk made place (c :: components) =
        obstacle? disk (made || ( disk.entry? (next place c)).isNone) (next place c) components) ∧
      reached disk place (c :: components) =
        next place c :: reached disk (next place c) components := by
  refine ⟨fun made => ?_, ?_⟩
  · rw [obstacle?, if_pos hfits]
    split
    · next content hfile => exact absurd hfile (hentry content)
    · rfl
  · rw [reached, if_pos hfits]
    split
    · next content hfile => exact absurd hfile (hentry content)
    · rfl

/-- What happens at the first of some components. -/
inductive Along (disk : Disk) (place : Place) (c : Component) (components : List Component) : Prop
  | tooLong (hfits : ¬c.Fits)
      (hobstacle : ∀ made, obstacle? disk made place (c :: components) = some .nameTooLong)
      (hreached : reached disk place (c :: components) = [])
  | file {content : Encoding.Bytes} (hfits : c.Fits)
      (hentry : disk.entry? (next place c) = some (.file content))
      (hobstacle : ∀ made, obstacle? disk made place (c :: components) =
        some (if made || components.isEmpty then .occupied else .notFolder))
      (hreached : reached disk place (c :: components) = [])
  | goesOn (hfits : c.Fits) (hentry : ∀ content, disk.entry? (next place c) ≠ some (.file content))
      (hobstacle : ∀ made, obstacle? disk made place (c :: components) =
        obstacle? disk (made || ( disk.entry? (next place c)).isNone) (next place c) components)
      (hreached : reached disk place (c :: components) =
        next place c :: reached disk (next place c) components)

theorem along (disk : Disk) (place : Place) (c : Component) (components : List Component) :
    Along disk place c components := by
  by_cases hfits : c.Fits
  · by_cases hfile : ∃ content, disk.entry? (next place c) = some (.file content)
    · obtain ⟨content, hentry⟩ := hfile
      obtain ⟨hobstacle, hreached⟩ := along_file hfits hentry components
      exact .file hfits hentry hobstacle hreached
    · have hentry := not_exists.mp hfile
      obtain ⟨hobstacle, hreached⟩ := along_open hfits hentry components
      exact .goesOn hfits hentry hobstacle hreached
  · obtain ⟨hobstacle, hreached⟩ := along_tooLong disk place hfits components
    exact .tooLong hfits hobstacle hreached

theorem obstacle?_ne_notFound (disk : Disk) :
    ∀ (components : List Component) (made : Bool) (place : Place),
      obstacle? disk made place components ≠ some .notFound
  | [], _, _ => nofun
  | c :: components, made, place => by
    cases along disk place c components with
    | tooLong _ hobstacle =>
      rw [hobstacle]
      exact nofun
    | file _ _ hobstacle =>
      rw [hobstacle]
      split <;> exact nofun
    | goesOn _ _ hobstacle =>
      rw [hobstacle]
      exact obstacle?_ne_notFound disk components _ _

/-- At the last component it does not matter whether folders have been made before. -/
theorem obstacle?_singleton (made : Bool) (place : Place) (c : Component) :
    obstacle? disk made place [c] = obstacle? disk false place [c] := by
  cases along disk place c [] with
  | tooLong _ hobstacle => rw [hobstacle, hobstacle]
  | file _ _ hobstacle =>
    rw [hobstacle, hobstacle, List.isEmpty_nil, Bool.or_true, Bool.or_true]
  | goesOn _ _ hobstacle =>
    rw [hobstacle, hobstacle]
    rfl

theorem along_concat_of_none : ∀ {front : List Component} {made : Bool} {place : Place},
    obstacle? disk made place front = none →
    obstacle? disk made place (front ++ [c]) = obstacle? disk false (front.foldl next place) [c] ∧
      reached disk place (front ++ [c]) =
        reached disk place front ++ reached disk (front.foldl next place) [c]
  | [], made, place, _ => ⟨obstacle?_singleton made place c, rfl⟩
  | d :: front, made, place, h => by
    rw [List.cons_append]
    cases along disk place d front with
    | tooLong _ hobstacle =>
      rw [hobstacle] at h
      cases h
    | file _ _ hobstacle =>
      rw [hobstacle] at h
      cases h
    | goesOn hfits hentry hobstacle hreached =>
      rw [hobstacle] at h
      obtain ⟨hrest, hplaces⟩ := along_concat_of_none h
      obtain ⟨hobstacle', hreached'⟩ := along_open hfits hentry (front ++ [c])
      rw [hobstacle', hreached', hreached, hrest, hplaces]
      exact ⟨rfl, rfl⟩

/-- Behind an obstacle nothing is reached. A file counts the same if a folder has been made before.
-/
theorem along_concat_of_some : ∀ {front : List Component} {place : Place},
    obstacle? disk true place front = some fault →
    obstacle? disk true place (front ++ [c]) = some fault ∧
      reached disk place (front ++ [c]) = reached disk place front
  | d :: front, place, h => by
    rw [List.cons_append]
    cases along disk place d front with
    | tooLong hfits hobstacle hreached =>
      obtain ⟨hobstacle', hreached'⟩ := along_tooLong disk place hfits (front ++ [c])
      rw [hobstacle', hreached', hreached, ← hobstacle true, h]
      exact ⟨rfl, rfl⟩
    | file hfits hentry hobstacle hreached =>
      obtain ⟨hobstacle', hreached'⟩ := along_file hfits hentry (front ++ [c])
      rw [hobstacle] at h
      rw [hobstacle', hreached', hreached, ← h]
      exact ⟨rfl, rfl⟩
    | goesOn hfits hentry hobstacle hreached =>
      rw [hobstacle, Bool.true_or] at h
      obtain ⟨hrest, hplaces⟩ := along_concat_of_some h
      obtain ⟨hobstacle', hreached'⟩ := along_open hfits hentry (front ++ [c])
      rw [hobstacle', hreached', hreached, Bool.true_or, hrest, hplaces]
      exact ⟨rfl, rfl⟩

/-- Without an obstacle all places are reached, and no name is too long. -/
theorem passed_of_none : ∀ {components : List Component} {made : Bool} {start : Place},
    obstacle? disk made start components = none →
    (∀ q ∈ (passed start components ++ [components.foldl next start]).tail,
      q ∈ reached disk start components) ∧ ∀ c ∈ components, c.Fits
  | [], _, _, _ => ⟨nofun, nofun⟩
  | c :: components, made, start, h => by
    cases along disk start c components with
    | tooLong _ hobstacle =>
      rw [hobstacle] at h
      cases h
    | file _ _ hobstacle =>
      rw [hobstacle] at h
      cases h
    | goesOn hfits _ hobstacle hreached =>
      rw [hobstacle] at h
      obtain ⟨hplaces, hrest⟩ := passed_of_none h
      rw [tail_passed_cons, hreached]
      constructor
      · intro q hq
        rcases List.mem_cons.mp hq with rfl | hq
        · exact List.mem_cons_self
        · exact List.mem_cons_of_mem _ (hplaces q hq)
      · intro d hd
        rcases List.mem_cons.mp hd with rfl | hd
        · exact hfits
        · exact hrest d hd

theorem ne_file_of_reached : ∀ {components : List Component} {start q : Place},
    q ∈ reached disk start components → ∀ content, disk.entry? q ≠ some (.file content)
  | c :: components, start, q, hq => by
    cases along disk start c components with
    | tooLong _ _ hreached =>
      rw [hreached] at hq
      exact absurd hq List.not_mem_nil
    | file _ _ _ hreached =>
      rw [hreached] at hq
      exact absurd hq List.not_mem_nil
    | goesOn _ hentry _ hreached =>
      rw [hreached] at hq
      rcases List.mem_cons.mp hq with rfl | hq
      · exact hentry
      · exact ne_file_of_reached hq

theorem mem_passed_of_reached : ∀ {components : List Component} {start q : Place},
    q ∈ reached disk start components →
    q ∈ passed start components ++ [components.foldl next start]
  | c :: components, start, q, hq => by
    refine List.mem_cons_of_mem start ?_
    cases along disk start c components with
    | tooLong _ _ hreached =>
      rw [hreached] at hq
      exact absurd hq List.not_mem_nil
    | file _ _ _ hreached =>
      rw [hreached] at hq
      exact absurd hq List.not_mem_nil
    | goesOn _ _ _ hreached =>
      rw [hreached] at hq
      rcases List.mem_cons.mp hq with rfl | hq
      · cases components <;> exact List.mem_cons_self
      · exact mem_passed_of_reached hq

/-! ### Walks -/

theorem enter_of_none (h : disk.entry? place = none) (hroot : c ≠ .root) :
    disk.enter place c = .error .notFound := by
  unfold enter
  split
  · exact absurd rfl hroot
  · rw [h]

theorem enter_of_file {content : Encoding.Bytes} (h : disk.entry? place = some (.file content))
    (hroot : c ≠ .root) : disk.enter place c = .error .notFolder := by
  unfold enter
  split
  · exact absurd rfl hroot
  · rw [h]

/-- The first steps of a walk: it ends at a name that is too long, or with the only component, or it
stops at what is no folder, or it goes on from a folder. -/
inductive Walk (disk : Disk) (start : Place) (c : Component) (components : List Component) : Prop
  | tooLong (hfits : ¬c.Fits)
      (hwalk : (c :: components).foldlM disk.enter start = .error .nameTooLong)
  | last (hfits : c.Fits) (hnil : components = [])
      (hwalk : (c :: components).foldlM disk.enter start = .ok (next start c))
  | missing (hfits : c.Fits) (hentry : disk.entry? (next start c) = none)
      (hwalk : (c :: components).foldlM disk.enter start = .error .notFound)
  | file {content : Encoding.Bytes} (hfits : c.Fits) (hne : components ≠ [])
      (hentry : disk.entry? (next start c) = some (.file content))
      (hwalk : (c :: components).foldlM disk.enter start = .error .notFolder)
  | goesOn (hfits : c.Fits) (hne : components ≠ [])
      (hentry : disk.entry? (next start c) = some .folder)
      (hwalk : (c :: components).foldlM disk.enter start =
        components.foldlM disk.enter (next start c))

theorem walk (hstart : disk.entry? start = some .folder) (hroot : ∀ d ∈ components, d ≠ .root) :
    Walk disk start c components := by
  have henter := enter_of_folder hstart c
  by_cases hfits : c.Fits
  · rw [if_pos hfits] at henter
    have hfold : (c :: components).foldlM disk.enter start =
        components.foldlM disk.enter (next start c) := by
      rw [List.foldlM_cons, henter]
      rfl
    cases components with
    | nil => exact .last hfits rfl hfold
    | cons d components =>
      have hd := hroot d List.mem_cons_self
      cases hentry : disk.entry? (next start c) with
      | none =>
        refine .missing hfits hentry ?_
        rw [hfold, List.foldlM_cons, enter_of_none hentry hd]
        rfl
      | some entry =>
        cases entry with
        | folder => exact .goesOn hfits (List.cons_ne_nil _ _) hentry hfold
        | file content =>
          refine .file hfits (List.cons_ne_nil _ _) hentry ?_
          rw [hfold, List.foldlM_cons, enter_of_file hentry hd]
          rfl
  · rw [if_neg hfits] at henter
    refine .tooLong hfits ?_
    rw [List.foldlM_cons, henter]
    rfl

theorem folders_of_walk : ∀ {components : List Component} {start : Place},
    disk.entry? start = some .folder → (∀ d ∈ components.tail, d ≠ .root) →
    components.foldlM disk.enter start = .ok place →
    ∀ q ∈ passed start components, disk.entry? q = some .folder
  | c :: components, start, hstart, hroot, h, q, hq => by
    rcases List.mem_cons.mp hq with rfl | hq
    · exact hstart
    have hsteps : Walk disk start c components := walk hstart hroot
    cases hsteps with
    | tooLong _ hwalk =>
      rw [hwalk] at h
      cases h
    | last _ hnil =>
      subst hnil
      exact absurd hq List.not_mem_nil
    | missing _ _ hwalk =>
      rw [hwalk] at h
      cases h
    | file _ _ _ hwalk =>
      rw [hwalk] at h
      cases h
    | goesOn _ _ hentry hwalk =>
      rw [hwalk] at h
      exact folders_of_walk hentry (fun d hd => hroot d (List.mem_of_mem_tail hd)) h q hq

theorem ne_root_of_tail (path : Path) : ∀ c ∈ path.components.tail, c ≠ .root := by
  rintro c hc rfl
  rcases later_component path hc with h | ⟨s, h⟩ <;> cases h

theorem folders_of_place (hworking : disk.entry? disk.working = some .folder)
    (h : disk.place path = .ok place) :
    ∀ q ∈ passed disk.working path.components, disk.entry? q = some .folder := by
  rw [place_of_isSound (eq_destination h).2.1] at h
  exact folders_of_walk hworking (ne_root_of_tail path) h

/-- A path leads nowhere when its first component does not, and there are more. -/
theorem place_of_missing (hworking : disk.entry? disk.working = some .folder)
    (hpath : path.IsSound) (hcomponents : path.components = c :: components)
    (hne : components ≠ []) (hfits : c.Fits) (hmissing : disk.entry? (next disk.working c) = none) :
    disk.place path = .error .notFound := by
  have hroot := ne_root_of_tail path
  rw [hcomponents] at hroot
  rw [place_of_isSound hpath, hcomponents]
  have hsteps : Walk disk disk.working c components := walk hworking hroot
  cases hsteps with
  | tooLong hnot => exact absurd hfits hnot
  | last _ hnil => exact absurd hnil hne
  | missing _ _ hwalk => exact hwalk
  | file _ _ hentry =>
    rw [hmissing] at hentry
    cases hentry
  | goesOn _ _ hentry =>
    rw [hmissing] at hentry
    cases hentry

/-- Nothing is read at a path with a first name that is not listed, if there are more names. -/
theorem read_ofList_missing {entries : List (Place × DiskEntry)} {name : String}
    (h : ∀ e ∈ entries, e.1 ≠ []) (hpath : path.IsSound)
    (hcomponents : path.components = .name name :: components) (hne : components ≠ [])
    (hfits : (Component.name name).Fits) (hmissing : entries.lookup [name] = none) :
    (ofList entries).read path = .error .notFound := by
  have hworking := working_ofList entries
  refine read_of_fault (place_of_missing (by rw [hworking]; rfl) hpath hcomponents hne hfits ?_)
  rw [hworking, entry?_ofList h]
  exact hmissing

/-- Only a file stands in the way of a folder. -/
def blocked? (disk : Disk) (place : Place) : Option DiskFault :=
  match disk.entry? place with
  | some (.file _) => some .occupied
  | _ => none

theorem blocked?_of_file {content : Encoding.Bytes}
    (h : disk.entry? place = some (.file content)) : blocked? disk place = some .occupied := by
  unfold blocked?
  rw [h]

theorem blocked?_of_no_file (h : ∀ content, disk.entry? place ≠ some (.file content)) :
    blocked? disk place = none := by
  unfold blocked?
  split
  · next content hfile => exact absurd hfile (h content)
  · rfl

theorem along_singleton (disk : Disk) (made : Bool) (place : Place) (hfits : c.Fits) :
    obstacle? disk made place [c] = blocked? disk (next place c) ∧
      reached disk place [c] =
        if blocked? disk (next place c) = none then [next place c] else [] := by
  cases along disk place c [] with
  | tooLong hnot => exact absurd hfits hnot
  | file _ hentry hobstacle hreached =>
    rw [hobstacle, hreached, blocked?_of_file hentry, List.isEmpty_nil, Bool.or_true]
    exact ⟨rfl, (if_neg nofun).symm⟩
  | goesOn _ hentry hobstacle hreached =>
    rw [hobstacle, hreached, blocked?_of_no_file hentry, if_pos rfl]
    exact ⟨rfl, rfl⟩

/-- When a walk comes to a place, only what is there can stand in the way, and all before it are
folders. -/
theorem along_of_walk : ∀ {components : List Component} {start : Place},
    disk.entry? start = some .folder → (∀ c ∈ components.tail, c ≠ .root) → components ≠ [] →
    components.foldlM disk.enter start = .ok place →
    obstacle? disk false start components = blocked? disk place ∧
      (blocked? disk place = none → place ∈ reached disk start components) ∧
      ∀ q ∈ reached disk start components,
        disk.entry? q = some .folder ∨ q = place ∧ blocked? disk place = none
  | c :: components, start, hstart, hroot, _, h => by
    have hsteps : Walk disk start c components := walk hstart hroot
    cases hsteps with
    | tooLong _ hwalk =>
      rw [hwalk] at h
      cases h
    | last hfits hnil hwalk =>
      rw [hwalk] at h
      cases h
      subst hnil
      obtain ⟨hobstacle, hreached⟩ := along_singleton disk false start hfits
      rw [hobstacle, hreached]
      refine ⟨rfl, fun hnone => by rw [if_pos hnone]; exact List.mem_cons_self, fun q hq => ?_⟩
      split at hq
      · next hnone => exact .inr ⟨List.mem_singleton.mp hq, hnone⟩
      · exact absurd hq List.not_mem_nil
    | missing _ _ hwalk =>
      rw [hwalk] at h
      cases h
    | file _ _ _ hwalk =>
      rw [hwalk] at h
      cases h
    | goesOn hfits hne hentry hwalk =>
      rw [hwalk] at h
      obtain ⟨hrest, hplace, hplaces⟩ :=
        along_of_walk hentry (fun d hd => hroot d (List.mem_of_mem_tail hd)) hne h
      obtain ⟨hobstacle, hreached⟩ := along_open hfits (ne_file_of_folder hentry) components
      rw [hobstacle, hreached, hentry]
      refine ⟨hrest, fun hnone => List.mem_cons_of_mem _ (hplace hnone), fun q hq => ?_⟩
      rcases List.mem_cons.mp hq with rfl | hq
      · exact .inl hentry
      · exact hplaces q hq

/-- When a walk fails for another reason than that something is missing, this is what stands in the
way, and all before it are folders. -/
theorem along_of_fault : ∀ {components : List Component} {start : Place},
    disk.entry? start = some .folder → (∀ c ∈ components.tail, c ≠ .root) →
    components.foldlM disk.enter start = .error fault → fault ≠ .notFound →
    obstacle? disk false start components = some fault ∧
      ∀ q ∈ reached disk start components, disk.entry? q = some .folder
  | [], _, _, _, h, _ => by cases h
  | c :: components, start, hstart, hroot, h, hfault => by
    have hsteps : Walk disk start c components := walk hstart hroot
    cases hsteps with
    | tooLong hfits hwalk =>
      rw [hwalk] at h
      cases h
      obtain ⟨hobstacle, hreached⟩ := along_tooLong disk start hfits components
      rw [hobstacle, hreached]
      exact ⟨rfl, nofun⟩
    | last _ _ hwalk =>
      rw [hwalk] at h
      cases h
    | missing _ _ hwalk =>
      rw [hwalk] at h
      cases h
      exact absurd rfl hfault
    | file hfits hne hentry hwalk =>
      rw [hwalk] at h
      cases h
      obtain ⟨hobstacle, hreached⟩ := along_file hfits hentry components
      rw [hobstacle, hreached, List.isEmpty_eq_false_iff.mpr hne]
      exact ⟨rfl, nofun⟩
    | goesOn hfits hne hentry hwalk =>
      rw [hwalk] at h
      obtain ⟨hrest, hplaces⟩ :=
        along_of_fault hentry (fun d hd => hroot d (List.mem_of_mem_tail hd)) h hfault
      obtain ⟨hobstacle, hreached⟩ := along_open hfits (ne_file_of_folder hentry) components
      rw [hobstacle, hreached, hentry]
      refine ⟨hrest, fun q hq => ?_⟩
      rcases List.mem_cons.mp hq with rfl | hq
      · exact hentry
      · exact hplaces q hq

/-- When a walk finds something missing, an obstacle above the last place is behind it, and stays
one. -/
theorem along_of_missing : ∀ {front : List Component} {start : Place},
    disk.entry? start = some .folder → (∀ d ∈ (front ++ [c]).tail, d ≠ .root) →
    (front ++ [c]).foldlM disk.enter start = .error .notFound →
    obstacle? disk false start front = some fault →
    obstacle? disk false start (front ++ [c]) = some fault ∧
      reached disk start (front ++ [c]) = reached disk start front
  | d :: front, start, hstart, hroot, h, hfault => by
    rw [List.cons_append] at h hroot ⊢
    have hsteps : Walk disk start d (front ++ [c]) := walk hstart hroot
    cases hsteps with
    | tooLong _ hwalk =>
      rw [hwalk] at h
      cases h
    | last _ hnil => exact absurd hnil (by simp)
    | file _ _ _ hwalk =>
      rw [hwalk] at h
      cases h
    | missing hfits hentry hwalk =>
      obtain ⟨hobstacle, hreached⟩ := along_open hfits (ne_file_of_none hentry) front
      obtain ⟨hobstacle', hreached'⟩ := along_open hfits (ne_file_of_none hentry) (front ++ [c])
      rw [hobstacle, hentry] at hfault
      obtain ⟨hrest, hplaces⟩ := along_concat_of_some hfault
      rw [hobstacle', hreached', hreached, hentry, hplaces]
      exact ⟨hrest, rfl⟩
    | goesOn hfits hne hentry hwalk =>
      rw [hwalk] at h
      obtain ⟨hobstacle, hreached⟩ := along_open hfits (ne_file_of_folder hentry) front
      obtain ⟨hobstacle', hreached'⟩ := along_open hfits (ne_file_of_folder hentry) (front ++ [c])
      rw [hobstacle, hentry] at hfault
      obtain ⟨hrest, hplaces⟩ :=
        along_of_missing hentry (fun d hd => hroot d (List.mem_of_mem_tail hd)) h hfault
      rw [hobstacle', hreached', hreached, hentry, hplaces]
      exact ⟨hrest, rfl⟩

/-! ### Making one folder -/

theorem makeFolder_of_fault (h : disk.place path = .error fault) :
    disk.makeFolder path = .error fault := by
  unfold makeFolder
  rw [h]
  rfl

theorem makeFolder_of_place (h : disk.place path = .ok place) :
    disk.makeFolder path =
      match disk.entry? place with
      | some .folder => .error .occupied
      | entry =>
        if endsInDot path then .error (dotFault entry)
        else if entry.isSome then .error .occupied
        else .ok (disk.put place .folder) := by
  unfold makeFolder
  rw [h]
  rfl

theorem ensureFolder_of_fault (h : disk.place path = .error fault) :
    ensureFolder path disk = .error fault disk := by
  have hfolder : disk.isFolder path = false := by
    unfold isFolder
    rw [find_of_fault h]
  unfold ensureFolder
  rw [makeFolder_of_fault h, hfolder]
  rfl

/-- A folder is made at a place, unless a file is there. -/
theorem ensureFolder_of_place (h : disk.place path = .ok place)
    (hdot : endsInDot path = true → disk.entry? place = some .folder) :
    ∃ disk', ensureFolder path disk = DiskAction.ended (blocked? disk place) disk' ∧
      disk.Made (if blocked? disk place = none then [place] else []) disk' := by
  have hfolder := isFolder_of_place h
  have hends : disk.entry? place ≠ some .folder → endsInDot path = false := fun hne =>
    Bool.eq_false_iff.mpr fun hends => hne (hdot hends)
  unfold ensureFolder
  rw [makeFolder_of_place h]
  cases hentry : disk.entry? place with
  | none =>
    have hne : disk.entry? place ≠ some .folder := by
      rw [hentry]
      exact nofun
    rw [hends hne, blocked?_of_no_file (ne_file_of_none hentry)]
    refine ⟨disk.put place .folder, rfl, rfl, fun q => ?_⟩
    rw [entry?_put (ne_nil_of_entry hne)]
    simp
  | some entry =>
    cases entry with
    | folder =>
      rw [hfolder.mpr hentry, blocked?_of_no_file (ne_file_of_folder hentry)]
      refine ⟨disk, rfl, .of_folders fun q hq => ?_⟩
      rw [List.mem_singleton.mp hq]
      exact hentry
    | file content =>
      have hne : disk.entry? place ≠ some .folder := by
        rw [hentry]
        exact nofun
      rw [hends hne, Bool.eq_false_iff.mpr (mt hfolder.mp hne), blocked?_of_file hentry]
      exact ⟨disk, rfl, .of_folders fun q hq => absurd hq List.not_mem_nil⟩

end Disk

/-! ### Paths of folders -/

namespace Path

variable {path above : Path}

/-- A path is put together from parts of which the last says something. -/
def IsTrimmed (path : Path) : Prop :=
  ∃ parts, AreParts path.isRooted parts ∧ trimParts (!path.isRooted) parts = parts ∧
    path = ofParts path.isRooted parts

theorem trimParts_trimParts (first : Bool) (parts : List String) :
    trimParts first (trimParts first parts) = trimParts first parts := by
  rcases trimParts_cases first parts with ⟨htrim, -⟩ | ⟨front, last, c, -, htrim, -, hlast, -⟩
  · rw [htrim]
    rfl
  · rw [htrim]
    exact trimParts_concat hlast

theorem isTrimmed_of_parent (h : path.parent? = some above) : above.IsTrimmed := by
  have hne : path.text ≠ "" := by
    intro hempty
    rw [eq_of_text (q := ⟨""⟩) hempty] at h
    cases h
  unfold parent? at h
  split at h
  · cases h
  · cases h
    have hlast : path.trimmedParts.dropLast <+: path.trimmedParts := List.dropLast_prefix _
    have hparts : AreParts path.isRooted
        (trimParts (!path.isRooted) path.trimmedParts.dropLast) :=
      (areParts_parts path hne).of_isPrefix
        ((trimParts_isPrefix _ _).trans (hlast.trans (trimParts_isPrefix _ _)))
    refine ⟨trimParts (!path.isRooted) path.trimmedParts.dropLast, ?_, ?_, ?_⟩
    · rwa [isRooted_ofParts hparts]
    · rw [isRooted_ofParts hparts, trimParts_trimParts]
    · rw [isRooted_ofParts hparts]

theorem components_of_endsInDot (h : path.IsTrimmed) (hdot : Disk.endsInDot path = true) :
    path.components = [.current] := by
  obtain ⟨parts, hparts, htrim, hpath⟩ := h
  unfold Disk.endsInDot at hdot
  rw [hpath, parts_ofParts hparts, beq_iff_eq] at hdot
  rw [hpath, components_ofParts hparts]
  rcases trimParts_cases (!path.isRooted) parts with
    ⟨hnone, -⟩ | ⟨front, last, c, behind, hsome, -, hlast, -⟩
  · rw [htrim] at hnone
    rw [hnone] at hdot
    exact absurd hdot (by decide)
  · rw [htrim] at hsome
    subst hsome
    rw [if_neg (by simp), List.filter_append] at hdot
    have hne : (last != "") = true := by
      rw [bne_iff_ne]
      rintro rfl
      cases hlast
    have hfilter : [last].filter (· != "") = [last] := by
      rw [List.filter_cons, hne, if_pos rfl]
      rfl
    rw [hfilter, List.getLast?_concat] at hdot
    obtain rfl : last = "." := Option.some.inj hdot
    have hfirst : (!path.isRooted && front.isEmpty) = true := by
      cases hfirst : !path.isRooted && front.isEmpty with
      | true => rfl
      | false =>
        rw [hfirst] at hlast
        cases hlast
    obtain ⟨hrooted, hempty⟩ := Bool.and_eq_true_iff.mp hfirst
    rw [Bool.not_eq_true'] at hrooted
    rw [List.isEmpty_iff.mp hempty, hrooted]
    rfl

end Path

/-! ### Making all folders of a path -/

namespace Disk

variable {disk disk' : Disk} {path above : Path} {c : Path.Component} {fault : DiskFault}

theorem ensureFolder_ended (hworking : disk.entry? disk.working = some .folder)
    (hpath : path.IsSound) (htrim : path.IsTrimmed) (hplace : disk.place path ≠ .error .notFound) :
    ∃ disk', ensureFolder path disk =
        DiskAction.ended (obstacle? disk false disk.working path.components) disk' ∧
      disk.Made (reached disk disk.working path.components) disk' := by
  have hroot := ne_root_of_tail path
  have hwalk : disk.place path = path.components.foldlM disk.enter disk.working :=
    place_of_isSound hpath
  cases hrun : disk.place path with
  | error fault =>
    rw [hrun] at hplace
    obtain ⟨hobstacle, hfolders⟩ := along_of_fault hworking hroot (hwalk.symm.trans hrun)
      fun h => hplace (by rw [h])
    exact ⟨disk, by rw [hobstacle, ensureFolder_of_fault hrun]; rfl, .of_folders hfolders⟩
  | ok place =>
    obtain ⟨hobstacle, hmem, hfolders⟩ := along_of_walk hworking hroot
      (Path.components_ne_nil hpath.ne_empty) (hwalk.symm.trans hrun)
    have hdot : endsInDot path = true → disk.entry? place = some .folder := by
      intro hdot
      have hcurrent := Path.components_of_endsInDot htrim hdot
      rw [(eq_destination hrun).1, destination, hcurrent]
      exact hworking
    obtain ⟨disk', hensure, hmade⟩ := ensureFolder_of_place hrun hdot
    refine ⟨disk', by rw [hobstacle, hensure], hmade.of_subset (fun q hq => ?_) fun q hq => ?_⟩
    · split at hq
      · next hnone => exact List.mem_singleton.mp hq ▸ hmem hnone
      · exact absurd hq List.not_mem_nil
    · refine (hfolders q hq).imp_right fun h => ?_
      rw [if_pos h.2]
      exact List.mem_singleton.mpr h.1

theorem folders_of_made {front : List Path.Component}
    (hworking : disk.entry? disk.working = some .folder)
    (hnone : obstacle? disk false disk.working front = none)
    (h : disk.Made (reached disk disk.working front) disk') :
    ∀ q ∈ passed disk'.working front ++ [front.foldl next disk'.working],
      disk'.entry? q = some .folder := by
  obtain ⟨hpassed, -⟩ := passed_of_none hnone
  rw [h.working]
  intro q hq
  by_cases hstart : q = disk.working
  · rw [hstart]
    exact h.keeps_folder hworking
  · rw [h.entries, if_pos (hpassed q ?_)]
    cases front with
    | nil => exact absurd (List.mem_singleton.mp hq) hstart
    | cons d front => exact (List.mem_cons.mp hq).resolve_left hstart

theorem ensureFolder_again (hworking : disk.entry? disk.working = some .folder)
    (hpath : path.IsSound) (htrim : path.IsTrimmed)
    (hcomponents : path.components = above.components ++ [c])
    (hnone : obstacle? disk false disk.working above.components = none)
    (habove : disk.Made (reached disk disk.working above.components) disk') :
    ∃ disk'', ensureFolder path disk' =
        DiskAction.ended (obstacle? disk false disk.working path.components) disk'' ∧
      disk.Made (reached disk disk.working path.components) disk'' := by
  have hfolders := folders_of_made hworking hnone habove
  have hplace := place_concat hpath hcomponents (passed_of_none hnone).2 hfolders
  obtain ⟨hobstacle, hreached⟩ := along_concat_of_none (c := c) hnone
  rw [habove.working] at hplace hfolders
  rw [hcomponents, hobstacle, hreached]
  by_cases hc : c.Fits
  · rw [if_pos hc] at hplace
    obtain ⟨hlast, hplaces⟩ :=
      along_singleton disk false (above.components.foldl next disk.working) hc
    rw [hlast, hplaces]
    generalize hnext : next (above.components.foldl next disk.working) c = place at *
    have hdot : endsInDot path = true → disk'.entry? place = some .folder := by
      intro hdot
      have hcurrent := Path.components_of_endsInDot htrim hdot
      rw [hcomponents] at hcurrent
      obtain ⟨hfront, hlast⟩ : above.components = [] ∧ [c] = [.current] :=
        List.append_inj' hcurrent rfl
      rw [← hnext, hfront, List.singleton_inj.mp hlast]
      exact habove.keeps_folder hworking
    -- A folder that has been made at the place itself was no file before.
    have hsame : blocked? disk' place = blocked? disk place := by
      have hentry := habove.entries place
      split at hentry
      · next hmem =>
        rw [blocked?_of_no_file (ne_file_of_reached hmem),
          blocked?_of_no_file (ne_file_of_folder hentry)]
      · unfold blocked?
        rw [hentry]
    obtain ⟨disk'', hensure, hmade⟩ := ensureFolder_of_place hplace hdot
    rw [hsame] at hensure hmade
    exact ⟨disk'', hensure, habove.append hmade⟩
  · rw [if_neg hc] at hplace
    obtain ⟨hobstacle, hreached⟩ :=
      along_tooLong disk (above.components.foldl next disk.working) hc []
    rw [hobstacle, hreached, List.append_nil]
    exact ⟨disk', ensureFolder_of_fault hplace, habove⟩

theorem bind_ended_none {first : DiskAction Unit} {second : DiskAction Unit}
    (h : first disk = DiskAction.ended none disk') :
    (first >>= fun _ => second) disk = second disk' := by
  show EStateM.bind first (fun _ => second) disk = _
  unfold EStateM.bind
  rw [h]
  rfl

theorem bind_ended_some {first : DiskAction Unit} {second : DiskAction Unit}
    (h : first disk = DiskAction.ended (some fault) disk') :
    (first >>= fun _ => second) disk = DiskAction.ended (some fault) disk' := by
  show EStateM.bind first (fun _ => second) disk = _
  unfold EStateM.bind
  rw [h]
  rfl

theorem text_ne_empty (h : path.components ≠ []) : path.text ≠ "" := by
  intro hempty
  rw [Path.eq_of_text (q := ⟨""⟩) hempty] at h
  exact h rfl

/-- Something is missing only where there is a folder above to be made first. -/
theorem parent_of_missing (hpath : path.IsSound) (h : disk.place path = .error .notFound) :
    ∃ above c, path.parent? = some above ∧ path.components = above.components ++ [c] ∧
      above.text.toList <+: path.text.toList := by
  rcases Path.parent?_cases path with ⟨-, htop⟩ | habove
  · rw [place_of_isSound hpath, htop] at h
    unfold Path.topOf at h
    split at h <;> cases h
  · exact habove

theorem ne_nil_of_missing (hworking : disk.entry? disk.working = some .folder)
    (hpath : path.IsSound) (hcomponents : path.components = above.components ++ [c])
    (h : disk.place path = .error .notFound) : above.components ≠ [] := by
  intro hnil
  rw [hnil] at hcomponents
  rw [place_concat hpath hcomponents nofun fun q hq => by
    rw [List.mem_singleton.mp hq]
    exact hworking] at h
  split at h <;> cases h

/-- By induction on the components of the path, from the last one. -/
theorem makeFoldersWithin_ended (hworking : disk.entry? disk.working = some .folder) :
    ∀ (fuel : Nat) {path : Path}, path.IsSound → path.IsTrimmed → path.components.length < fuel →
    ∃ disk', makeFoldersWithin fuel path disk =
        DiskAction.ended (obstacle? disk false disk.working path.components) disk' ∧
      disk.Made (reached disk disk.working path.components) disk'
  | fuel + 1, path, hpath, htrim, hfuel => by
    have hempty : path.text.isEmpty = false := by
      rw [Bool.eq_false_iff, Ne, String.isEmpty_iff]
      exact hpath.ne_empty
    unfold makeFoldersWithin
    rw [hempty, if_neg Bool.false_ne_true]
    by_cases hplace : disk.place path = .error .notFound
    · obtain ⟨above, c, habove, hcomponents, htext⟩ := parent_of_missing hpath hplace
      rw [ensureFolder_of_fault hplace, habove]
      show ∃ disk', (makeFoldersWithin fuel above >>= fun _ => ensureFolder path) disk = _ ∧ _
      have hne := ne_nil_of_missing hworking hpath hcomponents hplace
      have hfuel' : above.components.length < fuel := by
        rw [hcomponents, List.length_append] at hfuel
        exact Nat.lt_of_succ_lt_succ hfuel
      obtain ⟨disk', hmake, hmade⟩ := makeFoldersWithin_ended hworking fuel
        (hpath.of_text (text_ne_empty hne) htext) (Path.isTrimmed_of_parent habove) hfuel'
      cases hobstacle : obstacle? disk false disk.working above.components with
      | none =>
        rw [hobstacle] at hmake
        obtain ⟨disk'', hensure, hmade'⟩ :=
          ensureFolder_again hworking hpath htrim hcomponents hobstacle hmade
        exact ⟨disk'', (bind_ended_none hmake).trans hensure, hmade'⟩
      | some fault =>
        rw [hobstacle] at hmake
        have hwalk := (place_of_isSound hpath).symm.trans hplace
        have hroot := ne_root_of_tail path
        rw [hcomponents] at hwalk hroot
        obtain ⟨hrest, hplaces⟩ := along_of_missing hworking hroot hwalk hobstacle
        rw [hcomponents, hrest, hplaces]
        exact ⟨disk', bind_ended_some hmake, hmade⟩
    · obtain ⟨disk', hensure, hmade⟩ := ensureFolder_ended hworking hpath htrim hplace
      refine ⟨disk', ?_, hmade⟩
      have hfault := obstacle?_ne_notFound disk path.components false disk.working
      rw [hensure]
      cases hobstacle : obstacle? disk false disk.working path.components with
      | none => rfl
      | some fault =>
        rw [hobstacle] at hfault
        cases fault with
        | notFound => exact absurd rfl hfault
        | _ => rfl

theorem length_components_le (path : Path) : path.components.length ≤ path.parts.length + 1 := by
  have hparts : ∀ (first : Bool) (parts : List String),
      (Path.partComponents first parts).length ≤ parts.length := by
    intro first parts
    induction parts generalizing first with
    | nil => exact Nat.le_refl _
    | cons part parts ih =>
      have hrest := ih false
      unfold Path.partComponents
      rw [List.length_append, List.length_cons]
      cases Path.partComponent? first part <;> simp <;> omega
  have hlength := hparts (!path.isRooted) path.parts
  rw [Path.components_eq, List.length_append]
  unfold Path.topOf
  split <;> simp <;> omega

/-- **Making all folders of a path** ends with what stands in the way, if something does, and leaves
folders at all places before it. -/
theorem makeFolders_ended (hworking : disk.entry? disk.working = some .folder)
    (hpath : path.IsSound) (htrim : path.IsTrimmed) :
    ∃ disk', makeFolders path disk =
        DiskAction.ended (obstacle? disk false disk.working path.components) disk' ∧
      disk.Made (reached disk disk.working path.components) disk' :=
  makeFoldersWithin_ended hworking _ hpath htrim (Nat.lt_succ_of_le (length_components_le path))

/-- The text of a path that is not sound is refused before anything is made. -/
theorem makeFolders_of_fault (hne : path.text ≠ "") (hfault : fault ≠ .notFound)
    (h : disk.place path = .error fault) : makeFolders path disk = .error fault disk := by
  have hempty : path.text.isEmpty = false := by
    rw [Bool.eq_false_iff, Ne, String.isEmpty_iff]
    exact hne
  unfold makeFolders makeFoldersWithin
  rw [hempty, if_neg Bool.false_ne_true, ensureFolder_of_fault h]
  cases fault with
  | notFound => exact absurd rfl hfault
  | _ => rfl

end Disk

end ProofProse
