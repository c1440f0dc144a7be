import ProofProse.Proofs.Ending
import ProofProse.Proofs.InStep.Run

/-! # Runs with two libraries

A round asks the library only where it looks for a file (`round_of_no_inclusion`). Two libraries that
answer every search of a run alike therefore have the same run: round by round
(`round_eq_of_agree`), by induction on the rounds left in a scan (`within_eq_of_agree`), and over all
scans of the run (`history_eq_of_agree`).

A round that does not look for a file enters none, and a round that does enters one that the library
has. So in every state of a run each file that is being read is one that the run began with or one
that the library has (`enters_of_visits`). -/

namespace ProofProse

/-- The same options but for the depth to which files may be included. -/
def Options.withDepth (options : Options) (depth : Nat) : Options :=
  { options with includeDepth := depth }

/-- The kind of the command that names files, if the next token is one. -/
def State.inclusion? (s : State) : Option InclusionKind :=
  match s.stream.ahead with
  | .control name :: _ =>
    match Scan.effect? s.dictionary name with
    | some (.inclusion kind) => some kind
    | _ => none
  | _ => none

namespace Scan

variable {options : Options} {library library' : Library} {setting : Setting}
  {nested : Frame → Scan Flow} {frame : Frame} {first s t u : State} {kind : InclusionKind}
  {fuel start : Nat}

/-! ### Rounds that do not look for files -/

theorem effect?_of_means {name : String} {effect : Effect} (hname : Structural.ofName? name = none)
    (h : s.dictionary.Means name (.effect effect)) : effect? s.dictionary name = some effect := by
  cases h with
  | effect hfind hsetting htested hbare heffect =>
    unfold effect?
    rw [hname, hfind, hsetting, htested, hbare, heffect]
    rfl

/-- Before anything is defined a command does what the table says, unless it is structural or a
test. -/
theorem effect?_empty {name : String} {effect : Effect} (hname : Structural.ofName? name = none)
    (hbare : isBareTest name = false) (heffect : Effect.ofName? name = some effect) :
    effect? {} name = some effect := by
  have hflags : ∀ flag, ({} : Dictionary).flags.contains flag = false := fun _ =>
    Std.HashMap.contains_empty
  exact effect?_of_means (s := .start "" []) hname (.effect (Dictionary.find?_empty name)
    (Dictionary.flagSetting?_of_noFlags hflags) (Dictionary.testedFlag?_of_noFlags hflags) hbare
    heffect)

theorem effect?_enter {d : Dictionary} {name other : String} (entry : Entry) (h : name ≠ other) :
    effect? (d.enter name entry) other = effect? d other := by
  have hfind : (d.enter name entry).find? other = d.find? other := by
    rw [Dictionary.find?_enter, if_neg h]
  unfold effect?
  rw [hfind]
  rfl

theorem carryOut_of_no_inclusion {name : String} {meaning : Meaning} (depth : Nat)
    (h : ∀ kind, meaning ≠ .effect (.inclusion kind)) :
    carryOut ⟨options, library⟩ name meaning =
      carryOut ⟨options.withDepth depth, library'⟩ name meaning := by
  cases meaning with
  | effect effect =>
    cases effect with
    | inclusion kind => exact absurd rfl (h kind)
    | _ => rfl
  | _ => rfl

/-- **A round that does not look for a file** is the same whatever the library has, and however deep
files may be included. -/
theorem round_of_no_inclusion (library' : Library) (depth : Nat) (h : s.inclusion? = none) :
    round ⟨options, library⟩ nested frame s =
      round ⟨options.withDepth depth, library'⟩ nested frame s := by
  cases hs : s.stream.ahead with
  | nil =>
    rw [round_nil hs, round_nil hs]
  | cons x rest =>
    unfold round
    rw [bind_ok (next_cons hs), bind_ok (next_cons hs)]
    cases x with
    | mathShift => cases frame <;> rfl
    | control name =>
      show command _ nested frame name _ = command _ nested frame name _
      cases hname : Structural.ofName? name with
      | some kind =>
        unfold command
        split
        · rfl
        · rw [hname]
          cases kind <;> rfl
      | none =>
        rw [command_meaning hname, command_meaning hname]
        refine goingOn_congr ?_
        rw [carryOut_of_no_inclusion depth fun kind hmeaning => ?_]
        have hmeans := s.dictionary.means_meaning name
        have hmeaning' : s.dictionary.meaning name = .effect (.inclusion kind) := hmeaning
        rw [hmeaning'] at hmeans
        unfold State.inclusion? at h
        rw [hs] at h
        dsimp only at h
        rw [effect?_of_means hname hmeans] at h
        cases h
    | _ => rfl

theorem round_of_inclusion (h : s.inclusion? = some kind) :
    ∃ name rest, s.stream.ahead = .control name :: rest ∧
      effect? s.dictionary name = some (.inclusion kind) ∧
      ∀ setting nested frame, round setting nested frame s =
        goingOn (inclusion setting kind) { s with stream := ⟨rest, s.consumed + 1⟩ } := by
  unfold State.inclusion? at h
  split at h
  · next name rest hs =>
    split at h
    · next kind' heffect =>
      cases h
      refine ⟨name, rest, hs, heffect, fun setting nested frame => ?_⟩
      have hname : Structural.ofName? name = none := by
        unfold effect? at heffect
        split at heffect
        · next hmeaning =>
          simp only [Bool.and_eq_true, Option.isNone_iff_eq_none] at hmeaning
          exact hmeaning.1.1.1.1
        · cases heffect
      unfold round
      rw [bind_ok (next_cons hs)]
      show command setting nested frame name _ = _
      rw [command_plain hname]
      refine goingOn_congr ?_
      exact plainCommand_of_effect? (s := { s with stream := ⟨rest, s.consumed + 1⟩ }) heffect
    · cases h
  · cases h

/-! ### Rounds that look for files -/

/-- Two libraries answer the search for a target alike, if there is one from the files being read. -/
def Agree (options : Options) (library library' : Library) (kind : InclusionKind) (target : String)
    (includes : Includes) : Prop :=
  passesOver ⟨options, library⟩ target = false → includes.depth < options.includeDepth →
    search ⟨options, library⟩ target includes.current (Inclusion.candidates kind target) =
      search ⟨options, library'⟩ target includes.current (Inclusion.candidates kind target)

theorem load_of_agree {target : String} (h : Agree options library library' kind target s.includes) :
    load ⟨options, library⟩ kind target s = load ⟨options, library'⟩ kind target s := by
  cases hpass : passesOver ⟨options, library⟩ target with
  | true =>
    unfold load
    rw [if_pos hpass, if_pos (show passesOver ⟨options, library'⟩ target = true from hpass)]
  | false =>
    unfold load
    rw [if_neg (ne_true_of_eq_false hpass), if_neg (ne_true_of_eq_false
      (show passesOver ⟨options, library'⟩ target = false from hpass))]
    rw [bind_ok (m := get) (a := s) (t := s) rfl, bind_ok (m := get) (a := s) (t := s) rfl]
    dsimp only
    split
    · rfl
    · next hdepth => rw [h hpass (Nat.lt_of_not_le hdepth)]

theorem load_of_passesOver {target : String} (h : passesOver setting target = true) :
    load setting kind target s = .ok none s := by
  unfold load
  rw [if_pos h]
  rfl

/-- A target that is not passed over is looked for, unless files are included too deep. -/
theorem load_eq_search {target : String} (hpass : ¬ passesOver setting target = true)
    (hdepth : s.includes.depth < setting.options.includeDepth) :
    load setting kind target s =
      match search setting target s.includes.current (Inclusion.candidates kind target) with
      | .ok found => .ok (some found) s
      | .error warning => .ok none (s.warn warning) := by
  unfold load
  rw [if_neg hpass, bind_ok (m := get) (a := s) (t := s) rfl, if_neg (Nat.not_le_of_lt hdepth)]
  split <;> next h => rw [h]; rfl

/-- A search for a file looks at no more of a state than the files that are being read. It finds a
file, or it does not and adds a warning at most. -/
theorem load_cases (setting : Setting) (kind : InclusionKind) (target : String)
    (includes : Includes) :
    (∀ s : State, s.includes = includes → load setting kind target s = .ok none s) ∨
    (∃ warning, ∀ s : State, s.includes = includes →
      load setting kind target s = .ok none (s.warn warning)) ∨
    ∃ found, ∀ s : State, s.includes = includes → load setting kind target s = .ok (some found) s := by
  by_cases hpass : passesOver setting target = true
  · exact .inl fun s _ => load_of_passesOver hpass
  by_cases hdepth : includes.depth < setting.options.includeDepth
  · cases hsearch : search setting target includes.current (Inclusion.candidates kind target) with
    | ok found =>
      refine .inr (.inr ⟨found, fun s hs => ?_⟩)
      rw [load_eq_search hpass (hs ▸ hdepth), hs, hsearch]
    | error warning =>
      refine .inr (.inl ⟨warning, fun s hs => ?_⟩)
      rw [load_eq_search hpass (hs ▸ hdepth), hs, hsearch]
  · refine .inr (.inl ⟨.includeDepthExceeded target includes.depth, fun s hs => ?_⟩)
    unfold load
    rw [if_neg hpass, bind_ok (m := get) (a := s) (t := s) rfl, hs, if_pos (Nat.le_of_not_lt hdepth)]
    rfl

theorem load_ok (setting : Setting) (kind : InclusionKind) (target : String) (s : State) :
    ∃ found? t, load setting kind target s = .ok found? t ∧
      (t = s ∨ found? = none ∧ ∃ warning, t = s.warn warning) := by
  rcases load_cases setting kind target s.includes with hload | ⟨warning, hload⟩ | ⟨found, hload⟩
  · exact ⟨none, s, hload s rfl, .inl rfl⟩
  · exact ⟨none, _, hload s rfl, .inr ⟨rfl, warning, rfl⟩⟩
  · exact ⟨some found, s, hload s rfl, .inl rfl⟩

theorem load_sameSource {target : String} {found? : Option Found}
    (h : load setting kind target s = .ok found? t) : s.SameSource t := by
  obtain ⟨_, _, hload, ht⟩ := load_ok setting kind target s
  rw [h] at hload
  cases hload
  rcases ht with rfl | ⟨-, warning, rfl⟩ <;> exact ⟨rfl, rfl, rfl⟩

theorem followPackages_of_agree : ∀ (names : List String) (s : State),
    (∀ name ∈ names, Agree options library library' .package name s.includes) →
    followPackages ⟨options, library⟩ names s = followPackages ⟨options, library'⟩ names s
  | [], _, _ => rfl
  | name :: names, s, h => by
    have hload := load_of_agree (h name List.mem_cons_self)
    obtain ⟨found?, t, hrun, -⟩ := load_ok ⟨options, library⟩ .package name s
    unfold followPackages
    rw [bind_ok hrun, bind_ok (hload.symm.trans hrun)]
    cases found? with
    | some found => rfl
    | none =>
      refine followPackages_of_agree names t fun name hname => ?_
      rw [(load_sameSource hrun).2.1]
      exact h name (List.mem_cons_of_mem _ hname)

/-- **A round** is the same with two libraries that agree wherever it looks for a file. -/
theorem round_eq_of_agree
    (h : ∀ kind target u, LooksFor s kind target u →
      Agree options library library' kind target u.includes) :
    round ⟨options, library⟩ nested frame s = round ⟨options, library'⟩ nested frame s := by
  cases hinclusion : s.inclusion? with
  | none => exact round_of_no_inclusion library' options.includeDepth hinclusion
  | some kind =>
    obtain ⟨name, rest, hs, heffect, hround⟩ := round_of_inclusion hinclusion
    rw [hround, hround]
    refine goingOn_congr ?_
    cases kind with
    | documentClass => rfl
    | package =>
      rw [inclusion_package, inclusion_package]
      cases hrun : packageNames { s with stream := ⟨rest, s.consumed + 1⟩ } with
      | error i u => rw [bind_error hrun, bind_error hrun]
      | ok names u =>
        rw [bind_ok hrun, bind_ok hrun]
        exact followPackages_of_agree _ u fun target htarget =>
          h _ target u (.package hs heffect hrun htarget)
    | input =>
      show (inputTarget >>= fun target => load _ .input target >>= _) _ =
        (inputTarget >>= fun target => load _ .input target >>= _) _
      cases hrun : inputTarget { s with stream := ⟨rest, s.consumed + 1⟩ } with
      | error i u => rw [bind_error hrun, bind_error hrun]
      | ok target u =>
        rw [bind_ok hrun, bind_ok hrun]
        have hload := load_of_agree (h _ target u (.input hs heffect hrun))
        obtain ⟨found?, t, hfound, -⟩ := load_ok ⟨options, library⟩ .input target u
        rw [bind_ok hfound, bind_ok (hload.symm.trans hfound)]

/-! ### Whole runs -/

/-- Two libraries agree wherever the run of the first looks for a file. -/
def AgreeAlong (options : Options) (library library' : Library) (first : State) : Prop :=
  ∀ fuel frame start s, Visits ⟨options, library⟩ first fuel frame start s →
    ∀ kind target u, LooksFor s kind target u →
      Agree options library library' kind target u.includes

/-- By induction on the rounds left, with the rounds of the spans inside. -/
theorem within_eq_of_agree (h : AgreeAlong options library library' first) :
    ∀ (fuel : Nat) (frame : Frame) (start : Nat) (s : State),
      Visits ⟨options, library⟩ first fuel frame start s →
      within ⟨options, library'⟩ fuel frame start s = within ⟨options, library⟩ fuel frame start s := by
  intro fuel
  induction fuel with
  | zero => exact fun _ _ _ _ => rfl
  | succ fuel ih =>
    intro frame start s hv
    cases hlimit : passedLimit? ⟨options, library⟩ frame start s with
    | some failure =>
      have hlimit' : passedLimit? ⟨options, library'⟩ frame start s = some failure := hlimit
      rw [within_limit hlimit, within_limit hlimit']
    | none =>
      have hlimit' : passedLimit? ⟨options, library'⟩ frame start s = none := hlimit
      have hspans : round ⟨options, library⟩ (Scan.inner ⟨options, library'⟩ fuel) frame s =
          round ⟨options, library⟩ (Scan.inner ⟨options, library⟩ fuel) frame s := by
        rcases opens_or_const ⟨options, library⟩ frame s with ⟨inner, u, hopens⟩ | ⟨result, hconst⟩
        · exact hopens.round_congr (ih inner u.consumed u (.opens hv hlimit hopens))
        · rw [hconst, hconst]
      have hround := (round_eq_of_agree (h _ _ _ _ hv)).symm.trans hspans
      by_cases hgoOn : ∃ t, round ⟨options, library⟩ (Scan.inner ⟨options, library⟩ fuel) frame s =
          .ok .goOn t
      · obtain ⟨t, ht⟩ := hgoOn
        rw [within_goOn hlimit ht, within_goOn hlimit' (hround.trans ht)]
        exact ih frame start t (.goOn hv hlimit ht)
      · have hstop : ∀ t, round ⟨options, library⟩ (Scan.inner ⟨options, library⟩ fuel) frame s ≠
            .ok .goOn t := fun t ht => hgoOn ⟨t, ht⟩
        rw [within_stop hlimit hstop, within_stop hlimit' (by rw [hround]; exact hstop), hround]

theorem scan_eq_of_agree (h : AgreeAlong options library library' first)
    (hs : Begins ⟨options, library⟩ first s) :
    scan ⟨options, library'⟩ .file s = scan ⟨options, library⟩ .file s :=
  within_eq_of_agree h _ _ _ _ (.begins hs)

theorem nextWithin_eq_of_agree (h : AgreeAlong options library library' first) :
    ∀ (fuel : Nat) (s : State), Begins ⟨options, library⟩ first s →
      s.nextWithin ⟨options, library'⟩ fuel = s.nextWithin ⟨options, library⟩ fuel
  | 0, _, _ => rfl
  | fuel + 1, s, hs => by
    have hscan := scan_eq_of_agree h hs
    unfold State.nextWithin
    rw [hscan]
    cases hrun : scan ⟨options, library⟩ .file s with
    | error i t => cases i <;> rfl
    | ok flow t =>
      cases flow with
      | goOn => exact absurd hrun (within_ne_goOn _ _ _ _)
      | proofEnd proof? =>
        cases proof? with
        | some proof => rfl
        | none => exact nextWithin_eq_of_agree h fuel t (.proofEnd hs hrun)
      | _ => rfl

theorem historyWithin_eq_of_agree (h : AgreeAlong options library library' first) :
    ∀ (fuel : Nat) (steps : List Step) (s : State), Begins ⟨options, library⟩ first s →
      s.historyWithin ⟨options, library'⟩ steps fuel = s.historyWithin ⟨options, library⟩ steps fuel
  | 0, _, _, _ => rfl
  | fuel + 1, steps, s, hs => by
    have hnext : s.nextOutcome ⟨options, library'⟩ = s.nextOutcome ⟨options, library⟩ :=
      nextWithin_eq_of_agree h _ s hs
    unfold State.historyWithin
    rw [hnext]
    split
    · next outcome t hrun => exact historyWithin_eq_of_agree h fuel _ t (hs.nextWithin hrun)
    · rfl
    · rfl

/-- **Two libraries** that agree wherever a run looks for a file have the same run. -/
theorem history_eq_of_agree (h : AgreeAlong options library library' first) :
    first.history ⟨options, library'⟩ = first.history ⟨options, library⟩ :=
  historyWithin_eq_of_agree h _ [] first .first

/-! ### The files that are read -/

end Scan

/-- A file that a library has. -/
def Library.Has (library : Library) (path : String) : Prop :=
  ∃ content, library.read path = .ok content

/-- The files being read in `t` are among those being read in `s`, or the library has them. -/
def State.Enters (library : Library) (s t : State) : Prop :=
  ∀ path ∈ t.includes.toList, path ∈ s.includes.toList ∨ library.Has path

theorem Includes.mem_of_leave {includes : Includes} {n : Nat} {path : String}
    (h : path ∈ (includes.leave n).toList) : path ∈ includes.toList := by
  unfold Includes.leave Includes.toList at *
  rcases List.mem_cons.mp h with rfl | h
  · exact List.mem_cons_self
  · refine List.mem_cons_of_mem _ (List.mem_reverse.mpr ?_)
    exact List.mem_of_mem_drop (List.mem_reverse.mp h)

theorem Includes.mem_of_enter {includes : Includes} {path entered : String}
    (h : path ∈ (includes.enter entered).toList) : path = entered ∨ path ∈ includes.toList := by
  unfold Includes.enter Includes.toList at *
  simp only [List.reverse_cons, List.mem_cons, List.mem_append, List.not_mem_nil, or_false] at h
  rcases h with rfl | h | rfl
  · exact .inr List.mem_cons_self
  · exact .inr (List.mem_cons_of_mem _ h)
  · exact .inl rfl

theorem Includes.current_mem (includes : Includes) : includes.current ∈ includes.toList := by
  obtain ⟨main, inner⟩ := includes
  cases inner with
  | nil => exact List.mem_cons_self
  | cons path inner =>
    show path ∈ main :: (path :: inner).reverse
    simp

namespace State

variable {library : Library} {s t u : State}

theorem enters_of_includes (h : t.includes = s.includes) : Enters library s t := by
  intro path hpath
  rw [h] at hpath
  exact .inl hpath

theorem steady_enters (library : Library) : Steady (Enters library) where
  refl _ := enters_of_includes rfl
  trans h h' path hpath := (h' path hpath).elim (h path) .inr

theorem enters_of_leave {n : Nat} (h : t.includes = s.includes.leave n) : Enters library s t := by
  intro path hpath
  rw [h] at hpath
  exact .inl (Includes.mem_of_leave hpath)

theorem Takes.enters (h : Takes s t) : Enters library s t := by
  obtain ⟨taken, -, ht⟩ := h
  have hincludes : t.includes = s.includes.leave (marks taken) := by rw [ht]
  exact enters_of_leave hincludes

theorem enters_of_course {setting : Setting} (hdepth : setting.options.includeDepth = 0)
    (h : Course setting s t) : Enters library s t := by
  induction h with
  | trans _ _ ih ih' => exact (steady_enters library).trans ih ih'
  | read s stream files _ => exact enters_of_leave rfl
  | enter _ _ _ h => exact absurd h (by omega)
  | emit s fragment => exact enters_of_includes (sameSource_emit s fragment).2.1
  | openProof s _ =>
    refine enters_of_includes ?_
    unfold enterProof beginProof
    dsimp only
    split <;> rfl
  | math _ _ ih => exact ih
  | discarded _ _ ih => exact ih
  | _ => exact enters_of_includes rfl

end State

namespace Scan

open State

section Entering

variable {setting : Setting} {nested : Frame → Scan Flow} {frame : Frame} {first s t u : State}
  {fuel start : Nat}

theorem has_of_search {target including : String} : ∀ {candidates : List String} {found : Found},
    search setting target including candidates = .ok found → setting.library.Has found.path
  | [], found, h => by cases h
  | candidate :: candidates, found, h => by
    unfold search at h
    dsimp only at h
    split at h
    · next content hread =>
      cases h
      exact ⟨content, hread⟩
    · exact has_of_search h
    · cases h

theorem enters_splice {found : Found} (h : setting.library.Has found.path) :
    Along (Enters setting.library) (splice found) := by
  intro s path hpath
  have hincludes : (after (splice found) s).includes = s.includes.enter found.path := rfl
  rw [hincludes] at hpath
  rcases Includes.mem_of_enter hpath with rfl | hpath
  · exact .inr h
  · exact .inl hpath

theorem enters_load_bind {α : Type} (kind : InclusionKind) (target : String)
    {f : Option Found → Scan α}
    (hsome : ∀ found, setting.library.Has found.path →
      Along (Enters setting.library) (f (some found)))
    (hnone : Along (Enters setting.library) (f none)) :
    Along (Enters setting.library) (load setting kind target >>= f) := by
  intro s
  obtain ⟨found?, t, hload, -⟩ := load_ok setting kind target s
  rw [after_bind_ok hload]
  refine (steady_enters _).trans (enters_of_includes (load_sameSource hload).2.1) ?_
  cases found? with
  | none => exact hnone t
  | some found => exact hsome found (has_of_search (load_some hload).2.2) t

theorem enters_followPackages : ∀ names : List String,
    Along (Enters setting.library) (followPackages setting names)
  | [] => along_pure (steady_enters _) ()
  | name :: names => by
    refine enters_load_bind .package name (fun found hfound => ?_) (enters_followPackages names)
    exact enters_splice hfound

theorem enters_inclusion (kind : InclusionKind) :
    Along (Enters setting.library) (inclusion setting kind) := by
  cases kind with
  | documentClass =>
    have hnone : Along (Enters setting.library)
        (inclusion ⟨setting.options.withDepth 0, setting.library⟩ .documentClass) :=
      (course_inclusion .documentClass).mono fun s t h => enters_of_course rfl h
    exact hnone
  | package =>
    rw [inclusion_package]
    exact (takes_packageNames.mono fun s t h => h.enters).bind (steady_enters _) fun names =>
      enters_followPackages _
  | input =>
    refine (takes_inputTarget.mono fun s t h => h.enters).bind (steady_enters _) fun target => ?_
    exact enters_load_bind .input target (fun found hfound => enters_splice hfound)
      (along_pure (steady_enters _) ())

theorem enters_closeAtOnce (h : s.inclusion? = none) :
    Enters setting.library s (after (round setting closeAtOnce frame) s) := by
  have hround : round setting closeAtOnce frame s = _ :=
    round_of_no_inclusion setting.library 0 h
  have hcourse := course_round
    (along_closeAtOnce ⟨setting.options.withDepth 0, setting.library⟩) frame s
  unfold after at *
  rw [hround]
  exact enters_of_course rfl hcourse

/-- **One round** enters files of the library only, if the scans of spans do. -/
theorem enters_round (hn : ∀ frame, Along (Enters setting.library) (nested frame)) (frame : Frame) :
    Along (Enters setting.library) (round setting nested frame) := by
  intro s
  cases hinclusion : s.inclusion? with
  | some kind =>
    obtain ⟨name, rest, -, -, hround⟩ := round_of_inclusion hinclusion
    have hafter : after (round setting nested frame) s =
        after (goingOn (inclusion setting kind)) { s with stream := ⟨rest, s.consumed + 1⟩ } := by
      unfold after
      rw [hround]
    rw [hafter, after_goingOn]
    exact enters_inclusion kind _
  | none =>
    have hclose : Enters setting.library s (after (round setting closeAtOnce frame) s) :=
      enters_closeAtOnce hinclusion
    rcases opens_or_const setting frame s with ⟨inner, u, hopens⟩ | ⟨result, hconst⟩
    · obtain ⟨w, hw, hsame⟩ := hopens.round_closeAtOnce
      rw [after_ok hw] at hclose
      have hspan : Enters setting.library s u :=
        (steady_enters _).trans hclose (enters_of_includes hsame.2.1.symm)
      have hinner := (steady_enters _).trans hspan (hn inner u)
      cases hrun : nested inner u with
      | ok flow v =>
        obtain ⟨t, ht, hsame⟩ := hopens.round_ok hrun
        rw [after_ok hrun] at hinner
        rw [after_ok ht]
        exact (steady_enters _).trans hinner (enters_of_includes hsame.2.1)
      | error i v =>
        obtain ⟨t, ht, hsame, -⟩ := hopens.round_error hrun
        rw [after_error hrun] at hinner
        rw [after_error ht]
        exact (steady_enters _).trans hinner (enters_of_includes hsame.2.1)
    · unfold after at *
      rw [hconst] at *
      exact hclose

theorem enters_within : ∀ (fuel : Nat) (frame : Frame) (start : Nat),
    Along (Enters setting.library) (within setting fuel frame start)
  | 0, _, _ => along_fail (steady_enters _) _
  | fuel + 1, frame, start => by
    intro s
    have hround : Along (Enters setting.library) (round setting (Scan.inner setting fuel) frame) :=
      enters_round (fun inner t => enters_within fuel inner t.consumed t) frame
    rcases within_cases setting fuel frame start s with ⟨failure, hs⟩ | ⟨-, hs⟩ | ⟨t, ht, hs⟩
    · rw [after_error hs]
      exact (steady_enters _).refl s
    · have hrun := hround s
      unfold after at *
      rwa [hs]
    · have hrest := enters_within fuel frame start t
      have hrun := (steady_enters _).trans (hround.ok ht) hrest
      unfold after at *
      rwa [hs]

theorem enters_of_begins (h : Begins setting first s) : Enters setting.library first s := by
  induction h with
  | first => exact (steady_enters _).refl _
  | proofEnd _ h ih => exact (steady_enters _).trans ih ((enters_within _ _ _).ok h)
  | @dropped s t _ _ h ih =>
    have hdrop : Enters setting.library t t.abandonProof := enters_of_leave rfl
    exact (steady_enters _).trans ((steady_enters _).trans ih ((enters_within _ _ _).error h)) hdrop

/-- **The files of a run**: in every state that it visits each file that is being read is one that it
began with, or one that the library has. -/
theorem enters_of_visits (h : Visits setting first fuel frame start s) :
    Enters setting.library first s := by
  induction h with
  | begins hs => exact enters_of_begins hs
  | goOn _ _ h ih =>
    have hround := (enters_round (fun inner t => enters_within _ inner t.consumed t) _).ok h
    exact (steady_enters _).trans ih hround
  | @opens fuel frame inner start s u _ _ hopens ih =>
    obtain ⟨t, ht, hsame⟩ := hopens.round_closeAtOnce
    have hclose : ∀ frame, Along (Enters setting.library) (closeAtOnce frame) :=
      fun _ => along_pure (steady_enters _) _
    have hround := (enters_round hclose frame).ok ht
    exact (steady_enters _).trans ((steady_enters _).trans ih hround)
      (enters_of_includes hsame.2.1.symm)

/-- A file is looked for from a file that the run began with, or one that the library has. -/
theorem LooksFor.enters {kind : InclusionKind} {target : String} {library : Library}
    (h : LooksFor s kind target u) : Enters library s u := by
  cases h with
  | input hahead _ hread =>
    exact ((takes_one hahead (by simp)).trans (takes_inputTarget.ok hread)).enters
  | package hahead _ hread _ =>
    exact ((takes_one hahead (by simp)).trans (takes_packageNames.ok hread)).enters

end Entering

end Scan

end ProofProse
