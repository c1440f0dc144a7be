import ProofProse.Proofs.Depth

/-! # Files inside one another

The files being read change in two ways only: a file is entered, below the greatest depth, or the
innermost file ends (`Includes.Move`). The main file does not end. Every change that a scan can make
is some of these moves (`Course.moves`), those of a reader that passes the ends of several files
included, and so is everything that a run does between two rounds, behind proofs and around spans.

What the moves keep, they keep in all states of a run: the main file comes first, and the files are
no more than one more than the greatest depth (`IsNest`, `includes_rooted_and_bounded`). -/

namespace ProofProse

/-! ### Moves -/

/-- The paths of some files inside one another, outermost first: they begin with the main file, and
are at most `limit` deep. -/
structure IsNest (path : String) (limit : Nat) (files : List String) : Prop where
  head? : files.head? = some path
  pos : 1 ≤ files.length
  le : files.length ≤ limit + 1

namespace Includes

variable {limit : Nat} {path : String} {files files' : Includes}

/-- A file is entered below the greatest depth, or a file ends. -/
inductive Move (limit : Nat) : Includes → Includes → Prop
  | enter {files : Includes} (path : String) (h : files.depth < limit) :
      Move limit files (files.enter path)
  | leave (files : Includes) : Move limit files (files.leave 1)

/-- Any number of moves, one after the other. -/
abbrev Moves (limit : Nat) : Includes → Includes → Prop := Relation.ReflTransGen (Move limit)

theorem moves_leave (files : Includes) : ∀ n, Moves limit files (files.leave n)
  | 0 => .refl
  | n + 1 => by
    rw [← leave_leave]
    exact (files.moves_leave n).tail (.leave _)

theorem isNest_iff : IsNest path limit files.toList ↔ files.main = path ∧ files.depth ≤ limit := by
  have hlength : files.toList.length = files.depth + 1 := by
    unfold toList depth
    rw [List.length_cons, List.length_reverse]
  constructor
  · intro h
    have hle := h.le
    exact ⟨Option.some.inj h.head?, by omega⟩
  · rintro ⟨hmain, hdepth⟩
    exact ⟨congrArg some hmain, by omega, by omega⟩

/-- **One move** keeps the main file and the bound. -/
theorem Move.isNest (h : Move limit files files') (hfiles : IsNest path limit files.toList) :
    IsNest path limit files'.toList := by
  rw [isNest_iff] at *
  obtain ⟨hmain, hdepth⟩ := hfiles
  cases h with
  | enter entered h => exact ⟨hmain, Nat.succ_le_of_lt h⟩
  | leave =>
    have hleave := files.depth_leave 1
    exact ⟨hmain, by omega⟩

theorem Moves.isNest (h : Moves limit files files') (hfiles : IsNest path limit files.toList) :
    IsNest path limit files'.toList := by
  induction h with
  | refl => exact hfiles
  | tail _ hmove ih => exact hmove.isNest ih

theorem isNest_main (path : String) (limit : Nat) : IsNest path limit (toList ⟨path, []⟩) :=
  ⟨rfl, Nat.le_refl 1, Nat.le_add_left 1 limit⟩

end Includes

open Includes (Moves moves_leave isNest_main)

/-! ### Runs -/

/-- **What a scan does to the files** is some moves, by induction on its course. -/
theorem Course.moves {setting : Setting} {s t : State} (h : Course setting s t) :
    s.includes.Moves setting.options.includeDepth t.includes := by
  induction h with
  | trans _ _ ih ih' => exact ih.trans ih'
  | read s stream files _ => exact moves_leave s.includes files
  | enter s path tokens h => exact .single (.enter path h)
  | emit s fragment =>
    rw [(State.sameSource_emit s fragment).2.1]
  | openProof s _ =>
    unfold State.enterProof State.beginProof
    dsimp only
    split <;> exact .refl
  | math _ _ ih => exact ih
  | discarded _ _ ih => exact ih
  | _ => exact .refl

namespace Scan

variable {setting : Setting} {first s t u : State} {fuel start : Nat} {frame inner' : Frame}

theorem moves_scan (setting : Setting) (s : State) :
    s.includes.Moves setting.options.includeDepth (after (scan setting .file) s).includes :=
  (course_within _ _ _ s).moves

theorem Begins.moves (h : Begins setting first s) :
    first.includes.Moves setting.options.includeDepth s.includes := by
  induction h with
  | first => exact .refl
  | @proofEnd s t _ _ h ih =>
    have hscan := moves_scan setting s
    rw [after_ok h] at hscan
    exact ih.trans hscan
  | @dropped s t _ _ h ih =>
    have hscan := moves_scan setting s
    rw [after_error h] at hscan
    exact (ih.trans hscan).trans (moves_leave t.includes _)

/-- The scan of a span begins in the files that the round before it comes to. -/
theorem Opens.moves (h : Opens setting frame s inner' u) :
    s.includes.Moves setting.options.includeDepth u.includes := by
  obtain ⟨t, hround, -, hincludes, -⟩ := h.round_closeAtOnce
  rw [← hincludes]
  exact ((course_round (along_closeAtOnce setting) frame).ok hround).moves

theorem Visits.moves (h : Visits setting first fuel frame start s) :
    first.includes.Moves setting.options.includeDepth s.includes := by
  induction h with
  | begins hs => exact hs.moves
  | goOn _ _ h ih => exact ih.trans ((course_round (course_inner setting _) _).ok h).moves
  | opens _ _ hopens ih => exact ih.trans hopens.moves

end Scan

namespace State

open Scan

variable {setting : Setting}

theorem moves_nextWithin : ∀ (fuel : Nat) (s : State),
    s.includes.Moves setting.options.includeDepth (s.nextWithin setting fuel).2.includes
  | 0, _ => .refl
  | fuel + 1, s => by
    have hscan := moves_scan setting s
    unfold nextWithin
    cases h : scan setting .file s with
    | ok flow t =>
      rw [after_ok h] at hscan
      cases flow with
      | goOn => exact hscan.trans (moves_nextWithin fuel t)
      | close => exact hscan
      | endDocument => exact hscan
      | proofEnd proof =>
        cases proof with
        | none => exact hscan.trans (moves_nextWithin fuel t)
        | some proof => exact hscan
    | error i t =>
      rw [after_error h] at hscan
      cases i with
      | drop reason => exact hscan.trans (moves_leave t.includes _)
      | fatal failure => exact hscan

theorem moves_nextOutcome (setting : Setting) (s : State) :
    s.includes.Moves setting.options.includeDepth (s.nextOutcome setting).2.includes :=
  moves_nextWithin _ s

/-- What a course of a run shows of the files is bounded, if what it has shown before is. -/
theorem isNest_historyWithin (setting : Setting) {path : String} : ∀ (fuel : Nat)
    (steps : List Step) (s : State),
    (∀ step ∈ steps, IsNest path setting.options.includeDepth step.includes) →
    IsNest path setting.options.includeDepth s.includes.toList →
    (∀ step ∈ (s.historyWithin setting steps fuel).steps,
      IsNest path setting.options.includeDepth step.includes) ∧
    IsNest path setting.options.includeDepth (s.historyWithin setting steps fuel).last.includes.toList
  | 0, steps, s, hsteps, hs => ⟨fun step h => hsteps step (List.mem_reverse.mp h), hs⟩
  | fuel + 1, steps, s, hsteps, hs => by
    have hnext := (moves_nextOutcome setting s).isNest hs
    have hshown : ∀ step ∈ steps.reverse, IsNest path setting.options.includeDepth step.includes :=
      fun step h => hsteps step (List.mem_reverse.mp h)
    unfold historyWithin
    split
    · next outcome t hrun =>
      rw [hrun] at hnext
      exact isNest_historyWithin setting fuel _ t (List.forall_mem_cons.mpr ⟨hnext, hsteps⟩) hnext
    · next t hrun =>
      rw [hrun] at hnext
      exact ⟨hshown, hnext⟩
    · next failure t hrun =>
      rw [hrun] at hnext
      exact ⟨hshown, hnext⟩

end State

namespace Scan

/-- **Included files are rooted and bounded**, whatever the library has and however its files name
one another. Moves from the main file alone lead to the main file and at most as many files inside
it as may be. In a run of a source every state that is visited comes from the first one by moves, and
so does whatever a course leads to from there: the state behind the round, the state in which the
scan of a span begins, and every state in between. The same holds between proofs, of the last state,
of what is shown behind each outcome, and of the scans of a body. -/
theorem includes_rooted_and_bounded (setting : Setting) (source path : String) :
    (∀ files, Moves setting.options.includeDepth ⟨path, []⟩ files →
      IsNest path setting.options.includeDepth files.toList) ∧
    (∀ fuel frame start s, Visits setting (.ofSource setting source path) fuel frame start s →
      (∀ t, Course setting s t →
        Moves setting.options.includeDepth ⟨path, []⟩ t.includes ∧
        IsNest path setting.options.includeDepth t.includes.toList) ∧
      (∀ fuel', IsNest path setting.options.includeDepth
        (after (round setting (Scan.inner setting fuel') frame) s).includes.toList) ∧
      ∀ inner' u, Opens setting frame s inner' u →
        IsNest path setting.options.includeDepth u.includes.toList) ∧
    (∀ s, Begins setting (.ofSource setting source path) s →
      IsNest path setting.options.includeDepth s.includes.toList ∧
      IsNest path setting.options.includeDepth (after (scan setting .file) s).includes.toList ∧
      IsNest path setting.options.includeDepth (s.nextOutcome setting).2.includes.toList) ∧
    (∀ step ∈ ((State.ofSource setting source path).history setting).steps,
      IsNest path setting.options.includeDepth step.includes) ∧
    IsNest path setting.options.includeDepth
      ((State.ofSource setting source path).history setting).last.includes.toList ∧
    ∀ s : State, Moves setting.options.includeDepth ⟨path, []⟩ s.includes →
      Moves setting.options.includeDepth ⟨path, []⟩ (after (scan setting .file) s.openBody).includes
    := by
  have hmain := isNest_main path setting.options.includeDepth
  have hnest : ∀ files, Moves setting.options.includeDepth ⟨path, []⟩ files →
      IsNest path setting.options.includeDepth files.toList := fun _ h => h.isNest hmain
  have hhistory := State.isNest_historyWithin setting (rounds setting) []
    (State.ofSource setting source path) nofun hmain
  refine ⟨hnest, fun fuel frame start s hs => ⟨fun t ht => ?_, fun fuel' => ?_, ?_⟩,
    fun s hs => ?_, hhistory.1, hhistory.2, fun s hs => hs.trans (moves_scan setting s.openBody)⟩
  · have hmoves := hs.moves.trans ht.moves
    exact ⟨hmoves, hnest _ hmoves⟩
  · have hround := course_round (course_inner setting fuel') frame s
    exact hnest _ (hs.moves.trans hround.moves)
  · exact fun inner' u hopens => hnest _ (hs.moves.trans hopens.moves)
  · have hfiles := hs.moves.isNest hmain
    exact ⟨hfiles, (moves_scan setting s).isNest hfiles,
      (State.moves_nextOutcome setting s).isNest hfiles⟩

end Scan

end ProofProse
