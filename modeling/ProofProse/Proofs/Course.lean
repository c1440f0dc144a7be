import Mathlib.Logic.Relation
import ProofProse.Proofs.Computation
import ProofProse.Proofs.Stream
import ProofProse.Scan.Span

/-! # What a scan can do

`Course setting s t` says that a scan can lead from `s` to `t`. It lists every kind of change that
the interpretation of tokens makes to the state, with the guard under which it is made: a proof opens
or closes outside spans only, a file is entered below the greatest depth only, and a span is left at
the depth at which it was entered. Each computation of `Scan` leads along `Course`; the main results
are `course_round` for one round of a scan and `course_within` for a whole scan, with all the scans
inside it. What every scan keeps is then shown by induction on `Course`. -/

namespace ProofProse

/-- A change that a source can make to a dictionary. -/
inductive Dictionary.Change : Dictionary → Dictionary → Prop
  | define {d e : Dictionary} {name : String} {definition : Definition}
      (h : d.define name definition = .ok e) : Change d e
  | rename {d e : Dictionary} {new old : String} (h : d.renameBuiltin new old = .ok e) : Change d e
  | environment {d : Dictionary} {name : String} (definition : EnvironmentDefinition)
      (h : isProofName name = false) : Change d (d.defineEnvironment name definition)
  | declareFlag (d : Dictionary) (flag : String) : Change d (d.declareFlag flag)
  | setFlag (d : Dictionary) (flag : String) (value : Bool) : Change d (d.setFlag flag value).1

/-- Any number of changes that a source can make to a dictionary, one after the other. -/
abbrev Dictionary.Changes : Dictionary → Dictionary → Prop := Relation.ReflTransGen Dictionary.Change

namespace State

/-- A proof opens. -/
def enterProof (s : State) : State :=
  let s := if s.proofDepth == 0 then s.beginProof else s
  { s with proofDepth := s.proofDepth + 1 }

/-- A proof closes; with the outermost one the draft is taken away. -/
def leaveProof (s : State) : State :=
  { s with
    proofDepth := s.proofDepth - 1
    draft := if s.proofDepth = 1 then {} else s.draft }

end State

/-- A scan can lead from one state to another. -/
inductive Course (setting : Setting) : State → State → Prop
  | refl (s : State) : Course setting s s
  | trans {s t u : State} : Course setting s t → Course setting t u → Course setting s u
  /-- Tokens are taken or put back, and files end. -/
  | read (s : State) (stream : Stream) (files : Nat) (h : s.consumed ≤ stream.consumed) :
      Course setting s { s with stream := stream, includes := s.includes.leave files }
  /-- A file is included. -/
  | enter (s : State) (path : String) (tokens : List Token)
      (h : s.includes.depth < setting.options.includeDepth) :
      Course setting s
        { s with stream := s.stream.pushBack tokens, includes := s.includes.enter path }
  /-- The dictionary is changed. -/
  | change (s : State) (dictionary : Dictionary) (h : s.dictionary.Change dictionary) :
      Course setting s { s with dictionary := dictionary }
  | warn (s : State) (warning : Warning) : Course setting s (s.warn warning)
  | period (s : State) (period : Bool) : Course setting s { s with finalPeriod := period }
  | emit (s : State) (fragment : Fragment) : Course setting s (s.emit fragment)
  | openProof (s : State) (h : s.inSpan = false) : Course setting s s.enterProof
  | closeProof (s : State) (h : s.inSpan = false) : Course setting s s.leaveProof
  /-- Mathematics is scanned in a frame of its own. -/
  | math {s t : State} (h : s.mathDepth + s.discardDepth < setting.options.skipDepth) :
      Course setting s.enterMath t → Course setting s t.leaveMath
  /-- An environment is skipped in a frame of its own. -/
  | discarded {s t : State} (h : s.mathDepth + s.discardDepth < setting.options.skipDepth) :
      Course setting s.enterDiscarded t → Course setting s t.leaveDiscarded

/-! ### Depths -/

/-- **Spans are balanced**: what a scan leads to is as deep in spans as where it began. -/
theorem Course.depths {setting : Setting} {s t : State} (h : Course setting s t) :
    t.mathDepth = s.mathDepth ∧ t.discardDepth = s.discardDepth := by
  induction h with
  | trans _ _ ih ih' => exact ⟨ih'.1.trans ih.1, ih'.2.trans ih.2⟩
  | emit s fragment =>
    unfold State.emit
    split <;> exact ⟨rfl, rfl⟩
  | openProof s _ =>
    unfold State.enterProof State.beginProof
    dsimp only
    split <;> exact ⟨rfl, rfl⟩
  | math _ _ ih => exact ⟨congrArg (· - 1) ih.1, ih.2⟩
  | discarded _ _ ih => exact ⟨ih.1, congrArg (· - 1) ih.2⟩
  | _ => exact ⟨rfl, rfl⟩

theorem Course.inSpan_eq {setting : Setting} {s t : State} (h : Course setting s t) :
    t.inSpan = s.inSpan := by
  unfold State.inSpan
  rw [h.depths.1, h.depths.2]

theorem Course.consumed_le {setting : Setting} {s t : State} (h : Course setting s t) :
    s.consumed ≤ t.consumed := by
  induction h with
  | trans _ _ ih ih' => exact Nat.le_trans ih ih'
  | read _ _ _ h => exact h
  | emit s fragment =>
    unfold State.emit
    split <;> exact Nat.le_refl _
  | openProof s _ =>
    unfold State.enterProof
    dsimp only
    split <;> exact Nat.le_refl _
  | math _ _ ih => exact ih
  | discarded _ _ ih => exact ih
  | _ => exact Nat.le_refl _

/-! ### Definitions -/

/-- What a scan leads to has been defined by changes to what was defined before. -/
theorem Course.changes {setting : Setting} {s t : State} (h : Course setting s t) :
    s.dictionary.Changes t.dictionary := by
  induction h with
  | trans _ _ ih ih' => exact ih.trans ih'
  | change s dictionary h => exact .single h
  | emit s fragment =>
    unfold State.emit
    split <;> exact .refl
  | openProof s _ =>
    unfold State.enterProof State.beginProof
    dsimp only
    split <;> exact .refl
  | math _ _ ih => exact ih
  | discarded _ _ ih => exact ih
  | _ => exact .refl

namespace Scan

variable {setting : Setting} {α : Type}

theorem steady_course : Steady (Course setting) := ⟨.refl, .trans⟩

/-! ### Tokens -/

theorem course_stream {s : State} {stream : Stream} (h : s.consumed ≤ stream.consumed) :
    Course setting s { s with stream := stream } :=
  .read s stream 0 h

theorem course_onStream {f : Stream → Stream} (h : ∀ s : Stream, s.consumed ≤ (f s).consumed) :
    Along (Course setting) (onStream f) :=
  along_modify fun s => course_stream (h s.stream)

theorem course_onStream_of_passed {f : Stream → Stream} {p : Token → Prop}
    (h : ∀ s : Stream, s.Passed p (f s)) : Along (Course setting) (onStream f) :=
  course_onStream fun s => (h s).consumed_le

theorem course_skip (n : Nat) : Along (Course setting) (onStream (·.skip n)) :=
  course_onStream_of_passed (p := fun _ => True) fun _ =>
    Stream.passed_skip n fun _ _ => trivial

theorem course_skipSpaces : Along (Course setting) (onStream Stream.skipSpaces) :=
  course_onStream_of_passed Stream.passed_skipSpaces

theorem course_skipChar (c : Char) : Along (Course setting) (onStream (·.skipChar c)) :=
  course_onStream_of_passed fun s => s.passed_skipChar c

theorem course_pushBack (tokens : List Token) : Along (Course setting) (pushBack tokens) :=
  course_onStream fun _ => Nat.le_refl _

theorem course_pushBackOne (token : Token) : Along (Course setting) (pushBackOne token) :=
  course_onStream fun _ => Nat.le_refl _

theorem course_next : Along (Course setting) next := by
  intro s
  unfold after next Stream.next?
  cases hs : s.stream.ahead with
  | nil => exact .refl s
  | cons x rest => exact course_stream (Nat.le_succ _)

theorem course_take (read : State → List Token → Reading α) :
    Along (Course setting) (take read) :=
  fun s => .read s _ _ (Nat.le_add_right _ _)

theorem course_warn (warning : Warning) : Along (Course setting) (warn warning) :=
  along_modify fun s => .warn s warning

theorem course_emit (fragment : Fragment) : Along (Course setting) (emit fragment) :=
  along_modify fun s => .emit s fragment

end Scan

end ProofProse
