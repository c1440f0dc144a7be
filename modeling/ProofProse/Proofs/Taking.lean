import ProofProse.Proofs.Computation
import ProofProse.Proofs.Reading
import ProofProse.Scan.Declaration
import ProofProse.Scan.Expansion

/-! # Computations that take tokens

Arguments and most operands are taken off the front of the stream, and the files that end among the
tokens taken are left; nothing else of the state changes, whether the reading succeeds or not
(`State.Takes`). Numbers are the exception, as a number may be given by any token behind a mark. -/

namespace ProofProse

namespace Includes

@[simp] theorem leave_leave (includes : Includes) (m n : Nat) :
    (includes.leave m).leave n = includes.leave (m + n) := by
  unfold leave
  rw [List.drop_drop]

theorem depth_leave (includes : Includes) (n : Nat) :
    (includes.leave n).depth = includes.depth - n := by
  unfold leave depth
  rw [List.length_drop]

end Includes

namespace State

variable {s t u : State}

/-- Some tokens are taken off the stream, and the files that end among them are left. -/
def Takes (s t : State) : Prop :=
  ∃ taken, s.stream.ahead = taken ++ t.stream.ahead ∧
    t = { s with stream := t.stream, includes := s.includes.leave (marks taken) }

theorem Takes.refl (s : State) : Takes s s := ⟨[], rfl, rfl⟩

theorem Takes.trans (h : Takes s t) (h' : Takes t u) : Takes s u := by
  obtain ⟨xs, hs, ht⟩ := h
  obtain ⟨ys, ht', hu⟩ := h'
  refine ⟨xs ++ ys, by rw [hs, ht', List.append_assoc], ?_⟩
  rw [hu, ht]
  simp

theorem steady_takes : Steady Takes := ⟨Takes.refl, Takes.trans⟩

theorem takes_of_passed {stream : Stream} (h : Stream.Passed Token.IsContent s.stream stream) :
    Takes s { s with stream := stream } := by
  obtain ⟨taken, hs, -, hcontent⟩ := h
  exact ⟨taken, hs, by rw [marks_eq_zero.mpr hcontent]; rfl⟩

theorem takes_one {t : Token} {rest : List Token} (hs : s.stream.ahead = t :: rest)
    (ht : t.IsContent) : Takes s { s with stream := ⟨rest, s.consumed + 1⟩ } :=
  takes_of_passed ⟨[t], hs, rfl, by simpa using ht⟩

theorem takes_of_counts {α : Type} {reading : Reading α}
    (h : reading.Counts 0 s.stream.ahead) :
    Takes s { s with
      stream := s.stream.behind reading, includes := s.includes.leave reading.fileEnds } := by
  obtain ⟨taken, hs, hends⟩ := h
  exact ⟨taken, hs, by rw [hends, Nat.zero_add]⟩

end State

namespace Scan

open State

variable {α : Type}

theorem takes_onStream {f : Stream → Stream}
    (h : ∀ s : Stream, s.Passed Token.IsContent (f s)) : Along Takes (onStream f) :=
  fun s => takes_of_passed (h s.stream)

theorem takes_take {read : State → List Token → Reading α}
    (h : ∀ s tokens, (read s tokens).Counts 0 tokens) : Along Takes (take read) :=
  fun s => takes_of_counts (h s s.stream.ahead)

theorem takes_finishArgument (context : String) (argument : Argument) :
    Along Takes (finishArgument context argument) := by
  cases argument with
  | closed content => exact along_pure steady_takes content
  | runaway => exact along_drop steady_takes _
  | ended => exact along_endOfTokens steady_takes context

theorem takes_balanced (context : String) : Along Takes (balanced context) :=
  (takes_take fun _ tokens => counts_balancedFrom tokens 0 [] 0 0).bind steady_takes
    (takes_finishArgument context)

/-- The next token is taken, unless it is a boundary. Files end at a boundary. -/
theorem takes_argument : Along Takes argument := by
  refine (takes_onStream Stream.passed_skipSpaces).bind steady_takes fun _ => ?_
  intro s
  cases hs : s.stream.ahead with
  | nil =>
    rw [after_bind_ok (next_nil hs)]
    exact Takes.refl s
  | cons x rest =>
    rw [after_bind_ok (next_cons hs)]
    split
    · next h => cases h
    · next h =>
      cases h
      exact (takes_one hs (by simp)).trans (takes_balanced "argument" _)
    · next y _ h =>
      cases h
      split
      · exact ⟨[], hs, rfl⟩
      · next hboundary =>
        refine takes_one hs ?_
        rintro rfl
        exact hboundary rfl

theorem takes_argumentText : Along Takes argumentText :=
  takes_argument.bind steady_takes fun _ => along_pure steady_takes _

theorem takes_optionalArgument : Along Takes optionalArgument := by
  refine along_get_bind fun s => ?_
  split
  · next offset hs =>
    obtain ⟨spaces, rest, hahead, hoffset, hspaces⟩ := Stream.pastSpacesFrom?_eq_some hs
    have hskip : s.stream.Passed Token.IsContent (s.stream.skip (offset + 1)) := by
      refine Stream.passed_skip _ fun x hx => ?_
      rw [hahead, hoffset, Nat.zero_add, List.take_length_add_append] at hx
      rcases List.mem_append.mp hx with hx | hx
      · exact hspaces x hx
      · rw [List.mem_singleton.mp hx]; simp
    have hread : Along Takes (take fun s => readBracketed s.inProof) :=
      takes_take fun _ tokens => counts_bracketedFrom tokens 0 0 [] 0 0
    have hrest : Along Takes (take (fun s => readBracketed s.inProof) >>= fun reading =>
        finishArgument "optional argument" reading >>= fun content => pure (some content)) :=
      hread.bind steady_takes fun reading =>
        (takes_finishArgument _ reading).bind steady_takes fun _ => along_pure steady_takes _
    exact (takes_of_passed hskip).trans (hrest _)
  · exact Takes.refl s

/-! ### Calls of definitions -/

section Calls

variable {R : State → State → Prop}

/-- What each kind of argument leads along, the arguments of a call lead along. -/
theorem along_callArguments (hR : Steady R) (hargument : Along R argument)
    (hoptional : Along R optionalArgument)
    (hdelimited : ∀ delimiter, Along R (take fun _ => readDelimited delimiter))
    (definition : Definition) : Along R (callArguments definition) := by
  have hparameter : ∀ delimiter, Along R (parameterArgument delimiter) := by
    intro delimiter
    unfold parameterArgument
    split
    · exact hargument.bind hR fun _ => along_pure hR _
    · refine (hdelimited delimiter).bind hR fun found => ?_
      split
      · exact along_pure hR _
      · exact along_pure hR _
      · exact along_endOfTokens hR _
  have harguments : ∀ delimiters arguments, Along R (argumentsFrom arguments delimiters) := by
    intro delimiters
    induction delimiters with
    | nil => exact fun _ => along_pure hR _
    | cons delimiter delimiters ih =>
      intro arguments
      refine (hparameter delimiter).bind hR fun content? => ?_
      split
      · exact along_pure hR _
      · exact ih _
  unfold callArguments
  split
  · exact hoptional.bind hR fun _ => harguments _ _
  · exact harguments _ _

end Calls

/-! ### Definitions -/

section Define

variable {s : State} {name : String} {definition : Definition}

theorem define_ok {dictionary : Dictionary}
    (h : s.dictionary.define name definition = .ok dictionary) :
    define name definition s = .ok () { s with dictionary := dictionary } := by
  unfold define
  rw [bind_ok (m := get) (a := s) (t := s) rfl, h]
  rfl

theorem define_error {reason : Rejection}
    (h : s.dictionary.define name definition = .error reason) :
    define name definition s = .ok () (s.warn (.definitionRejected name reason)) := by
  unfold define
  rw [bind_ok (m := get) (a := s) (t := s) rfl, h]
  rfl

end Define

theorem passed_skipCopySign (s : Stream) : s.Passed Token.IsContent (skipCopySign s) := by
  have hspaces := Stream.passed_skipSpaces s
  unfold skipCopySign
  dsimp only
  split
  · next rest hs =>
    have hsign : Stream.Passed Token.IsContent s.skipSpaces (s.skipSpaces.skip 1) :=
      Stream.passed_skip_one hs (by simp)
    exact (hspaces.trans hsign).trans (Stream.passed_skipOneSpace _)
  · exact hspaces

end Scan

end ProofProse
