import ProofProse.Proofs.Clean
import ProofProse.Proofs.Taking
import ProofProse.Scan.Choice
import ProofProse.Scan.Declaration
import ProofProse.Scan.Expansion

/-! # Included files and the marks of their ends

A state is in step when as many ends of files are ahead in the stream as files are being read inside
the main one (`State.InStep`). It is sound when it is in step and nothing that has been defined holds
the end of a file; a call could put such an end on the stream when no file is included. Reading and
defining keeps states sound (`State.Keeps`), with the exception of a few commands that take any token
whatever it is. -/

namespace ProofProse

namespace State

variable {s t : State}

/-- As many ends of files are ahead as files are included inside one another. -/
def InStep (s : State) : Prop := marks s.stream.ahead = s.includes.depth

/-- In step, with clean definitions. -/
structure Sound (s : State) : Prop where
  inStep : s.InStep
  clean : s.dictionary.Clean

/-- A sound state leads to a sound one. -/
def Keeps (s t : State) : Prop := s.Sound → t.Sound

theorem steady_keeps : Steady Keeps := ⟨fun _ => id, fun h h' hs => h' (h hs)⟩

/-- Clean definitions stay clean. -/
def KeepsClean (s t : State) : Prop := s.dictionary.Clean → t.dictionary.Clean

theorem steady_keepsClean : Steady KeepsClean := ⟨fun _ => id, fun h h' => h' ∘ h⟩

theorem keepsClean_of_eq (h : t.dictionary = s.dictionary) : KeepsClean s t := fun hs => h ▸ hs

/-- Soundness is about the tokens ahead, the files and the definitions only. -/
theorem keeps_of_eq (hahead : t.stream.ahead = s.stream.ahead) (hincludes : t.includes = s.includes)
    (hdictionary : t.dictionary = s.dictionary) : Keeps s t := by
  intro h
  refine ⟨?_, hdictionary ▸ h.clean⟩
  have := h.inStep
  unfold InStep at *
  rwa [hahead, hincludes]

theorem Takes.inStep (h : Takes s t) (hs : s.InStep) : t.InStep := by
  obtain ⟨taken, hahead, ht⟩ := h
  have hdepth : t.includes.depth = s.includes.depth - marks taken := by
    rw [ht]
    exact Includes.depth_leave _ _
  unfold InStep at *
  rw [hahead, marks_append] at hs
  omega

theorem Takes.dictionary_eq (h : Takes s t) : t.dictionary = s.dictionary := by
  obtain ⟨taken, -, ht⟩ := h
  rw [ht]

theorem Takes.keeps (h : Takes s t) : Keeps s t :=
  fun hs => ⟨h.inStep hs.inStep, h.dictionary_eq ▸ hs.clean⟩

end State

namespace Scan

open State

variable {α : Type} {m : Scan α}

theorem Along.keeps (h : Along Takes m) : Along Keeps m := h.mono fun _ _ => Takes.keeps

/-- If a computation finishes, the state behind it is in step. -/
def FinishesInStep (m : Scan α) (s : State) : Prop := ∀ a t, m s = .ok a t → t.InStep

theorem finishesInStep_bind {β : Type} {f : α → Scan β} {a : α} {s t : State} (hm : m s = .ok a t) :
    FinishesInStep (m >>= f) s ↔ FinishesInStep (f a) t := by
  unfold FinishesInStep
  rw [bind_ok hm]

/-! ### Arguments -/

theorem keeps_pushBack {tokens : List Token} (h : marks tokens = 0) :
    Along Keeps (pushBack tokens) := by
  intro s hs
  refine ⟨?_, hs.clean⟩
  show marks (tokens ++ s.stream.ahead) = s.includes.depth
  rw [marks_append, h, Nat.zero_add]
  exact hs.inStep

theorem yields_balanced (context : String) :
    Yields (fun content => marks content = 0) (balanced context) := by
  intro s content t h
  unfold balanced at h
  rw [bind_ok (take_ok _ s)] at h
  unfold readBalanced at h
  cases hread : (balancedFrom s.inProof 0 [] 0 0 s.stream.ahead).result with
  | closed content' =>
    rw [hread] at h
    cases h
    exact marks_of_balancedFrom _ 0 [] 0 0 rfl _ hread
  | runaway =>
    rw [hread] at h
    cases h
  | ended =>
    rw [hread] at h
    cases h

theorem keeps_warn (warning : Warning) : Along Keeps (warn warning) :=
  along_modify fun _ => keeps_of_eq rfl rfl rfl

theorem yields_argument : Yields (fun content => marks content = 0) argument := by
  refine yields_bind fun _ => yields_bind fun t? => ?_
  split
  · exact yields_endOfTokens _
  · exact yields_balanced _
  · next t _ =>
    split
    · exact yields_bind fun _ => yields_pure rfl
    · next hboundary =>
      refine yields_pure ((marks_cons (t := t) ?_ []).trans rfl)
      rintro rfl
      exact hboundary rfl

theorem yields_optionalArgument :
    Yields (fun content? => ∀ content, content? = some content → marks content = 0)
      optionalArgument := by
  refine yields_bind fun s => ?_
  split
  · refine yields_bind fun _ => ?_
    intro s content? t h content hcontent
    rw [bind_ok (take_ok _ s)] at h
    unfold readBracketed at h
    cases hread : (bracketedFrom s.inProof 0 0 [] 0 0 s.stream.ahead).result with
    | closed content' =>
      rw [hread] at h
      cases h
      cases hcontent
      exact marks_of_bracketedFrom _ 0 0 [] 0 0 rfl _ hread
    | runaway =>
      rw [hread] at h
      cases h
    | ended =>
      rw [hread] at h
      cases h
  · exact yields_pure nofun

theorem keeps_argument : Along Keeps argument := takes_argument.keeps

theorem keeps_argumentText : Along Keeps argumentText := takes_argumentText.keeps

theorem keeps_skipChar (c : Char) : Along Keeps (onStream (·.skipChar c)) :=
  (takes_onStream fun s => s.passed_skipChar c).keeps

theorem takes_operand {operand : Operand} (h : operand ≠ .number) :
    Along Takes (Scan.operand operand) := by
  cases operand with
  | star => exact takes_onStream fun s => s.passed_skipChar '*'
  | optional => exact takes_optionalArgument.discard
  | mandatory => exact takes_argument.discard
  | dimension => exact takes_onStream Stream.passed_skipDimension
  | number => exact absurd rfl h
  | equals => exact takes_onStream Stream.passed_skipEquals

theorem takes_operands : ∀ {signature : Signature}, .number ∉ signature →
    Along Takes (operands signature)
  | [], _ => along_pure steady_takes ()
  | operand :: signature, h => by
    have hoperand : operand ≠ .number := fun heq => h (heq ▸ List.mem_cons_self)
    have hrest : Along Takes (operands signature) :=
      takes_operands fun hmem => h (List.mem_cons_of_mem _ hmem)
    exact (takes_operand hoperand).bind steady_takes fun _ => hrest

/-! ### Calls of definitions -/

/-- The tokens that a call must begin with are taken, or they are not ahead and all that was read goes
back. -/
theorem leadFrom_run : ∀ (lead seen : List Token) (s : State),
    (∃ rest, s.stream.ahead = lead ++ rest ∧
      leadFrom seen lead s = .ok true { s with stream := ⟨rest, s.consumed + lead.length⟩ }) ∨
    ¬ lead <+: s.stream.ahead ∧
      ∃ stream, leadFrom seen lead s = .ok false { s with stream := stream } ∧
        stream.ahead = seen.reverse ++ s.stream.ahead := by
  intro lead
  induction lead with
  | nil => exact fun seen s => .inl ⟨s.stream.ahead, rfl, rfl⟩
  | cons expected lead ih =>
    intro seen s
    unfold leadFrom
    cases hs : s.stream.ahead with
    | nil =>
      rw [bind_ok (next_nil hs)]
      exact .inr ⟨fun h => List.cons_ne_nil _ _ (List.prefix_nil.mp h),
        s.stream.pushBack seen.reverse, rfl, by simp [Stream.pushBack, hs]⟩
    | cons t rest =>
      rw [bind_ok (next_cons hs)]
      dsimp only
      split
      · next heq =>
        subst heq
        rcases ih (t :: seen) { s with stream := ⟨rest, s.consumed + 1⟩ } with
          ⟨behind, hahead, hrun⟩ | ⟨hlead, stream, hrun, hahead⟩
        · refine .inl ⟨behind, congrArg (t :: ·) hahead, hrun.trans ?_⟩
          rw [List.length_cons, Nat.add_comm lead.length, ← Nat.add_assoc]
          rfl
        · exact .inr ⟨fun h => hlead (List.cons_prefix_cons.mp h).2, stream, hrun,
            by simpa using hahead⟩
      · next hne =>
        exact .inr ⟨fun h => hne (List.cons_prefix_cons.mp h).1.symm,
          ⟨(t :: seen).reverse ++ rest, s.consumed + 1⟩, rfl, by simp⟩

theorem takes_leadFrom {lead : List Token} (h : marks lead = 0) : Along Takes (leadFrom [] lead) := by
  intro s
  rcases leadFrom_run lead [] s with ⟨rest, hahead, hrun⟩ | ⟨-, stream, hrun, hahead⟩
  · rw [after_ok hrun]
    exact ⟨lead, hahead, by rw [h]; rfl⟩
  · rw [after_ok hrun]
    exact ⟨[], hahead.symm, rfl⟩

section Calls

variable {definition : Definition}

/-- What the arguments of a call are when there are any. -/
def CleanArguments (arguments? : Option (List (List Token))) : Prop :=
  ∀ arguments, arguments? = some arguments → ∀ content ∈ arguments, marks content = 0

theorem takes_argumentsFrom : ∀ {delimiters : List (List Token)} (arguments : List (List Token)),
    (∀ delimiter ∈ delimiters, delimiter = []) → Along Takes (argumentsFrom arguments delimiters)
  | [], _, _ => along_pure steady_takes _
  | delimiter :: delimiters, arguments, h => by
    obtain rfl : delimiter = [] := h delimiter List.mem_cons_self
    have hrest := fun content => takes_argumentsFrom (content :: arguments)
      fun delimiter hmem => h delimiter (List.mem_cons_of_mem _ hmem)
    have hfirst : Along Takes (parameterArgument []) :=
      takes_argument.bind steady_takes fun _ => along_pure steady_takes _
    unfold argumentsFrom
    refine hfirst.bind steady_takes fun content? => ?_
    split
    · exact along_pure steady_takes _
    · exact hrest _

theorem yields_argumentsFrom : ∀ {delimiters : List (List Token)} {arguments : List (List Token)},
    (∀ delimiter ∈ delimiters, delimiter = []) → (∀ content ∈ arguments, marks content = 0) →
    Yields CleanArguments (argumentsFrom arguments delimiters)
  | [], arguments, _, harguments => by
    refine yields_pure fun arguments' heq content hmem => ?_
    cases heq
    exact harguments content (List.mem_reverse.mp hmem)
  | delimiter :: delimiters, arguments, h, harguments => by
    obtain rfl : delimiter = [] := h delimiter List.mem_cons_self
    have hfirst : Yields (fun content? => ∀ content, content? = some content → marks content = 0)
        (parameterArgument []) := by
      refine yields_argument.bind fun content hcontent => yields_pure fun content' heq => ?_
      cases heq
      exact hcontent
    unfold argumentsFrom
    refine hfirst.bind fun content? hcontent => ?_
    split
    · exact yields_pure nofun
    · next content _ =>
      refine yields_argumentsFrom (fun d hmem => h d (List.mem_cons_of_mem _ hmem)) ?_
      intro content' hmem
      rcases List.mem_cons.mp hmem with rfl | hmem
      · exact hcontent _ rfl
      · exact harguments content' hmem

theorem takes_callArguments (h : definition.Undelimited) :
    Along Takes (callArguments definition) := by
  unfold callArguments
  split
  · next fallback delimiter delimiters _ hdelimiters =>
    refine takes_optionalArgument.bind steady_takes fun _ => takes_argumentsFrom _ fun d hmem => ?_
    exact h d (hdelimiters ▸ List.mem_cons_of_mem _ hmem)
  · exact takes_argumentsFrom _ h

theorem yields_callArguments (hclean : definition.Clean) (h : definition.Undelimited) :
    Yields CleanArguments (callArguments definition) := by
  unfold callArguments
  split
  · next fallback delimiter delimiters hfallback hdelimiters =>
    refine yields_optionalArgument.bind fun content? hcontent => yields_argumentsFrom ?_ ?_
    · exact fun d hmem => h d (hdelimiters ▸ List.mem_cons_of_mem _ hmem)
    · intro content hmem
      rw [List.mem_singleton.mp hmem]
      cases content? with
      | none => exact hclean.fallback fallback hfallback
      | some content => exact hcontent content rfl
  · exact yields_argumentsFrom h nofun

/-- A call of a clean definition without delimiters keeps states sound. -/
theorem keeps_expand (hclean : definition.Clean) (h : definition.Undelimited) (name : String) :
    Along Keeps (expand name definition) := by
  have htakes : Along Takes (expansion? name definition) := by
    refine (takes_leadFrom hclean.lead).bind steady_takes fun fits => ?_
    split
    · exact (takes_callArguments h).bind steady_takes fun _ => along_pure steady_takes _
    · exact along_pure steady_takes _
  have hyields : Yields (fun tokens? => ∀ tokens, tokens? = some tokens → marks tokens = 0)
      (expansion? name definition) := by
    refine yields_bind fun fits => ?_
    split
    · refine (yields_callArguments hclean h).bind fun arguments? harguments => yields_pure ?_
      intro tokens heq
      obtain ⟨arguments, rfl, rfl⟩ := Option.map_eq_some_iff.mp heq
      exact Definition.marks_expansion hclean name (harguments arguments rfl)
    · exact yields_pure nofun
  refine htakes.keeps.bind_of_yields steady_keeps hyields fun tokens? htokens => ?_
  split
  · exact keeps_pushBack (htokens _ rfl)
  · exact keeps_warn _

end Calls

/-! ### Definitions in use

Whatever is read, the definitions are as clean as they were. -/

theorem keepsClean_onStream (f : Stream → Stream) : Along KeepsClean (onStream f) :=
  along_modify fun _ => keepsClean_of_eq rfl

theorem keepsClean_next : Along KeepsClean next := by
  intro s
  cases hs : s.stream.ahead with
  | nil =>
    rw [after_ok (next_nil hs)]
    exact id
  | cons t rest =>
    rw [after_ok (next_cons hs)]
    exact keepsClean_of_eq rfl

theorem keepsClean_take (read : State → List Token → Reading α) : Along KeepsClean (take read) :=
  fun _ => keepsClean_of_eq rfl

theorem keepsClean_warn (warning : Warning) : Along KeepsClean (warn warning) :=
  along_modify fun _ => keepsClean_of_eq rfl

theorem Along.keepsClean (h : Along Takes m) : Along KeepsClean m :=
  h.mono fun _ _ ht => keepsClean_of_eq ht.dictionary_eq

theorem keepsClean_operand (operand : Operand) : Along KeepsClean (Scan.operand operand) := by
  by_cases h : operand = .number
  · subst h
    unfold Scan.operand number
    refine along_get_bind_of_forall fun s => ?_
    rcases s.stream.skipNumber with ⟨stream, ofCounter⟩
    refine (keepsClean_onStream _).bind steady_keepsClean fun _ => ?_
    cases ofCounter with
    | true => exact takes_argument.keepsClean.discard
    | false => exact along_pure steady_keepsClean ()
  · exact (takes_operand h).keepsClean

theorem keepsClean_operands (signature : Signature) : Along KeepsClean (operands signature) :=
  along_forM steady_keepsClean keepsClean_operand signature

theorem keepsClean_leadFrom (lead seen : List Token) : Along KeepsClean (leadFrom seen lead) := by
  intro s
  rcases leadFrom_run lead seen s with ⟨rest, -, hrun⟩ | ⟨-, stream, hrun, -⟩
  · rw [after_ok hrun]
    exact keepsClean_of_eq rfl
  · rw [after_ok hrun]
    exact keepsClean_of_eq rfl

theorem keepsClean_expand (name : String) (definition : Definition) :
    Along KeepsClean (expand name definition) := by
  have harguments : Along KeepsClean (callArguments definition) :=
    along_callArguments steady_keepsClean takes_argument.keepsClean
      takes_optionalArgument.keepsClean (fun _ => keepsClean_take _) definition
  unfold expand
  refine Along.bind steady_keepsClean ?_ fun tokens? => ?_
  · unfold expansion?
    refine (keepsClean_leadFrom _ _).bind steady_keepsClean fun fits => ?_
    split
    · exact harguments.bind steady_keepsClean fun _ => along_pure steady_keepsClean _
    · exact along_pure steady_keepsClean _
  · split
    · exact keepsClean_onStream _
    · exact keepsClean_warn _

end Scan

end ProofProse
