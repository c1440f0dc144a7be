import ProofProse.Proofs.Consuming
import ProofProse.Proofs.Course.Round
import ProofProse.Proofs.Lookup

/-! # Flat streams

A token is flat when it is a character or a command that is not structural. Where all tokens ahead
are flat, an argument is the next token (`argument_flat`), nothing closes or runs out of anything,
and what a command reads is taken off the front and counted once (`State.Spends`); a command that
puts tokens back puts back some that it has taken (`State.Spent`). So a command without a
definition, unless it names a file, leaves fewer tokens than there were, all of them from those
ahead, and takes no more than were ahead (`spent_plainCommand`). With nothing behind it a command
leaves the stream as it is (`stays_plainCommand`). -/

namespace ProofProse

/-- A character, or a command that is not structural. -/
def Token.IsFlat : Token → Prop
  | .char _ => True
  | .control name => Structural.ofName? name = none
  | _ => False

namespace State

variable {s t u : State}

/-- All tokens ahead are flat. -/
def Flat (s : State) : Prop := ∀ x ∈ s.stream.ahead, x.IsFlat

/-- From a flat stream tokens are taken, and none is put back. -/
def Spends (s t : State) : Prop := s.Flat → s.stream.Passed (fun _ => True) t.stream

/-- From a flat stream no more tokens are taken than are ahead, and what is ahead then is from it.
-/
def Spent (s t : State) : Prop :=
  s.Flat → (∀ x ∈ t.stream.ahead, x ∈ s.stream.ahead) ∧
    t.stream.ahead.length ≤ s.stream.ahead.length ∧
    t.consumed ≤ s.consumed + s.stream.ahead.length

theorem flat_of_nil (hs : s.stream.ahead = []) : s.Flat := by
  unfold Flat
  rw [hs]
  exact nofun

theorem Flat.passed {stream : Stream} {p : Token → Prop} (h : s.Flat)
    (hpassed : s.stream.Passed p stream) : ∀ x ∈ stream.ahead, x.IsFlat := by
  obtain ⟨taken, hs, -, -⟩ := hpassed
  intro x hx
  exact h x (by rw [hs]; exact List.mem_append_right taken hx)

theorem spends_of_passed {p : Token → Prop} (h : s.stream.Passed p t.stream) : s.Spends t :=
  fun _ => h.mono fun _ _ => trivial

theorem spends_of_stream_eq (h : t.stream = s.stream) : s.Spends t := by
  refine spends_of_passed (p := fun _ => True) ?_
  rw [h]
  exact Stream.Passed.refl _ _

theorem steady_spends : Steady Spends where
  refl _ := spends_of_stream_eq rfl
  trans h h' hs := (h hs).trans (h' (hs.passed (h hs)))

theorem Spends.spent (h : s.Spends t) : s.Spent t := by
  intro hs
  obtain ⟨taken, hahead, hconsumed, -⟩ := h hs
  have hlength := congrArg List.length hahead
  rw [List.length_append] at hlength
  refine ⟨fun x hx => ?_, by omega, ?_⟩
  · rw [hahead]
    exact List.mem_append_right taken hx
  · show t.stream.consumed ≤ s.stream.consumed + _
    omega

theorem Spends.trans_spent (h : s.Spends t) (h' : t.Spent u) : s.Spent u := by
  intro hs
  obtain ⟨taken, hahead, hconsumed, -⟩ := h hs
  obtain ⟨hmem, hless, htaken⟩ := h' (hs.passed (h hs))
  have hlength := congrArg List.length hahead
  rw [List.length_append] at hlength
  refine ⟨fun x hx => ?_, by omega, ?_⟩
  · rw [hahead]
    exact List.mem_append_right taken (hmem x hx)
  · have htaken : u.consumed ≤ t.stream.consumed + t.stream.ahead.length := htaken
    show u.consumed ≤ s.stream.consumed + _
    omega

/-- With nothing ahead, nothing is taken and nothing put there. -/
def Stays (s t : State) : Prop := s.stream.ahead = [] → t.stream = s.stream

theorem steady_stays : Steady Stays where
  refl _ _ := rfl
  trans h h' hs := (h' (by rw [h hs]; exact hs)).trans (h hs)

theorem Spent.stays (h : s.Spent t) (hconsumed : s.consumed ≤ t.consumed) : s.Stays t := by
  intro hs
  obtain ⟨-, hlength, htaken⟩ := h (flat_of_nil hs)
  rw [hs, List.length_nil] at hlength htaken
  have ht : t.stream.ahead = [] := List.length_eq_zero_iff.mp (Nat.le_zero.mp hlength)
  have hcount : t.stream.consumed = s.stream.consumed := Nat.le_antisymm htaken hconsumed
  calc t.stream = ⟨t.stream.ahead, t.stream.consumed⟩ := rfl
    _ = ⟨s.stream.ahead, s.stream.consumed⟩ := by rw [ht, hcount, hs]

theorem Spends.stays (h : s.Spends t) : s.Stays t := fun hs =>
  h.spent.stays (h (flat_of_nil hs)).consumed_le hs

end State

theorem passes_bracketedFrom {guarded : Bool} : ∀ (tokens : List Token) (brackets : Nat)
    (content : List Token) (count fileEnds : Nat), (∀ x ∈ tokens, x.IsFlat) →
    (bracketedFrom guarded brackets 0 content count fileEnds tokens).Passes count tokens := by
  intro tokens
  induction tokens with
  | nil => exact fun brackets content count fileEnds _ => Reading.passes_here _
  | cons t rest ih =>
    intro brackets content count fileEnds h
    have hrest : ∀ x ∈ rest, x.IsFlat := fun x hx => h x (List.mem_cons_of_mem t hx)
    have ht : t.IsFlat := h t List.mem_cons_self
    unfold bracketedFrom
    cases t with
    | char c =>
      dsimp only
      split
      · exact .cons (ih _ _ _ _ hrest)
      split
      · cases brackets with
        | zero => exact .cons (Reading.passes_here _)
        | succ brackets => exact .cons (ih _ _ _ _ hrest)
      · exact .cons (ih _ _ _ _ hrest)
    | control name =>
      have hend : (name == "end") = false :=
        beq_eq_false_iff_ne.mpr (Structural.ne_of_ofName? ht (by decide))
      dsimp only
      unfold closesProof
      rw [hend, Bool.false_and, Bool.and_false, if_neg Bool.false_ne_true]
      exact .cons (ih _ _ _ _ hrest)
    | _ => exact ht.elim

theorem parameterTextFrom_ne_found : ∀ (tokens : List Token) (text : PartialText)
    (seen : List Token) (count : Nat), (∀ x ∈ tokens, x.IsFlat) → ∀ lead delimiters,
    (parameterTextFrom text seen count tokens).result ≠ .found lead delimiters := by
  intro tokens
  induction tokens with
  | nil =>
    intro text seen count _ lead delimiters hfound
    unfold parameterTextFrom at hfound
    split at hfound
    · cases hfound
    · cases hfound
  | cons t rest ih =>
    intro text seen count h lead delimiters
    have hrest : ∀ x ∈ rest, x.IsFlat := fun x hx => h x (List.mem_cons_of_mem t hx)
    have ht : t.IsFlat := h t List.mem_cons_self
    unfold parameterTextFrom
    split
    · intro hfound
      cases hfound
    · cases t with
      | char c => exact ih _ _ _ hrest lead delimiters
      | control name => exact ih _ _ _ hrest lead delimiters
      | _ => exact ht.elim

namespace Scan

open State

variable {setting : Setting} {α β : Type} {m : Scan α} {s : State}

/-! ### Parts of commands -/

theorem Along.bind_spent {f : α → Scan β} (hm : Along Spends m) (hf : ∀ a, Along Spent (f a)) :
    Along Spent (m >>= f) := by
  intro s
  have hms := hm s
  cases h : m s with
  | ok a t =>
    rw [after_ok h] at hms
    rw [after_bind_ok h]
    exact hms.trans_spent (hf a t)
  | error i t =>
    rw [after_error h] at hms
    rw [after_bind_error h]
    exact hms.spent

theorem Along.spent (h : Along Spends m) : Along Spent m := h.mono fun _ _ => Spends.spent

theorem spends_pure (a : α) : Along Spends (pure a : Scan α) := along_pure steady_spends a

theorem spends_endOfTokens (context : String) : Along Spends (endOfTokens context : Scan α) :=
  along_endOfTokens steady_spends context

theorem spends_onStream {f : Stream → Stream} {p : Token → Prop}
    (h : ∀ s : Stream, s.Passed p (f s)) : Along Spends (onStream f) :=
  along_modify fun s => spends_of_passed (h s.stream)

theorem spends_skip (n : Nat) : Along Spends (onStream (·.skip n)) :=
  spends_onStream (p := fun _ => True) fun _ => Stream.passed_skip n fun _ _ => trivial

theorem spends_modify {f : State → State} (h : ∀ s, (f s).stream = s.stream) :
    Along Spends (modify f) :=
  along_modify fun s => spends_of_stream_eq (h s)

theorem spends_warn (warning : Warning) : Along Spends (warn warning) := spends_modify fun _ => rfl

theorem spends_emit (fragment : Fragment) : Along Spends (emit fragment) := by
  refine spends_modify fun s => ?_
  unfold State.emit
  split <;> rfl

theorem spends_onDictionary (f : Dictionary → Dictionary) : Along Spends (onDictionary f) :=
  spends_modify fun _ => rfl

theorem spends_next : Along Spends next := by
  intro s
  cases hs : s.stream.ahead with
  | nil =>
    rw [after_ok (next_nil hs)]
    exact steady_spends.refl s
  | cons x rest =>
    rw [after_ok (next_cons hs)]
    exact spends_of_passed (p := fun _ => True) ⟨[x], hs, rfl, by simp⟩

theorem spends_take {read : State → List Token → Reading α}
    (h : ∀ s, s.Flat → (read s s.stream.ahead).Passes 0 s.stream.ahead) :
    Along Spends (take read) := by
  intro s hs
  obtain ⟨taken, hahead, hcount⟩ := h s hs
  refine ⟨taken, hahead, ?_, fun _ _ => trivial⟩
  show s.stream.consumed + (read s s.stream.ahead).count = _
  rw [hcount, Nat.zero_add]

/-! ### Arguments -/

/-- In front of a flat token, and where nothing is ahead, no spaces are skipped. -/
theorem skipSpaces_flat (hs : ∀ x ∈ s.stream.ahead.head?, x.IsFlat) :
    onStream Stream.skipSpaces s = .ok () s := by
  refine onStream_ok (Stream.skipWhile_of_head fun x hx => ?_)
  have hflat := hs x hx
  cases x with
  | space => exact hflat.elim
  | _ => rfl

theorem argument_nil (hs : s.stream.ahead = []) :
    argument s = .error (s.endInterrupt "argument") s := by
  have hspaces : onStream Stream.skipSpaces s = .ok () s := skipSpaces_flat (by rw [hs]; nofun)
  unfold argument
  rw [bind_ok hspaces, bind_ok (next_nil hs)]
  rfl

theorem argument_flat {x : Token} {rest : List Token} (hs : s.stream.ahead = x :: rest)
    (hx : x.IsFlat) :
    argument s = .ok [x] { s with stream := ⟨rest, s.consumed + 1⟩ } := by
  have hspaces : onStream Stream.skipSpaces s = .ok () s := by
    refine skipSpaces_flat fun y hy => ?_
    rw [hs, List.head?_cons, Option.mem_some_iff] at hy
    rwa [← hy]
  unfold argument
  rw [bind_ok hspaces, bind_ok (next_cons hs)]
  cases x with
  | char c => rfl
  | control name =>
    have hbegin : (name == "begin") = false :=
      beq_eq_false_iff_ne.mpr (Structural.ne_of_ofName? hx (by decide))
    have hend : (name == "end") = false :=
      beq_eq_false_iff_ne.mpr (Structural.ne_of_ofName? hx (by decide))
    have hboundary : isBoundary (.control name) = false := by
      show (name == "begin" || name == "end") = false
      rw [hbegin, hend, Bool.or_false]
    dsimp only
    rw [hboundary, if_neg Bool.false_ne_true]
    rfl
  | _ => exact hx.elim

theorem spends_argument : Along Spends argument := by
  intro s hs
  cases hahead : s.stream.ahead with
  | nil =>
    rw [after_error (argument_nil hahead)]
    exact Stream.Passed.refl _ _
  | cons x rest =>
    have hx : x.IsFlat := hs x (by rw [hahead]; exact List.mem_cons_self)
    rw [after_ok (argument_flat hahead hx)]
    exact ⟨[x], hahead, rfl, fun _ _ => trivial⟩

theorem spends_argumentText : Along Spends argumentText :=
  spends_argument.bind steady_spends fun _ => spends_pure _

theorem spends_optionalArgument : Along Spends optionalArgument := by
  refine along_get_bind_of_forall fun s => ?_
  split
  · refine (spends_skip _).bind steady_spends fun _ => ?_
    refine Along.bind steady_spends (spends_take fun s hs => ?_) fun found => ?_
    · exact passes_bracketedFrom _ 0 [] 0 0 hs
    · refine Along.bind steady_spends ?_ fun _ => spends_pure _
      cases found with
      | closed content => exact spends_pure content
      | runaway => exact along_drop steady_spends _
      | ended => exact spends_endOfTokens _
  · exact spends_pure _

theorem spends_number : Along Spends number := by
  refine along_get_bind fun s => ?_
  have hnumber := Stream.passed_skipNumber s.stream
  cases h : s.stream.skipNumber with
  | mk stream ofCounter =>
    rw [h] at hnumber
    have hrest : Along Spends (if ofCounter then discard argument else pure () : Scan Unit) := by
      split
      · exact spends_argument.discard
      · exact spends_pure ()
    have hread : s.Spends { s with stream := stream } := spends_of_passed hnumber
    exact steady_spends.trans hread (hrest _)

theorem spends_operands (signature : Signature) : Along Spends (operands signature) := by
  refine along_forM steady_spends (fun kind => ?_) signature
  cases kind with
  | star => exact spends_onStream fun s => s.passed_skipChar '*'
  | optional => exact spends_optionalArgument.discard
  | mandatory => exact spends_argument.discard
  | dimension => exact spends_onStream Stream.passed_skipDimension
  | number => exact spends_number
  | equals => exact spends_onStream Stream.passed_skipEquals

/-! ### Conditionals -/

theorem spends_skipBranch (atElse : Bool) : Along Spends (skipBranch setting atElse) := by
  refine Along.bind steady_spends (spends_take fun s _ => ?_) fun ending => ?_
  · exact passes_branchFrom _ _ atElse s.stream.ahead false 0 0 0
  · split
    · exact spends_pure _
    · exact along_fail steady_spends _
    · exact along_fail steady_spends _

theorem spends_beginConditional (truth : Bool) :
    Along Spends (beginConditional setting truth) := by
  unfold beginConditional
  split
  · exact spends_pure _
  · exact spends_skipBranch true

theorem spends_bareTest (name : String) : Along Spends (bareTest setting name) := by
  unfold bareTest
  split
  · exact spends_beginConditional true
  split
  · refine (spends_onStream Stream.passed_skipSpaces).bind steady_spends fun _ => ?_
    refine (along_peek steady_spends).bind steady_spends fun t? => ?_
    dsimp only
    split
    · exact (spends_skip 1).bind steady_spends fun _ => spends_beginConditional _
    · exact spends_beginConditional _
  · exact spends_beginConditional false

theorem spent_choose (truth : Bool) : Along Spent (choose truth) := by
  intro s hs
  unfold choose
  cases hahead : s.stream.ahead with
  | nil =>
    rw [after_bind_error (argument_nil hahead), hahead]
    exact ⟨fun _ hx => hx, Nat.le_refl _, Nat.le_refl _⟩
  | cons x tail =>
    have hx : x.IsFlat := hs x (by rw [hahead]; exact List.mem_cons_self)
    rw [after_bind_ok (argument_flat hahead hx)]
    cases tail with
    | nil =>
      rw [after_bind_error (argument_nil rfl)]
      exact ⟨nofun, Nat.zero_le _, Nat.le_refl _⟩
    | cons y rest =>
      have hy : y.IsFlat := hs y (by rw [hahead]; simp)
      rw [after_bind_ok (argument_flat rfl hy)]
      have hchosen : ∀ z, z = x ∨ z = y → (∀ w ∈ z :: rest, w ∈ x :: y :: rest) ∧
          rest.length + 1 ≤ (x :: y :: rest).length ∧
          s.consumed + 1 + 1 ≤ s.consumed + (x :: y :: rest).length := by
        intro z hz
        simp only [List.length_cons]
        refine ⟨fun w hw => ?_, by omega, by omega⟩
        rcases List.mem_cons.mp hw with rfl | hw
        · rcases hz with rfl | rfl
          · exact List.mem_cons_self
          · exact List.mem_cons_of_mem _ List.mem_cons_self
        · exact List.mem_cons_of_mem _ (List.mem_cons_of_mem _ hw)
      cases truth with
      | true => exact hchosen x (.inl rfl)
      | false => exact hchosen y (.inr rfl)

theorem spends_setFlag (flag : String) (value : Bool) : Along Spends (setFlag flag value) := by
  unfold setFlag
  split
  · exact spends_pure _
  · exact spends_onDictionary _

theorem spent_choice (kind : ChoiceKind) : Along Spent (choice kind) := by
  have htext : Along Spends argumentText := spends_argumentText
  have hchoose : ∀ truth, Along Spent (choose truth) := spent_choose
  cases kind with
  | ifThenElse =>
    refine spends_argument.bind_spent fun condition => ?_
    exact along_get_bind_of_forall fun s => hchoose _
  | ifEqual =>
    refine (spends_onStream fun s => s.passed_skipChar '*').bind_spent fun _ => ?_
    exact htext.bind_spent fun _ => htext.bind_spent fun _ => hchoose _
  | ifEmpty => exact htext.bind_spent fun _ => hchoose _
  | ifFlag =>
    refine htext.bind_spent fun flag => ?_
    exact along_get_bind_of_forall fun s => hchoose _
  | setFlagTo =>
    exact htext.bind_spent fun _ => htext.bind_spent fun _ => (spends_setFlag _ _).spent
  | setFlag value => exact htext.bind_spent fun _ => (spends_setFlag _ value).spent
  | ifDefined byName defined =>
    refine spends_argument.bind_spent fun tokens => ?_
    exact along_get_bind_of_forall fun s => hchoose _
  | untested signature => exact (spends_operands signature).bind_spent fun _ => hchoose _

/-! ### Definitions -/

theorem spends_define (name : String) (definition : Definition) :
    Along Spends (define name definition) := by
  refine along_get_bind_of_forall fun s => ?_
  split
  · exact spends_onDictionary _
  · exact spends_warn _

theorem spends_arity : Along Spends arity :=
  spends_optionalArgument.bind steady_spends fun _ => spends_pure _

theorem spends_defineCommand (unlessKnown : Bool) : Along Spends (defineCommand unlessKnown) := by
  have hstar : Along Spends (onStream (·.skipChar '*')) :=
    spends_onStream fun s => s.passed_skipChar '*'
  refine hstar.bind steady_spends fun _ => ?_
  refine spends_argument.bind steady_spends fun target => ?_
  refine spends_arity.bind steady_spends fun n => ?_
  refine spends_optionalArgument.bind steady_spends fun fallback => ?_
  refine spends_argument.bind steady_spends fun body => ?_
  split
  · exact spends_pure _
  · refine along_get_bind_of_forall fun s => ?_
    split
    · exact spends_pure _
    · exact spends_define _ _

/-- A parameter text is not found; what was taken for it goes back, or the tokens have run out. -/
theorem spent_defineWithText (name? : Option String) : Along Spent (defineWithText name?) := by
  intro s hs
  have hdraws : (readParameterText s.stream.ahead).Draws [] 0 s.stream.ahead :=
    draws_parameterTextFrom s.stream.ahead {} [] 0
  have hnone := parameterTextFrom_ne_found s.stream.ahead {} [] 0 hs
  have htaken : Spent s (after (take fun _ => readParameterText) s) :=
    fun _ => ⟨fun x hx => hdraws.suffix.subset hx, hdraws.suffix.length_le,
      Nat.add_le_add_left hdraws.count_le s.consumed⟩
  have hafter : after (defineWithText name?) s = after (take fun _ => readParameterText) s := by
    unfold defineWithText
    rw [after_bind_ok (take_ok _ _)]
    cases hresult : (readParameterText s.stream.ahead).result with
    | lost => rfl
    | ended => rfl
    | found lead delimiters => exact absurd hresult (hnone lead delimiters)
  rw [hafter]
  exact htaken hs

theorem spent_defineByText : Along Spent defineByText := by
  intro s
  unfold defineByText
  cases hahead : s.stream.ahead with
  | nil =>
    rw [after_bind_ok (next_nil hahead)]
    exact (steady_spends.refl s).spent
  | cons x rest =>
    intro hs
    have hx : x.IsFlat := hs x (by rw [hahead]; exact List.mem_cons_self)
    have hnext : s.Spends { s with stream := ⟨rest, s.consumed + 1⟩ } :=
      spends_of_passed (p := fun _ => True) ⟨[x], hahead, rfl, by simp⟩
    rw [after_bind_ok (next_cons hahead)]
    cases x with
    | char c =>
      rw [hahead]
      refine ⟨fun _ hy => hy, Nat.le_refl _, ?_⟩
      show s.consumed + 1 ≤ s.consumed + (rest.length + 1)
      omega
    | control name => exact hnext.trans_spent (spent_defineWithText (some name) _) hs
    | _ => exact hx.elim

theorem spends_copy : Along Spends copy := by
  have hcopy : ∀ new old, Along Spends (copyName new old) := by
    intro new old
    refine along_get_bind_of_forall fun s => ?_
    dsimp only
    split
    · exact spends_define new _
    split
    · split
      · exact spends_onDictionary _
      · exact spends_warn _
    · split
      · exact spends_pure _
      · exact spends_define new _
  unfold copy
  refine spends_next.bind steady_spends fun new? => ?_
  split
  · refine (spends_onStream passed_skipCopySign).bind steady_spends fun _ => ?_
    refine spends_next.bind steady_spends fun target? => ?_
    split
    · split
      · exact hcopy _ _
      · exact spends_define _ _
      · exact spends_pure _
    · exact spends_endOfTokens _
  · exact spends_endOfTokens _

theorem spends_defineEnvironment (unlessKnown : Bool) :
    Along Spends (defineEnvironment unlessKnown) := by
  have hstar : Along Spends (onStream (·.skipChar '*')) :=
    spends_onStream fun s => s.passed_skipChar '*'
  refine hstar.bind steady_spends fun _ => ?_
  refine spends_argumentText.bind steady_spends fun name => ?_
  refine spends_arity.bind steady_spends fun n => ?_
  refine spends_optionalArgument.bind steady_spends fun fallback => ?_
  refine spends_argument.bind steady_spends fun opening => ?_
  refine spends_argument.bind steady_spends fun closing => ?_
  split
  · exact spends_pure _
  split
  · exact spends_warn _
  · refine along_get_bind_of_forall fun s => ?_
    split
    · exact spends_pure _
    · exact spends_onDictionary _

theorem spends_declareTest : Along Spends declareTest := by
  refine spends_next.bind steady_spends fun t? => ?_
  split
  · split
    · split
      · exact spends_pure _
      · exact spends_onDictionary _
    · exact spends_pure _
  · exact spends_pure _

theorem spent_declaration (kind : DefinitionKind) : Along Spent (declaration kind) := by
  cases kind with
  | newCommand => exact (spends_defineCommand false).spent
  | provideCommand => exact (spends_defineCommand true).spent
  | parameterText => exact spent_defineByText
  | copy => exact spends_copy.spent
  | newEnvironment => exact (spends_defineEnvironment false).spent
  | provideEnvironment => exact (spends_defineEnvironment true).spent
  | newTest => exact spends_declareTest.spent
  | newFlag =>
    refine Along.spent (spends_argumentText.bind steady_spends fun flag => ?_)
    split
    · exact spends_pure _
    · exact spends_onDictionary _
  | mathOperator =>
    have hstar : Along Spends (onStream (·.skipChar '*')) :=
      spends_onStream fun s => s.passed_skipChar '*'
    refine Along.spent (hstar.bind steady_spends fun _ => ?_)
    refine spends_argument.bind steady_spends fun target => ?_
    refine spends_argument.bind steady_spends fun text => ?_
    split
    · exact spends_pure _
    · exact spends_define _ _
  | pairedDelimiter =>
    refine Along.spent (spends_argument.bind steady_spends fun target => ?_)
    refine spends_argument.bind steady_spends fun left => ?_
    refine spends_argument.bind steady_spends fun right => ?_
    split
    · exact spends_pure _
    · exact spends_define _ _

/-! ### Commands -/

theorem spends_accented (mark : Char) : Along Spends (accented mark) := by
  refine spends_argument.bind steady_spends fun content => ?_
  unfold emitText
  dsimp only
  split
  · exact spends_pure _
  · exact spends_emit _

theorem spends_textInMath : Along Spends textInMath := by
  refine spends_argument.bind steady_spends fun content => ?_
  split
  · exact spends_modify fun _ => rfl
  · exact spends_pure _

theorem spends_mathInProse (command : String) : Along Spends (mathInProse command) := by
  refine along_get_bind_of_forall fun s => ?_
  split
  · exact along_drop steady_spends _
  · exact spends_pure _

/-- An effect reads from a flat stream what it needs, unless it names a file. -/
theorem spent_applyEffect (name : String) {effect : Effect}
    (heffect : ∀ kind, effect ≠ .inclusion kind) : Along Spent (applyEffect setting name effect) := by
  cases effect with
  | silent signature => exact (spends_operands signature).spent
  | placeholder kind signature =>
    exact (spends_operands signature).bind_spent fun _ => (spends_emit _).spent
  | literal text => exact (spends_emit _).spent
  | gap signature => exact (spends_operands signature).bind_spent fun _ => (spends_emit _).spent
  | accent mark => exact (spends_accented mark).spent
  | definition kind => exact spent_declaration kind
  | choice kind => exact spent_choice kind
  | inclusion kind => exact absurd rfl (heffect kind)
  | mathText =>
    refine along_get_bind_of_forall fun s => ?_
    split
    · exact spends_textInMath.spent
    · exact (spends_pure _).spent
  | mathOnly =>
    refine along_get_bind_of_forall fun s => ?_
    split
    · exact (spends_mathInProse name).spent
    · exact (spends_pure _).spent

/-- A command without a definition, by what it does: it sets or tests a flag, or has an effect. -/
theorem plainCommand_cases {name : String} {P : State → Prop}
    (hfind : s.dictionary.find? name = none)
    (hflag : ∀ f, P (after (onDictionary f) s))
    (htest : ∀ truth, P (after (beginConditional setting truth) s))
    (hbare : P (after (bareTest setting name) s))
    (heffect : ∀ effect, Effect.ofName? name = some effect →
      P (after (applyEffect setting name effect) s))
    (hnothing : P s) : P (after (plainCommand setting name) s) := by
  rw [plainCommand_eq, after_get_bind]
  have hmeans := s.dictionary.means_meaning name
  generalize s.dictionary.meaning name = meaning at hmeans
  cases hmeans with
  | defined hsome =>
    rw [hfind] at hsome
    cases hsome
  | @flagSetting flag value => exact hflag fun dictionary => (dictionary.setFlag flag value).1
  | flagTest => exact htest _
  | bareTest => exact hbare
  | effect _ _ _ _ hname => exact heffect _ hname
  | nothing => exact hnothing

/-- **A command without a definition** takes no more from a flat stream than is ahead, and leaves no
more there, unless it names a file. -/
theorem spent_plainCommand {name : String} (hfind : s.dictionary.find? name = none)
    (hinclusion : ∀ kind, Effect.ofName? name ≠ some (.inclusion kind)) :
    s.Spent (after (plainCommand setting name) s) := by
  refine plainCommand_cases hfind (fun f => (spends_onDictionary f).spent s)
    (fun truth => (spends_beginConditional truth).spent s) ((spends_bareTest name).spent s)
    (fun effect h => ?_) (steady_spends.refl s).spent
  refine spent_applyEffect name (fun kind heq => ?_) s
  rw [heq] at h
  exact hinclusion kind h

/-! ### Commands with nothing behind them -/

theorem Along.stays (h : Along Spends m) : Along Stays m := h.mono fun _ _ => Spends.stays

theorem optionalArgument_nil (hs : s.stream.ahead = []) : optionalArgument s = .ok none s := by
  have hpast : s.stream.pastSpaces? = none := by
    unfold Stream.pastSpaces?
    rw [hs]
    rfl
  unfold optionalArgument
  rw [bind_ok (m := get) (a := s) (t := s) rfl, hpast]
  rfl

theorem load_empty (kind : InclusionKind) (s : State) : load setting kind "" s = .ok none s := by
  unfold load passesOver
  rfl

theorem inputTarget_nil (hs : s.stream.ahead = []) : inputTarget s = .ok "" s := by
  have hskip : ∀ p, onStream (·.skipWhile p) s = .ok () s :=
    fun p => onStream_ok (Stream.skipWhile_of_head (by rw [hs]; nofun))
  have hpeek : peek s = .ok none s := by
    unfold peek Stream.peek?
    rw [hs]
    rfl
  unfold inputTarget
  have hspaces : onStream Stream.skipSpaces s = .ok () s := hskip Token.isSpace
  rw [bind_ok hspaces, bind_ok hpeek]
  dsimp only
  rw [bind_ok (m := get) (a := s) (t := s) rfl, bind_ok (hskip isCharToken), hs]
  rfl

theorem stays_inclusion (kind : InclusionKind) : Along Stays (inclusion setting kind) := by
  cases kind with
  | documentClass =>
    have hoperands : Along Spends (operands [.optional, .mandatory]) := spends_operands _
    exact (hoperands.bind steady_spends fun _ => spends_optionalArgument.discard).stays
  | package =>
    intro s hs
    have htext : argumentText s = .error (s.endInterrupt "argument") s :=
      bind_error (argument_nil hs)
    unfold inclusion
    rw [after_bind_ok (discard_ok (optionalArgument_nil hs)), after_bind_error htext]
  | input =>
    intro s hs
    unfold inclusion
    rw [after_bind_ok (inputTarget_nil hs), after_bind_ok (load_empty .input s)]
    rfl

/-- **A command without a definition** leaves the stream as it is when nothing is behind it. -/
theorem stays_plainCommand {name : String} (hfind : s.dictionary.find? name = none) :
    s.Stays (after (plainCommand setting name) s) := by
  have hcourse : s.consumed ≤ (after (plainCommand setting name) s).consumed :=
    (course_plainCommand name s : Course setting s _).consumed_le
  by_cases hinclusion : ∃ kind, Effect.ofName? name = some (.inclusion kind)
  · obtain ⟨kind, hkind⟩ := hinclusion
    refine plainCommand_cases hfind (fun f => (spends_onDictionary f).stays s)
      (fun truth => (spends_beginConditional truth).stays s) ((spends_bareTest name).stays s)
      (fun effect h => ?_) (steady_stays.refl s)
    obtain rfl : effect = .inclusion kind := Option.some.inj (h.symm.trans hkind)
    exact stays_inclusion kind s
  · have hspent : s.Spent (after (plainCommand setting name) s) :=
      spent_plainCommand hfind fun kind h => hinclusion ⟨kind, h⟩
    exact hspent.stays hcourse

end Scan

end ProofProse
