import ProofProse.Proofs.Respect
import ProofProse.Scan.Choice
import ProofProse.Scan.Declaration
import ProofProse.Scan.Expansion
import ProofProse.Scan.Inclusion

/-! # Reading and defining respect what they do not look at

Arguments, calls, branches, definitions and included files are read in the same way from states
that an indifferent relation relates. -/

namespace ProofProse

/-! ### Arguments that run out of a proof -/

theorem guarded_of_balancedFrom {guarded : Bool} : ∀ (tokens : List Token) (depth : Nat)
    (content : List Token) (count fileEnds : Nat),
    (balancedFrom guarded depth content count fileEnds tokens).result = .runaway →
      guarded = true := by
  intro tokens
  induction tokens with
  | nil =>
    intro depth content count fileEnds h
    cases h
  | cons t rest ih =>
    intro depth content count fileEnds h
    unfold balancedFrom at h
    cases t with
    | closeGroup =>
      cases depth with
      | zero => cases h
      | succ depth => exact ih _ _ _ _ h
    | control name =>
      dsimp only at h
      split at h
      · next hcloses => exact (Bool.and_eq_true_iff.mp hcloses).1
      · exact ih _ _ _ _ h
    | _ => exact ih _ _ _ _ h

theorem guarded_of_bracketedFrom {guarded : Bool} : ∀ (tokens : List Token)
    (brackets braces : Nat) (content : List Token) (count fileEnds : Nat),
    (bracketedFrom guarded brackets braces content count fileEnds tokens).result = .runaway →
      guarded = true := by
  intro tokens
  induction tokens with
  | nil =>
    intro brackets braces content count fileEnds h
    cases h
  | cons t rest ih =>
    intro brackets braces content count fileEnds h
    unfold bracketedFrom at h
    cases t with
    | closeGroup =>
      cases braces with
      | zero => cases h
      | succ braces => exact ih _ _ _ _ _ h
    | control name =>
      dsimp only at h
      split at h
      · next hcloses => exact (Bool.and_eq_true_iff.mp hcloses).1
      · exact ih _ _ _ _ _ h
    | char c =>
      dsimp only at h
      split at h
      · exact ih _ _ _ _ _ h
      · split at h
        · cases brackets with
          | zero => cases h
          | succ brackets => exact ih _ _ _ _ _ h
        · exact ih _ _ _ _ _ h
    | _ => exact ih _ _ _ _ _ h

namespace Scan

variable {limits : Prop} {R : State → State → Prop} (hR : Indifferent R)

include hR

/-! ### Arguments -/

theorem respects_guarded {read : Bool → List Token → Reading Argument}
    (hread : ∀ guarded tokens, (read guarded tokens).result = .runaway → guarded = true)
    (context : String) :
    Respects limits R (take (fun s => read s.inProof) >>= finishArgument context) := by
  have htake : Respects limits R (take fun s => read s.inProof) :=
    respects_take hR fun s t h => by rw [hR.inProof h]
  intro s t h
  refine (htake s t h).bind fun result u v hs _ huv => ?_
  cases result with
  | closed content => exact ⟨rfl, huv⟩
  | ended => exact respects_endOfTokens hR context u v huv
  | runaway =>
    refine ⟨rfl, huv, ?_⟩
    rw [take_ok] at hs
    obtain ⟨hresult, rfl⟩ := EStateM.Result.ok.inj hs
    exact hread _ _ hresult

theorem respects_balanced (context : String) : Respects limits R (balanced context) :=
  respects_guarded hR (fun _ tokens => guarded_of_balancedFrom tokens 0 [] 0 0) context

theorem respects_argument : Respects limits R argument := by
  unfold argument
  refine (respects_onStream hR _).bind fun _ => ?_
  refine (respects_next hR).bind fun t? => ?_
  split
  · exact respects_endOfTokens hR _
  · exact respects_balanced hR _
  · split
    · exact (respects_pushBackOne hR _).bind fun _ => respects_pure _
    · exact respects_pure _

theorem respects_argumentText : Respects limits R argumentText :=
  (respects_argument hR).bind fun _ => respects_pure _

theorem respects_optionalArgument : Respects limits R optionalArgument := by
  unfold optionalArgument
  refine respects_get_bind (fun s t h => by rw [hR.stream h]) fun s => ?_
  split
  · have hcontent : Respects limits R
        (take (fun s => readBracketed s.inProof) >>= finishArgument "optional argument") :=
      respects_guarded hR (fun _ tokens => guarded_of_bracketedFrom tokens 0 0 [] 0 0) _
    refine (respects_onStream hR _).bind fun _ => ?_
    have hrest := hcontent.bind fun content => respects_pure (R := R) (some content)
    rwa [bind_assoc] at hrest
  · exact respects_pure _

theorem respects_number : Respects limits R number := by
  refine respects_get_bind (fun s t h => by rw [hR.stream h]) fun s => ?_
  cases s.stream.skipNumber with
  | mk stream ofCounter =>
    refine (respects_onStream hR fun _ => stream).bind fun _ => ?_
    cases ofCounter with
    | false => exact respects_pure ()
    | true => exact (respects_argument hR).discard

theorem respects_operand (operand : Operand) : Respects limits R (Scan.operand operand) := by
  cases operand with
  | star => exact respects_onStream hR fun s => s.skipChar '*'
  | optional => exact (respects_optionalArgument hR).discard
  | mandatory => exact (respects_argument hR).discard
  | dimension => exact respects_onStream hR Stream.skipDimension
  | number => exact respects_number hR
  | equals => exact respects_onStream hR Stream.skipEquals

theorem respects_operands (signature : Signature) : Respects limits R (operands signature) :=
  respects_forM (respects_operand hR) signature

/-! ### Calls of definitions -/

theorem respects_leadFrom : ∀ lead seen : List Token, Respects limits R (leadFrom seen lead)
  | [], _ => respects_pure _
  | expected :: lead, seen => by
    unfold leadFrom
    refine (respects_next hR).bind fun t? => ?_
    split
    · exact (respects_pushBack hR _).bind fun _ => respects_pure _
    · split
      · exact respects_leadFrom lead _
      · exact (respects_pushBack hR _).bind fun _ => respects_pure _

theorem respects_parameterArgument (delimiter : List Token) :
    Respects limits R (parameterArgument delimiter) := by
  unfold parameterArgument
  split
  · exact (respects_argument hR).bind fun _ => respects_pure _
  · unfold delimited
    refine (respects_take hR fun _ _ _ => rfl).bind fun found => ?_
    split
    · exact respects_pure _
    · exact respects_pure _
    · exact respects_endOfTokens hR _

theorem respects_argumentsFrom : ∀ delimiters arguments : List (List Token),
    Respects limits R (argumentsFrom arguments delimiters)
  | [], _ => respects_pure _
  | delimiter :: delimiters, arguments => by
    unfold argumentsFrom
    refine (respects_parameterArgument hR delimiter).bind fun content? => ?_
    split
    · exact respects_pure _
    · exact respects_argumentsFrom delimiters _

theorem respects_callArguments (definition : Definition) :
    Respects limits R (callArguments definition) := by
  unfold callArguments
  split
  · exact (respects_optionalArgument hR).bind fun _ => respects_argumentsFrom hR _ _
  · exact respects_argumentsFrom hR _ _

theorem respects_expand (name : String) (definition : Definition) :
    Respects limits R (expand name definition) := by
  unfold expand
  refine Respects.bind ?_ fun expansion => ?_
  · unfold expansion?
    refine (respects_leadFrom hR _ _).bind fun fits => ?_
    split
    · exact (respects_callArguments hR definition).bind fun _ => respects_pure _
    · exact respects_pure _
  · split
    · exact respects_pushBack hR _
    · exact respects_warn hR _

/-! ### Conditionals -/

variable {setting : Setting}

theorem respects_skipBranch (atElse : Bool) : Respects limits R (skipBranch setting atElse) := by
  unfold skipBranch
  refine (respects_take hR fun s t h => by rw [hR.dictionary h]).bind fun ending => ?_
  split
  · exact respects_pure _
  · exact respects_fail fun _ => trivial
  · exact respects_fail fun _ => trivial

theorem respects_beginConditional (truth : Bool) :
    Respects limits R (beginConditional setting truth) := by
  unfold beginConditional
  split
  · exact respects_pure _
  · exact respects_skipBranch hR true

theorem respects_bareTest (name : String) : Respects limits R (bareTest setting name) := by
  unfold bareTest
  split
  · exact respects_beginConditional hR true
  · split
    · refine (respects_onStream hR _).bind fun _ => ?_
      refine (respects_peek hR).bind fun t? => ?_
      dsimp only
      split
      · exact (respects_onStream hR _).bind fun _ => respects_beginConditional hR _
      · exact respects_beginConditional hR _
    · exact respects_beginConditional hR false

theorem respects_choose (truth : Bool) : Respects limits R (choose truth) :=
  (respects_argument hR).bind fun _ => (respects_argument hR).bind fun _ => respects_pushBack hR _

theorem respects_setFlag (flag : String) (value : Bool) : Respects limits R (setFlag flag value) := by
  unfold setFlag
  split
  · exact respects_pure _
  · exact respects_onDictionary hR _

theorem respects_choice (kind : ChoiceKind) : Respects limits R (choice kind) := by
  have htext : Respects limits R argumentText := respects_argumentText hR
  have hchoose : ∀ truth, Respects limits R (choose truth) := respects_choose hR
  unfold choice
  cases kind with
  | ifThenElse =>
    refine (respects_argument hR).bind fun condition => ?_
    exact respects_get_bind (fun s t h => by rw [hR.dictionary h]) fun s => hchoose _
  | ifEqual =>
    refine (respects_onStream hR _).bind fun _ => ?_
    exact htext.bind fun _ => htext.bind fun _ => hchoose _
  | ifEmpty => exact htext.bind fun _ => hchoose _
  | ifFlag =>
    refine htext.bind fun flag => ?_
    exact respects_get_bind (fun s t h => by rw [hR.dictionary h]) fun s => hchoose _
  | setFlagTo => exact htext.bind fun _ => htext.bind fun _ => respects_setFlag hR _ _
  | setFlag value => exact htext.bind fun _ => respects_setFlag hR _ value
  | ifDefined byName defined =>
    refine (respects_argument hR).bind fun tokens => ?_
    exact respects_get_bind (fun s t h => by rw [hR.dictionary h]) fun s => hchoose _
  | untested signature => exact (respects_operands hR signature).bind fun _ => hchoose _

/-! ### Definitions -/

theorem respects_define (name : String) (definition : Definition) :
    Respects limits R (define name definition) := by
  unfold define
  refine respects_get_bind (fun s t h => by rw [hR.dictionary h]) fun s => ?_
  split
  · exact respects_onDictionary hR _
  · exact respects_warn hR _

theorem respects_arity : Respects limits R arity :=
  (respects_optionalArgument hR).bind fun _ => respects_pure _

theorem respects_defineCommand (unlessKnown : Bool) : Respects limits R (defineCommand unlessKnown) := by
  unfold defineCommand
  refine (respects_onStream hR _).bind fun _ => ?_
  refine (respects_argument hR).bind fun target => ?_
  refine (respects_arity hR).bind fun n => ?_
  refine (respects_optionalArgument hR).bind fun fallback => ?_
  refine (respects_argument hR).bind fun body => ?_
  split
  · exact respects_pure _
  · refine respects_get_bind (fun s t h => by rw [hR.dictionary h]) fun s => ?_
    split
    · exact respects_pure _
    · exact respects_define hR _ _

theorem respects_defineByText : Respects limits R defineByText := by
  have htext : ∀ name?, Respects limits R (defineWithText name?) := by
    intro name?
    unfold defineWithText
    refine (respects_take hR fun _ _ _ => rfl).bind fun text => ?_
    split
    · exact respects_pure _
    · exact respects_endOfTokens hR _
    · refine (respects_balanced hR _).bind fun body => ?_
      split
      · exact respects_pure _
      · exact respects_define hR _ _
  unfold defineByText
  refine (respects_next hR).bind fun t? => ?_
  split
  · exact respects_endOfTokens hR _
  · exact htext _
  · exact htext _
  · exact respects_pushBackOne hR _

theorem respects_copyName (new old : String) : Respects limits R (copyName new old) := by
  unfold copyName
  refine respects_get_bind (fun s t h => by rw [hR.dictionary h]) fun s => ?_
  dsimp only
  split
  · exact respects_define hR new _
  · split
    · split
      · exact respects_onDictionary hR _
      · exact respects_warn hR _
    · split
      · exact respects_pure _
      · exact respects_define hR new _

theorem respects_copy : Respects limits R copy := by
  unfold copy
  refine (respects_next hR).bind fun new? => ?_
  split
  · refine (respects_onStream hR _).bind fun _ => ?_
    refine (respects_next hR).bind fun target? => ?_
    split
    · split
      · exact respects_copyName hR _ _
      · exact respects_define hR _ _
      · exact respects_pure _
    · exact respects_endOfTokens hR _
  · exact respects_endOfTokens hR _

theorem respects_defineEnvironment (unlessKnown : Bool) :
    Respects limits R (defineEnvironment unlessKnown) := by
  unfold defineEnvironment
  refine (respects_onStream hR _).bind fun _ => ?_
  refine (respects_argumentText hR).bind fun name => ?_
  refine (respects_arity hR).bind fun n => ?_
  refine (respects_optionalArgument hR).bind fun fallback => ?_
  refine (respects_argument hR).bind fun opening => ?_
  refine (respects_argument hR).bind fun closing => ?_
  split
  · exact respects_pure _
  · split
    · exact respects_warn hR _
    · refine respects_get_bind (fun s t h => by rw [hR.dictionary h]) fun s => ?_
      split
      · exact respects_pure _
      · exact respects_onDictionary hR _

theorem respects_declaration (kind : DefinitionKind) : Respects limits R (declaration kind) := by
  cases kind with
  | newCommand => exact respects_defineCommand hR false
  | provideCommand => exact respects_defineCommand hR true
  | parameterText => exact respects_defineByText hR
  | copy => exact respects_copy hR
  | newEnvironment => exact respects_defineEnvironment hR false
  | provideEnvironment => exact respects_defineEnvironment hR true
  | newTest =>
    refine (respects_next hR).bind fun t? => ?_
    split
    · split
      · split
        · exact respects_pure _
        · exact respects_onDictionary hR _
      · exact respects_pure _
    · exact respects_pure _
  | newFlag =>
    refine (respects_argumentText hR).bind fun flag => ?_
    split
    · exact respects_pure _
    · exact respects_onDictionary hR _
  | mathOperator =>
    refine (respects_onStream hR _).bind fun _ => ?_
    refine (respects_argument hR).bind fun target => ?_
    refine (respects_argument hR).bind fun text => ?_
    split
    · exact respects_pure _
    · exact respects_define hR _ _
  | pairedDelimiter =>
    refine (respects_argument hR).bind fun target => ?_
    refine (respects_argument hR).bind fun left => ?_
    refine (respects_argument hR).bind fun right => ?_
    split
    · exact respects_pure _
    · exact respects_define hR _ _

/-! ### Included files -/

theorem respects_load (kind : InclusionKind) (target : String) :
    Respects limits R (load setting kind target) := by
  unfold load
  split
  · exact respects_pure _
  · refine respects_get_bind (fun s t h => by rw [hR.includes h]) fun s => ?_
    dsimp only
    split
    · exact (respects_warn hR _).bind fun _ => respects_pure _
    · split
      · exact respects_pure _
      · exact (respects_warn hR _).bind fun _ => respects_pure _

theorem respects_splice (found : Found) : Respects limits R (splice found) := by
  refine (respects_pushBack hR _).bind fun _ => respects_modify fun s t h => ?_
  have hread := hR.read h s.stream (s.includes.enter found.path)
  rw [← hR.includes h, ← hR.stream h] at *
  exact hread

theorem respects_followPackages : ∀ names : List String,
    Respects limits R (followPackages setting names)
  | [] => respects_pure ()
  | name :: names => by
    unfold followPackages
    refine (respects_load hR .package name).bind fun found? => ?_
    split
    · exact respects_splice hR _
    · exact respects_followPackages names

theorem respects_inputTarget : Respects limits R inputTarget := by
  unfold inputTarget
  refine (respects_onStream hR _).bind fun _ => ?_
  refine (respects_peek hR).bind fun t? => ?_
  split
  · exact respects_argumentText hR
  · refine respects_get_bind (fun s t h => by rw [hR.stream h]) fun s => ?_
    exact (respects_onStream hR _).bind fun _ => respects_pure _

theorem respects_inclusion (kind : InclusionKind) : Respects limits R (inclusion setting kind) := by
  cases kind with
  | documentClass =>
    refine (respects_operands hR _).bind fun _ => ?_
    exact (respects_optionalArgument hR).discard
  | package =>
    refine (respects_optionalArgument hR).discard.bind fun _ => ?_
    refine (respects_argumentText hR).bind fun names => ?_
    refine (respects_optionalArgument hR).discard.bind fun _ => ?_
    exact respects_followPackages hR _
  | input =>
    refine (respects_inputTarget hR).bind fun target => ?_
    refine (respects_load hR .input target).bind fun found? => ?_
    split
    · exact respects_splice hR _
    · exact respects_pure _

end Scan

end ProofProse
