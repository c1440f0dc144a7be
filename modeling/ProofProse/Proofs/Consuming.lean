import ProofProse.Extraction
import ProofProse.Proofs.Taking

/-! # Loops that only consume

The scan aside, all loops of the interpreter read tokens off the front of what is ahead. Each token
is taken once, in order, and counted, and nothing is pushed while a loop runs (`Reading.Passes`).
Where arguments end, some of the last tokens taken may be put back (`Reading.Draws`), or the one
control sequence that was to be made is put in front (`Reading.Makes`). Reading the arguments of a
call or the operands of a command only shortens what is ahead as well (`State.Shortens`), and a
condition is read to its end within its length (`Condition.readFrom_of_le`). `LoopsOnlyConsume`
collects this for all of them. -/

namespace ProofProse

namespace Reading

variable {α : Type} {seen tokens rest : List Token} {count fileEnds : Nat} {t : Token}
  {reading : Reading α}

/-- Some tokens are taken off the front, each counted once. -/
def Passes (count : Nat) (tokens : List Token) (reading : Reading α) : Prop :=
  ∃ taken, tokens = taken ++ reading.rest ∧ reading.count = count + taken.length

/-- Behind the tokens `seen` some more are taken off the front of `tokens`, each counted once, and
some of the last ones are put back. -/
def Draws (seen : List Token) (count : Nat) (tokens : List Token) (reading : Reading α) : Prop :=
  ∃ taken left back, tokens = taken ++ left ∧ reading.count = count + taken.length ∧
    reading.rest = back ++ left ∧ back <:+ seen ++ taken

/-- The same, but a single control sequence may be put in front instead. -/
def Makes (seen : List Token) (count : Nat) (tokens : List Token) (reading : Reading α) : Prop :=
  Draws seen count tokens reading ∨
    ∃ taken left name, tokens = taken ++ left ∧ reading.count = count + taken.length ∧
      reading.rest = .control name :: left

theorem passes_here (result : α) : Passes count tokens ⟨result, tokens, count, fileEnds⟩ :=
  ⟨[], rfl, rfl⟩

theorem Passes.append {group : List Token} (h : Passes (count + group.length) rest reading) :
    Passes count (group ++ rest) reading := by
  obtain ⟨taken, hrest, hcount⟩ := h
  refine ⟨group ++ taken, by rw [hrest, List.append_assoc], ?_⟩
  rw [hcount, List.length_append]
  omega

theorem Passes.cons (h : Passes (count + 1) rest reading) : Passes count (t :: rest) reading :=
  @Passes.append _ _ _ _ [t] h

theorem Passes.suffix (h : Passes count tokens reading) : reading.rest <:+ tokens := by
  obtain ⟨taken, htokens, -⟩ := h
  exact ⟨taken, htokens.symm⟩

theorem draws_back {back : List Token} (hback : back <:+ seen) (result : α) :
    Draws seen count tokens ⟨result, back ++ tokens, count, fileEnds⟩ :=
  ⟨[], tokens, back, rfl, rfl, rfl, by rwa [List.append_nil]⟩

theorem draws_here (result : α) : Draws seen count tokens ⟨result, tokens, count, fileEnds⟩ :=
  draws_back List.nil_suffix result

theorem draws_append (group : List Token) (result : α) :
    Draws seen count (group ++ rest) ⟨result, rest, count + group.length, fileEnds⟩ :=
  ⟨group, rest, [], rfl, rfl, rfl, List.nil_suffix⟩

theorem Draws.cons (h : Draws (seen ++ [t]) (count + 1) rest reading) :
    Draws seen count (t :: rest) reading := by
  obtain ⟨taken, left, back, hrest, hcount, hleft, hback⟩ := h
  refine ⟨t :: taken, left, back, by rw [hrest]; rfl, ?_, hleft, ?_⟩
  · rw [hcount, List.length_cons]
    omega
  · rwa [List.append_assoc] at hback

theorem Draws.cons_reverse {content : List Token}
    (h : Draws (t :: content).reverse (count + 1) rest reading) :
    Draws content.reverse count (t :: rest) reading := by
  rw [List.reverse_cons] at h
  exact h.cons

theorem draws_allBack (content : List Token) (result : α) :
    Draws content.reverse count [] ⟨result, content.reverse, count, fileEnds⟩ :=
  ⟨[], [], content.reverse, rfl, rfl, (List.append_nil _).symm, by simp⟩

theorem draws_putBack (result : α) :
    Draws seen count (t :: rest) ⟨result, t :: rest, count + 1, fileEnds⟩ := by
  have hback : [t] <:+ seen ++ [t] := List.suffix_append seen [t]
  exact .cons (draws_back hback result)

theorem Draws.suffix (h : Draws [] count tokens reading) : reading.rest <:+ tokens := by
  obtain ⟨taken, left, back, htokens, -, hrest, hback⟩ := h
  rw [htokens, hrest]
  obtain ⟨front, hfront⟩ := hback
  rw [List.nil_append] at hfront
  exact ⟨front, by rw [← hfront, List.append_assoc]⟩

theorem Draws.count_le (h : Draws [] 0 tokens reading) : reading.count ≤ tokens.length := by
  obtain ⟨taken, left, back, htokens, hcount, -, -⟩ := h
  rw [htokens, hcount, List.length_append]
  omega

end Reading

/-! ### Arguments -/

section Arguments

open Reading

variable {guarded : Bool}

theorem draws_balancedFrom : ∀ (tokens seen : List Token) (depth : Nat) (content : List Token)
    (count fileEnds : Nat),
    Draws seen count tokens (balancedFrom guarded depth content count fileEnds tokens) := by
  intro tokens
  induction tokens with
  | nil => exact fun seen depth content count fileEnds => draws_here _
  | cons t rest ih =>
    intro seen depth content count fileEnds
    unfold balancedFrom
    cases t with
    | closeGroup =>
      cases depth with
      | zero => exact .cons (draws_here _)
      | succ depth => exact .cons (ih ..)
    | control name =>
      dsimp only
      split
      · exact draws_putBack _
      · exact .cons (ih ..)
    | _ => exact .cons (ih ..)

theorem draws_bracketedFrom : ∀ (tokens seen : List Token) (brackets braces : Nat)
    (content : List Token) (count fileEnds : Nat),
    Draws seen count tokens
      (bracketedFrom guarded brackets braces content count fileEnds tokens) := by
  intro tokens
  induction tokens with
  | nil => exact fun seen brackets braces content count fileEnds => draws_here _
  | cons t rest ih =>
    intro seen brackets braces content count fileEnds
    unfold bracketedFrom
    cases t with
    | closeGroup =>
      cases braces with
      | zero => exact draws_putBack _
      | succ braces => exact .cons (ih ..)
    | control name =>
      dsimp only
      split
      · exact draws_putBack _
      · exact .cons (ih ..)
    | char c =>
      dsimp only
      split
      · exact .cons (ih ..)
      split
      · cases brackets with
        | zero => exact .cons (draws_here _)
        | succ brackets => exact .cons (ih ..)
      · exact .cons (ih ..)
    | _ => exact .cons (ih ..)

theorem draws_delimitedFrom (delimiter : List Token) : ∀ (tokens : List Token) (depth : Nat)
    (content : List Token) (count : Nat),
    Draws content.reverse count tokens (delimitedFrom delimiter depth content count tokens) := by
  intro tokens
  induction tokens with
  | nil =>
    intro depth content count
    unfold delimitedFrom
    split
    · exact draws_allBack content _
    · exact draws_allBack content _
  | cons t rest ih =>
    intro depth content count
    unfold delimitedFrom
    split
    · next hfound =>
      obtain ⟨behind, hbehind⟩ := List.isPrefixOf_iff_prefix.mp (Bool.and_eq_true_iff.mp hfound).2
      rw [← hbehind, List.drop_left]
      exact draws_append delimiter _
    split
    · rw [List.reverseAux_eq]
      exact draws_back List.suffix_rfl _
    · split
      · exact .cons_reverse (ih ..)
      · split
        · have hgroup : content.reverseAux (.closeGroup :: rest) =
              content.reverse ++ [.closeGroup] ++ rest := by simp [List.reverseAux_eq]
          rw [hgroup]
          exact .cons (draws_back List.suffix_rfl _)
        · exact .cons_reverse (ih ..)
      · exact .cons_reverse (ih ..)

theorem draws_parameterTextFrom : ∀ (tokens : List Token) (text : PartialText)
    (seen : List Token) (count : Nat),
    Draws seen.reverse count tokens (parameterTextFrom text seen count tokens) := by
  intro tokens
  induction tokens with
  | nil =>
    intro text seen count
    unfold parameterTextFrom
    split
    · exact draws_allBack seen _
    · exact draws_here _
  | cons t rest ih =>
    intro text seen count
    unfold parameterTextFrom
    split
    · rw [List.reverseAux_eq]
      exact draws_back List.suffix_rfl _
    · split
      · exact .cons (draws_here _)
      · exact .cons_reverse (ih ..)
      · exact .cons_reverse (ih ..)

end Arguments

/-! ### Regions -/

section Regions

open Reading

theorem passes_branchFrom (limit : Nat) (opens : String → Bool) (atElse : Bool) :
    ∀ (tokens : List Token) (named : Bool) (depth count fileEnds : Nat),
      Passes count tokens (branchFrom limit opens atElse named depth count fileEnds tokens) := by
  intro tokens
  induction tokens with
  | nil => exact fun named depth count fileEnds => passes_here _
  | cons t rest ih =>
    intro named depth count fileEnds
    unfold branchFrom
    split
    · exact .cons (ih ..)
    split
    · exact passes_here _
    cases t with
    | control name =>
      dsimp only
      split
      · cases depth with
        | zero => exact .cons (passes_here _)
        | succ depth => exact .cons (ih ..)
      split
      · exact .cons (passes_here _)
      split
      · exact .cons (ih ..)
      split
      · exact .cons (ih ..)
      · exact .cons (ih ..)
    | _ => exact .cons (ih ..)

theorem passes_verbatimFrom (limit : Nat) (name : String) : ∀ (tokens : List Token)
    (count fileEnds : Nat),
    Passes count tokens (verbatimFrom limit name count fileEnds tokens) := by
  intro tokens
  induction tokens with
  | nil => exact fun count fileEnds => passes_here _
  | cons t rest ih =>
    intro count fileEnds
    unfold verbatimFrom
    split
    · exact passes_here _
    cases t with
    | control command =>
      dsimp only
      split
      · next found span hname =>
        split
        · split at hname
          · obtain ⟨group, behind, hgroup, rfl, -⟩ := groupName?_eq_some hname
            rw [hgroup, List.drop_left]
            exact .cons (.append (passes_here _))
          · cases hname
        · exact .cons (ih ..)
      · exact .cons (ih ..)
    | _ => exact .cons (ih ..)

theorem passes_inlineFrom (mark : Char) : ∀ (left : Nat) (tokens : List Token) (count : Nat),
    Passes count tokens (inlineFrom mark count left tokens) := by
  intro left
  induction left with
  | zero => exact fun tokens count => passes_here _
  | succ left ih =>
    intro tokens count
    cases tokens with
    | nil => exact passes_here _
    | cons t rest =>
      unfold inlineFrom
      split
      · exact .cons (passes_here _)
      · exact .cons (ih ..)

theorem passes_readInlineVerbatim (tokens : List Token) :
    Passes 0 tokens (readInlineVerbatim tokens) := by
  obtain ⟨star, htokens, hstar, -⟩ := (Stream.ofList tokens).passed_skipChar '*'
  have hcount : ((Stream.ofList tokens).skipChar '*').consumed = 0 + star.length := hstar
  have hbehind : ∀ {rest : List Token} {reading : Reading Unit},
      ((Stream.ofList tokens).skipChar '*').ahead = rest →
        Passes (0 + star.length) rest reading → Passes 0 tokens reading := by
    intro rest reading hrest hreading
    have hahead : tokens = star ++ rest := by rw [← hrest]; exact htokens
    rw [hahead]
    exact hreading.append
  unfold readInlineVerbatim
  dsimp only
  rw [hcount]
  split
  · next h => exact hbehind h (passes_here _)
  · next mark rest h => exact hbehind h (.cons (passes_inlineFrom mark _ rest _))
  · next t rest _ h => exact hbehind h (.cons (passes_here _))

/-- What does not end a name in time goes back; otherwise the name is put in front. -/
theorem makes_madeNameFrom : ∀ (left : Nat) (tokens name : List Token) (count : Nat),
    Makes name.reverse count tokens (madeNameFrom name count left tokens) := by
  intro left
  induction left with
  | zero =>
    intro tokens name count
    unfold madeNameFrom
    rw [List.reverseAux_eq]
    exact .inl (draws_back List.suffix_rfl _)
  | succ left ih =>
    intro tokens name count
    cases tokens with
    | nil => exact .inl (draws_allBack name _)
    | cons t rest =>
      unfold madeNameFrom
      split
      · exact .inr ⟨[t], rest, _, rfl, rfl, rfl⟩
      · have hrest := ih rest (t :: name) (count + 1)
        rw [List.reverse_cons] at hrest
        rcases hrest with hdraws | ⟨taken, behind, made, hrest, hcount, hmade⟩
        · exact .inl hdraws.cons
        · refine .inr ⟨t :: taken, behind, made, by rw [hrest]; rfl, ?_, hmade⟩
          rw [hcount, List.length_cons]
          omega

theorem passes_fileRestFrom : ∀ (tokens : List Token) (count : Nat),
    Passes count tokens (fileRestFrom count tokens) := by
  intro tokens
  induction tokens with
  | nil => exact fun count => passes_here _
  | cons t rest ih =>
    intro count
    unfold fileRestFrom
    cases t with
    | endOfInput => exact .cons (passes_here _)
    | _ => exact .cons (ih ..)

theorem passes_codeFrom (last : String) : ∀ (tokens : List Token) (count fileEnds : Nat),
    Passes count tokens (codeFrom last count fileEnds tokens) := by
  intro tokens
  induction tokens with
  | nil => exact fun count fileEnds => passes_here _
  | cons t rest ih =>
    intro count fileEnds
    unfold codeFrom
    cases t with
    | control name =>
      dsimp only
      split
      · exact .cons (passes_here _)
      · exact .cons (ih ..)
    | _ => exact .cons (ih ..)

theorem passes_proofRestFrom : ∀ (tokens : List Token) (nesting pass count fileEnds : Nat),
    Passes count tokens (proofRestFrom nesting pass count fileEnds tokens) := by
  intro tokens
  induction tokens with
  | nil => exact fun nesting pass count fileEnds => passes_here _
  | cons t rest ih =>
    intro nesting pass count fileEnds
    unfold proofRestFrom
    cases pass with
    | succ pass => exact .cons (ih ..)
    | zero =>
      cases nesting with
      | zero => exact passes_here _
      | succ inner =>
        cases t with
        | control name =>
          dsimp only
          split
          · exact .cons (ih ..)
          split
          · split
            · split
              · exact .cons (ih ..)
              · exact .cons (ih ..)
            · exact .cons (ih ..)
          · exact .cons (ih ..)
        | _ => exact .cons (ih ..)

/-! ### Conditions -/

theorem passes_groupFrom : ∀ (tokens : List Token) (depth : Nat) (content : List Token)
    (count : Nat), Passes count tokens (groupFrom depth content count tokens) := by
  intro tokens
  induction tokens with
  | nil => exact fun depth content count => passes_here _
  | cons t rest ih =>
    intro depth content count
    unfold groupFrom
    cases t with
    | closeGroup =>
      cases depth with
      | zero => exact .cons (passes_here _)
      | succ depth => exact .cons (ih ..)
    | _ => exact .cons (ih ..)

theorem passes_readGroup : ∀ (tokens : List Token) (count : Nat),
    Passes count tokens (readGroup count tokens) := by
  intro tokens
  induction tokens with
  | nil => exact fun count => passes_here _
  | cons t rest ih =>
    intro count
    unfold readGroup
    cases t with
    | space => exact .cons (ih ..)
    | openGroup => exact .cons (passes_groupFrom rest 0 [] _)
    | _ => exact .cons (passes_here _)

end Regions

namespace Condition

variable (dictionary : Dictionary)

theorem length_readGroup_le (tokens : List Token) :
    (readGroup 0 tokens).rest.length ≤ tokens.length :=
  (passes_readGroup tokens 0).suffix.length_le

theorem length_step_le (condition : Condition) (name : String) (rest : List Token) :
    (condition.step dictionary name rest).2.length ≤ rest.length := by
  have hgroup := length_readGroup_le rest
  have hgroups := length_readGroup_le (readGroup 0 rest).rest
  unfold step
  split <;> dsimp only <;> omega

/-- A condition is read to its end within its length: more steps change nothing. -/
theorem readFrom_of_le : ∀ (fuel fuel' : Nat) (condition : Condition) (tokens : List Token),
    tokens.length ≤ fuel → tokens.length ≤ fuel' →
      readFrom dictionary fuel condition tokens = readFrom dictionary fuel' condition tokens := by
  intro fuel
  induction fuel with
  | zero =>
    intro fuel' condition tokens hfuel hfuel'
    rw [List.length_eq_zero_iff.mp (Nat.le_zero.mp hfuel)]
    cases fuel' <;> rfl
  | succ fuel ih =>
    intro fuel' condition tokens hfuel hfuel'
    cases tokens with
    | nil => cases fuel' <;> rfl
    | cons t rest =>
      rw [List.length_cons] at hfuel hfuel'
      obtain ⟨fuel', rfl⟩ : ∃ k, fuel' = k + 1 := ⟨fuel' - 1, by omega⟩
      cases t with
      | control name =>
        have hstep := length_step_le dictionary condition name rest
        exact ih fuel' _ _ (by omega) (by omega)
      | _ => exact ih fuel' condition rest (by omega) (by omega)

end Condition

/-! ### Arguments of calls and operands -/

/-- What is ahead only gets shorter. -/
def State.Shortens (s t : State) : Prop := t.stream.ahead <:+ s.stream.ahead

namespace State

variable {s t : State}

theorem steady_shortens : Steady Shortens := ⟨fun _ => List.suffix_rfl, fun h h' => h'.trans h⟩

theorem Takes.shortens (h : Takes s t) : Shortens s t := by
  obtain ⟨taken, hs, -⟩ := h
  exact ⟨taken, hs.symm⟩

end State

theorem Stream.Passed.suffix {p : Token → Prop} {s t : Stream} (h : s.Passed p t) :
    t.ahead <:+ s.ahead := by
  obtain ⟨taken, hs, -, -⟩ := h
  exact ⟨taken, hs.symm⟩

namespace Scan

open State

theorem shortens_argument : Along Shortens argument := takes_argument.mono fun _ _ => Takes.shortens

theorem shortens_optionalArgument : Along Shortens optionalArgument :=
  takes_optionalArgument.mono fun _ _ => Takes.shortens

theorem shortens_onStream {f : Stream → Stream} {p : Token → Prop}
    (h : ∀ s : Stream, s.Passed p (f s)) : Along Shortens (onStream f) :=
  along_modify fun s => (h s.stream).suffix

theorem shortens_number : Along Shortens number := by
  refine along_get_bind fun s => ?_
  have hnumber := (Stream.passed_skipNumber s.stream).suffix
  cases h : s.stream.skipNumber with
  | mk stream ofCounter =>
    rw [h] at hnumber
    have hrest : Along Shortens (if ofCounter then discard argument else pure () : Scan Unit) := by
      split
      · exact shortens_argument.discard
      · exact along_pure steady_shortens ()
    exact steady_shortens.trans (t := { s with stream := stream }) hnumber (hrest _)

theorem shortens_operands (signature : Signature) : Along Shortens (operands signature) := by
  refine along_forM steady_shortens (fun kind => ?_) signature
  cases kind with
  | star => exact shortens_onStream fun s => s.passed_skipChar '*'
  | optional => exact shortens_optionalArgument.discard
  | mandatory => exact shortens_argument.discard
  | dimension => exact shortens_onStream Stream.passed_skipDimension
  | number => exact shortens_number
  | equals => exact shortens_onStream Stream.passed_skipEquals

/-- The tokens that a call must begin with are taken, or all of them go back. -/
theorem suffix_leadFrom : ∀ (lead seen : List Token) (s : State),
    (after (leadFrom seen lead) s).stream.ahead <:+ seen.reverse ++ s.stream.ahead
  | [], seen, s => List.suffix_append _ _
  | expected :: lead, seen, s => by
    unfold leadFrom
    cases hs : s.stream.ahead with
    | nil =>
      rw [after_bind_ok (next_nil hs)]
      show seen.reverse ++ s.stream.ahead <:+ _
      simp [hs]
    | cons t rest =>
      rw [after_bind_ok (next_cons hs)]
      have hseen : (t :: seen).reverse ++ rest = seen.reverse ++ t :: rest := by simp
      dsimp only
      split
      · have hlead := suffix_leadFrom lead (t :: seen)
          { s with stream := ⟨rest, s.consumed + 1⟩ }
        rw [← hseen]
        exact hlead
      · rw [← hseen]
        exact List.suffix_rfl

theorem shortens_callArguments (definition : Definition) :
    Along Shortens (callArguments definition) :=
  along_callArguments steady_shortens shortens_argument shortens_optionalArgument
    (fun delimiter s => (draws_delimitedFrom delimiter s.stream.ahead 0 [] 0).suffix) definition

end Scan

/-! ### All loops -/

open Reading Scan

/-- Every loop beside the scan only consumes what is ahead when it begins. -/
structure LoopsOnlyConsume : Prop where
  /-- Spaces, digits and the like. -/
  characters : ∀ (p : Token → Bool) (s : Stream), s.Passed (p · = true) (s.skipWhile p)
  dimension : ∀ s : Stream, s.Passed Token.IsContent s.skipDimension
  number : ∀ s : Stream, s.Passed (fun _ => True) s.skipNumber.1
  /-- Arguments. -/
  balanced : ∀ guarded tokens, (readBalanced guarded tokens).Draws [] 0 tokens
  bracketed : ∀ guarded tokens, (readBracketed guarded tokens).Draws [] 0 tokens
  delimited : ∀ delimiter tokens, (readDelimited delimiter tokens).Draws [] 0 tokens
  lead : ∀ lead, Along State.Shortens (leadFrom [] lead)
  callArguments : ∀ definition, Along State.Shortens (callArguments definition)
  operands : ∀ signature, Along State.Shortens (operands signature)
  /-- Definitions. -/
  parameterText : ∀ tokens, (readParameterText tokens).Draws [] 0 tokens
  /-- Conditionals. -/
  branch : ∀ limit opens atElse tokens, (readBranch limit opens atElse tokens).Passes 0 tokens
  condition : ∀ dictionary tokens fuel, tokens.length ≤ fuel →
    (Condition.readFrom dictionary fuel {} tokens).value.getD false =
      Condition.evaluate dictionary tokens
  /-- Verbatim text, made names, files and code. -/
  verbatim : ∀ limit name tokens, (readVerbatim limit name tokens).Passes 0 tokens
  inlineVerbatim : ∀ tokens, (readInlineVerbatim tokens).Passes 0 tokens
  madeName : ∀ tokens, (readMadeName tokens).Makes [] 0 tokens
  fileRest : ∀ tokens, (readFileRest tokens).Passes 0 tokens
  code : ∀ last tokens, (readCode last tokens).Passes 0 tokens
  /-- The rest of a proof that was given up. -/
  proofRest : ∀ nesting tokens, (readProofRest nesting tokens).Passes 0 tokens
  /-- What is behind the end of the document. -/
  drain : ∀ s : State, s.stream.Passed (fun _ => True) s.drain.stream

theorem loopsOnlyConsume : LoopsOnlyConsume where
  characters _ := Stream.passed_skipWhile fun _ h => h
  dimension := Stream.passed_skipDimension
  number := Stream.passed_skipNumber
  balanced _ tokens := draws_balancedFrom tokens [] 0 [] 0 0
  bracketed _ tokens := draws_bracketedFrom tokens [] 0 0 [] 0 0
  delimited delimiter tokens := draws_delimitedFrom delimiter tokens 0 [] 0
  lead lead s := suffix_leadFrom lead [] s
  callArguments := shortens_callArguments
  operands := shortens_operands
  parameterText tokens := draws_parameterTextFrom tokens {} [] 0
  branch limit opens atElse tokens := passes_branchFrom limit opens atElse tokens false 0 0 0
  condition dictionary tokens fuel h := by
    unfold Condition.evaluate
    rw [Condition.readFrom_of_le dictionary fuel tokens.length {} tokens h (Nat.le_refl _)]
  verbatim limit name tokens := passes_verbatimFrom limit name tokens 0 0
  inlineVerbatim := passes_readInlineVerbatim
  madeName tokens := makes_madeNameFrom inlineLimit tokens [] 0
  fileRest tokens := passes_fileRestFrom tokens 0
  code last tokens := passes_codeFrom last tokens 0 0
  proofRest nesting tokens := passes_proofRestFrom tokens nesting 0 0 0
  drain s := Stream.passed_skipWhile (fun _ _ => trivial) s.stream

end ProofProse
