import ProofProse.Proofs.Consuming
import ProofProse.Proofs.InStep

/-! # Calls that do not fit

A call does not fit its definition when the tokens that it must begin with are not ahead, or when the
delimiter of one of its arguments is lost (`Misfits`). What was read of the lead that is not there
goes back, and so does what was read of the argument that is lost (`delimitedFrom_lost`). The lead
that is there stays taken, and so do the arguments before the lost one with their delimiters: these
are read as the arguments of a call of the definition without its later parameters are
(`callArguments_none_iff`, by induction on the parameters). -/

namespace ProofProse

/-- A definition with its first `n` parameters only. -/
def Definition.first (definition : Definition) (n : Nat) : Definition :=
  { definition with delimiters := definition.delimiters.take n }

theorem delimitedFrom_lost (delimiter : List Token) : ∀ (tokens : List Token) (depth : Nat)
    (content : List Token) (count : Nat),
    (delimitedFrom delimiter depth content count tokens).result = .lost →
      (delimitedFrom delimiter depth content count tokens).rest = content.reverse ++ tokens ∧
        (delimitedFrom delimiter depth content count tokens).fileEnds = 0 := by
  intro tokens
  induction tokens with
  | nil =>
    intro depth content count h
    unfold delimitedFrom at h ⊢
    split
    · exact ⟨(List.append_nil _).symm, rfl⟩
    · next hcount =>
      rw [if_neg hcount] at h
      cases h
  | cons t rest ih =>
    intro depth content count h
    have hback : content.reverseAux (t :: rest) = content.reverse ++ t :: rest :=
      List.reverseAux_eq
    have hgoOn : ∀ depth count,
        (delimitedFrom delimiter depth (t :: content) count rest).result = .lost →
          (delimitedFrom delimiter depth (t :: content) count rest).rest =
              content.reverse ++ t :: rest ∧
            (delimitedFrom delimiter depth (t :: content) count rest).fileEnds = 0 := by
      intro depth count h
      have hrest := ih depth (t :: content) count h
      rwa [List.reverse_cons, List.append_assoc] at hrest
    unfold delimitedFrom at h ⊢
    split
    · next hfound =>
      rw [if_pos hfound] at h
      cases h
    next hfound =>
    rw [if_neg hfound] at h
    split
    · exact ⟨hback, rfl⟩
    next hcount =>
    rw [if_neg hcount] at h
    cases t with
    | closeGroup =>
      cases depth with
      | zero => exact ⟨hback, rfl⟩
      | succ depth => exact hgoOn _ _ h
    | _ => exact hgoOn _ _ h

theorem readDelimited_nil (tokens : List Token) : (readDelimited [] tokens).result ≠ .lost := by
  cases tokens with
  | nil => exact nofun
  | cons t rest => exact nofun

/-- No warning is added. -/
def State.KeepsWarnings (s t : State) : Prop := t.warnings = s.warnings

theorem State.steady_keepsWarnings : Steady State.KeepsWarnings :=
  ⟨fun _ => rfl, fun h h' => Eq.trans h' h⟩

theorem State.Takes.keepsWarnings {s t : State} (h : s.Takes t) : s.KeepsWarnings t := by
  obtain ⟨taken, -, ht⟩ := h
  rw [ht]
  rfl

namespace Scan

open State

variable {name : String} {definition : Definition} {s t u : State}

/-! ### The lead of a call -/

theorem leadFrom_fits {lead rest : List Token} (seen : List Token)
    (hs : s.stream.ahead = lead ++ rest) :
    leadFrom seen lead s = .ok true { s with stream := ⟨rest, s.consumed + lead.length⟩ } := by
  rcases leadFrom_run lead seen s with ⟨rest', hrest', hrun⟩ | ⟨hlead, -⟩
  · obtain rfl : rest = rest' := List.append_cancel_left (hs.symm.trans hrest')
    exact hrun
  · exact absurd ⟨rest, hs.symm⟩ hlead

theorem leadFrom_misfits {lead : List Token} (seen : List Token) (h : ¬ lead <+: s.stream.ahead) :
    ∃ stream, leadFrom seen lead s = .ok false { s with stream := stream } ∧
      stream.ahead = seen.reverse ++ s.stream.ahead := by
  rcases leadFrom_run lead seen s with ⟨rest, hrest, -⟩ | ⟨-, hback⟩
  · exact absurd ⟨rest, hrest.symm⟩ h
  · exact hback

/-! ### The arguments of a call -/

/-- No argument is found where its delimiter is lost, and then all that was read goes back. -/
theorem parameterArgument_none_iff {delimiter : List Token} :
    parameterArgument delimiter s = .ok none t ↔
      (readDelimited delimiter s.stream.ahead).result = .lost ∧
        t = { s with
          stream := ⟨s.stream.ahead,
            s.consumed + (readDelimited delimiter s.stream.ahead).count⟩ } := by
  unfold parameterArgument
  split
  · next hempty =>
    obtain rfl := List.isEmpty_iff.mp hempty
    refine ⟨fun h => ?_, fun h => absurd h.1 (readDelimited_nil _)⟩
    cases hargument : argument s with
    | ok content u => rw [bind_ok hargument] at h; cases h
    | error interrupt u => rw [bind_error hargument] at h; cases h
  · unfold delimited
    rw [bind_ok (take_ok _ s)]
    cases hread : (readDelimited delimiter s.stream.ahead).result with
    | lost =>
      obtain ⟨hrest, hends⟩ := delimitedFrom_lost delimiter s.stream.ahead 0 [] 0 hread
      have hbehind : s.stream.behind (readDelimited delimiter s.stream.ahead) =
          ⟨s.stream.ahead, s.consumed + (readDelimited delimiter s.stream.ahead).count⟩ :=
        congrArg (Stream.mk · _) hrest
      have hleave : s.includes.leave (readDelimited delimiter s.stream.ahead).fileEnds =
          s.includes := by
        rw [show (readDelimited delimiter s.stream.ahead).fileEnds = 0 from hends]
        rfl
      rw [hbehind, hleave]
      exact ⟨fun h => by cases h; exact ⟨rfl, rfl⟩, fun h => by rw [h.2]; rfl⟩
    | found content => exact ⟨nofun, fun h => nomatch h.1⟩
    | ended => exact ⟨nofun, fun h => nomatch h.1⟩

theorem argumentsFrom_cons {delimiter content : List Token} {delimiters before : List (List Token)}
    (h : parameterArgument delimiter s = .ok (some content) t) :
    argumentsFrom before (delimiter :: delimiters) s =
      argumentsFrom (content :: before) delimiters t :=
  bind_ok h

/-- The arguments of some parameters are not found where that of one of them is not, those of the
ones before it being read as if there were no others. -/
theorem argumentsFrom_none_iff : ∀ {delimiters before : List (List Token)} {s : State},
    argumentsFrom before delimiters s = .ok none t ↔
      ∃ n delimiter arguments u, delimiters[n]? = some delimiter ∧
        argumentsFrom before (delimiters.take n) s = .ok (some arguments) u ∧
        parameterArgument delimiter u = .ok none t := by
  intro delimiters
  induction delimiters with
  | nil => exact ⟨nofun, fun ⟨_, _, _, _, h, _⟩ => nomatch h⟩
  | cons delimiter delimiters ih =>
    intro before s
    constructor
    · intro h
      cases hfirst : parameterArgument delimiter s with
      | error interrupt v =>
        unfold argumentsFrom at h
        rw [bind_error hfirst] at h
        cases h
      | ok content? v =>
        cases content? with
        | none =>
          unfold argumentsFrom at h
          rw [bind_ok hfirst] at h
          cases h
          exact ⟨0, delimiter, before.reverse, s, rfl, rfl, hfirst⟩
        | some content =>
          rw [argumentsFrom_cons hfirst] at h
          obtain ⟨n, lost, arguments, u, hlost, hread, hnone⟩ := ih.mp h
          exact ⟨n + 1, lost, arguments, u, hlost, (argumentsFrom_cons hfirst).trans hread, hnone⟩
    · rintro ⟨n, lost, arguments, u, hlost, hread, hnone⟩
      cases n with
      | zero =>
        cases hlost
        cases hread
        unfold argumentsFrom
        rw [bind_ok hnone]
        rfl
      | succ n =>
        rw [List.take_succ_cons] at hread
        cases hfirst : parameterArgument delimiter s with
        | error interrupt v =>
          unfold argumentsFrom at hread
          rw [bind_error hfirst] at hread
          cases hread
        | ok content? v =>
          cases content? with
          | none =>
            unfold argumentsFrom at hread
            rw [bind_ok hfirst] at hread
            cases hread
          | some content =>
            rw [argumentsFrom_cons hfirst] at hread ⊢
            exact ih.mpr ⟨n, lost, arguments, u, hlost, hread, hnone⟩

/-- The arguments of a call are not found where one is not that does not stand in brackets. -/
theorem callArguments_none_iff :
    callArguments definition s = .ok none t ↔
      ∃ n delimiter arguments u, definition.delimiters[n]? = some delimiter ∧
        (n = 0 → definition.fallback = none) ∧
        callArguments (definition.first n) s = .ok (some arguments) u ∧
        parameterArgument delimiter u = .ok none t := by
  obtain ⟨lead, delimiters, fallback, body⟩ := definition
  cases fallback with
  | none =>
    refine argumentsFrom_none_iff.trans ⟨?_, ?_⟩
    · rintro ⟨n, delimiter, arguments, u, hlost, hread, hnone⟩
      exact ⟨n, delimiter, arguments, u, hlost, fun _ => rfl, hread, hnone⟩
    · rintro ⟨n, delimiter, arguments, u, hlost, -, hread, hnone⟩
      exact ⟨n, delimiter, arguments, u, hlost, hread, hnone⟩
  | some fallback =>
    cases delimiters with
    | nil => exact ⟨nofun, fun ⟨_, _, _, _, h, _⟩ => nomatch h⟩
    | cons delimiter delimiters =>
      cases hfirst : optionalArgument s with
      | error interrupt v =>
        have hcall : ∀ delimiters,
            callArguments ⟨lead, delimiter :: delimiters, some fallback, body⟩ s =
              .error interrupt v := fun _ => bind_error hfirst
        rw [hcall]
        refine ⟨nofun, ?_⟩
        rintro ⟨n, lost, arguments, u, -, hzero, hread, -⟩
        cases n with
        | zero => exact nomatch hzero rfl
        | succ n => exact nomatch (hcall _).symm.trans hread
      | ok first? v =>
        have hcall : ∀ delimiters,
            callArguments ⟨lead, delimiter :: delimiters, some fallback, body⟩ s =
              argumentsFrom [first?.getD fallback] delimiters v := fun _ => bind_ok hfirst
        rw [hcall]
        refine argumentsFrom_none_iff.trans ⟨?_, ?_⟩
        · rintro ⟨n, lost, arguments, u, hlost, hread, hnone⟩
          exact ⟨n + 1, lost, arguments, u, hlost, nofun, (hcall _).trans hread, hnone⟩
        · rintro ⟨n, lost, arguments, u, hlost, hzero, hread, hnone⟩
          cases n with
          | zero => exact nomatch hzero rfl
          | succ n => exact ⟨n, lost, arguments, u, hlost, (hcall _).symm.trans hread, hnone⟩

/-! ### Calls that do not fit -/

/-- A call does not fit its definition, and `taken` is what is not put back of it. -/
inductive Misfits (definition : Definition) (s : State) : List Token → Prop
  /-- The tokens that it must begin with are not ahead. -/
  | lead (h : ¬ definition.lead <+: s.stream.ahead) : Misfits definition s []
  /-- Behind them and the arguments of the first `n` parameters, the delimiter of the next one is
  lost. -/
  | argument {n : Nat} {delimiter rest taken : List Token} {arguments : List (List Token)} {t : State}
      (hlead : s.stream.ahead = definition.lead ++ rest)
      (hdelimiter : definition.delimiters[n]? = some delimiter)
      (hfallback : n = 0 → definition.fallback = none)
      (hfirst : callArguments (definition.first n)
        { s with stream := ⟨rest, s.consumed + definition.lead.length⟩ } = .ok (some arguments) t)
      (hlost : (readDelimited delimiter t.stream.ahead).result = .lost)
      (htaken : s.stream.ahead = taken ++ t.stream.ahead) : Misfits definition s taken

theorem keepsWarnings_callArguments (definition : Definition) :
    Along KeepsWarnings (callArguments definition) :=
  along_callArguments steady_keepsWarnings (takes_argument.mono fun _ _ => Takes.keepsWarnings)
    (takes_optionalArgument.mono fun _ _ => Takes.keepsWarnings) (fun _ _ => rfl) definition

theorem keepsWarnings_expansion (name : String) (definition : Definition) :
    Along KeepsWarnings (expansion? name definition) := by
  have hlead : Along KeepsWarnings (leadFrom [] definition.lead) := by
    intro s
    rcases leadFrom_run definition.lead [] s with ⟨rest, -, hrun⟩ | ⟨-, stream, hrun, -⟩
    · rw [after_ok hrun]; rfl
    · rw [after_ok hrun]; rfl
  refine hlead.bind steady_keepsWarnings fun fits => ?_
  split
  · exact (keepsWarnings_callArguments definition).bind steady_keepsWarnings fun _ =>
      along_pure steady_keepsWarnings _
  · exact along_pure steady_keepsWarnings _

theorem Misfits.expansion {taken : List Token} (h : Misfits definition s taken) (name : String) :
    ∃ t, expansion? name definition s = .ok none t ∧ s.stream.ahead = taken ++ t.stream.ahead := by
  unfold expansion?
  cases h with
  | lead h =>
    obtain ⟨stream, hrun, hahead⟩ := leadFrom_misfits [] h
    exact ⟨_, bind_ok hrun, hahead.symm⟩
  | argument hlead hdelimiter hfallback hfirst hlost htaken =>
    have hnone := callArguments_none_iff.mpr ⟨_, _, _, _, hdelimiter, hfallback, hfirst,
      parameterArgument_none_iff.mpr ⟨hlost, rfl⟩⟩
    exact ⟨_, (bind_ok (leadFrom_fits [] hlead)).trans (bind_ok hnone), htaken⟩

theorem misfits_of_expansion (h : expansion? name definition s = .ok none t) :
    ∃ taken, Misfits definition s taken ∧ s.stream.ahead = taken ++ t.stream.ahead := by
  unfold expansion? at h
  by_cases hlead : definition.lead <+: s.stream.ahead
  · obtain ⟨rest, hrest⟩ := hlead
    rw [bind_ok (leadFrom_fits [] hrest.symm)] at h
    cases hcall : callArguments definition
        { s with stream := ⟨rest, s.consumed + definition.lead.length⟩ } with
    | error interrupt u =>
      rw [if_pos rfl, bind_error hcall] at h
      cases h
    | ok arguments? u =>
      rw [if_pos rfl, bind_ok hcall] at h
      cases arguments? with
      | some arguments => cases h
      | none =>
        cases h
        obtain ⟨n, delimiter, arguments, u, hdelimiter, hfallback, hfirst, hnone⟩ :=
          callArguments_none_iff.mp hcall
        obtain ⟨hlost, rfl⟩ := parameterArgument_none_iff.mp hnone
        obtain ⟨read, hread⟩ := (shortens_callArguments _).ok hfirst
        have htaken : s.stream.ahead = definition.lead ++ read ++ u.stream.ahead := by
          rw [← hrest, List.append_assoc]
          exact congrArg (definition.lead ++ ·) hread.symm
        exact ⟨_, .argument hrest.symm hdelimiter hfallback hfirst hlost htaken, htaken⟩
  · obtain ⟨stream, hrun, hahead⟩ := leadFrom_misfits [] hlead
    rw [bind_ok hrun] at h
    cases h
    exact ⟨[], .lead hlead, hahead.symm⟩

/-- A warning is recorded for a call that stands for nothing, and for no other. -/
theorem expansion_of_warning (h : expand name definition s = .ok () t)
    (hwarnings : t.warnings = s.warnings.push (.expansionFailed name)) :
    ∃ u, expansion? name definition s = .ok none u ∧ u.stream = t.stream := by
  unfold expand at h
  have hkept := keepsWarnings_expansion name definition s
  cases hrun : expansion? name definition s with
  | error interrupt u =>
    rw [bind_error hrun] at h
    cases h
  | ok tokens? u =>
    rw [bind_ok hrun] at h
    rw [after_ok hrun] at hkept
    cases tokens? with
    | none =>
      cases h
      exact ⟨u, rfl, rfl⟩
    | some tokens =>
      cases h
      have hsize := congrArg Array.size (hwarnings.symm.trans hkept)
      rw [Array.size_push] at hsize
      omega

/-- **What is lost of a call that does not fit.** A call is recorded as failed exactly where it does
not fit its definition, for any lead and parameters. The lead that is there and the arguments before
the lost one are then gone, with their delimiters, and all behind them is ahead as it was. So the
tokens ahead are the ones from before the call only where nothing of it had been taken. -/
theorem misfits_lose_what_fits (name : String) (definition : Definition) (s : State) :
    (∀ taken, Misfits definition s taken →
      ∃ t, expand name definition s = .ok () t ∧
        t.warnings = s.warnings.push (.expansionFailed name) ∧
        s.stream.ahead = taken ++ t.stream.ahead) ∧
    ∀ t, expand name definition s = .ok () t →
      t.warnings = s.warnings.push (.expansionFailed name) →
        (∃ taken, Misfits definition s taken ∧ s.stream.ahead = taken ++ t.stream.ahead) ∧
          (t.stream.ahead = s.stream.ahead ↔ Misfits definition s []) := by
  have hrecorded : ∀ taken, Misfits definition s taken →
      ∃ t, expand name definition s = .ok () t ∧
        t.warnings = s.warnings.push (.expansionFailed name) ∧
        s.stream.ahead = taken ++ t.stream.ahead := by
    intro taken h
    obtain ⟨t, hrun, hahead⟩ := h.expansion name
    have hkept : t.warnings = s.warnings := (keepsWarnings_expansion name definition).ok hrun
    exact ⟨t.warn (.expansionFailed name), bind_ok hrun,
      congrArg (·.push (.expansionFailed name)) hkept, hahead⟩
  refine ⟨hrecorded, fun t h hwarnings => ?_⟩
  obtain ⟨u, hrun, hstream⟩ := expansion_of_warning h hwarnings
  obtain ⟨taken, hmisfits, hahead⟩ := misfits_of_expansion hrun
  rw [hstream] at hahead
  refine ⟨⟨taken, hmisfits, hahead⟩, fun hsame => ?_, fun hnothing => ?_⟩
  · rw [hsame] at hahead
    obtain rfl : taken = [] := List.self_eq_append_left.mp hahead
    exact hmisfits
  · obtain ⟨t', h', -, hahead'⟩ := hrecorded [] hnothing
    rw [h] at h'
    cases h'
    exact hahead'.symm

/-- A definition with two parameters, each with a letter behind it. -/
def twoLetters : Definition where
  delimiters := [[.char 'a'], [.char 'b']]
  body := [.parameter 1, .parameter 2]

/-- A state in a group in which the second of the letters does not come. -/
def secondLetterMissing : State := .start "main.tex" [.char 'x', .char 'a', .char 'y', .closeGroup]

/-- What was read of the second argument goes back, the first one with its letter does not. -/
theorem first_argument_lost :
    ∃ t, expand "n" twoLetters secondLetterMissing = .ok () t ∧
      t.warnings = secondLetterMissing.warnings.push (.expansionFailed "n") ∧
      t.stream.ahead ≠ secondLetterMissing.stream.ahead :=
  ⟨_, rfl, rfl, by decide⟩

/-- The call does not fit behind its first argument, so it is recorded as failed, with two tokens
gone; there is no reading of it by which nothing would be. -/
theorem misfit_behind_an_argument :
    Misfits twoLetters secondLetterMissing [.char 'x', .char 'a'] ∧
      ¬ Misfits twoLetters secondLetterMissing [] ∧
      ∃ t, expand "n" twoLetters secondLetterMissing = .ok () t ∧
        t.warnings = #[.expansionFailed "n"] ∧ t.stream.ahead = [.char 'y', .closeGroup] := by
  have hmisfits : Misfits twoLetters secondLetterMissing [.char 'x', .char 'a'] :=
    .argument (n := 1) rfl rfl nofun rfl rfl rfl
  obtain ⟨hrecorded, hexact⟩ := misfits_lose_what_fits "n" twoLetters secondLetterMissing
  obtain ⟨t, hrun, hwarnings, hahead⟩ := hrecorded _ hmisfits
  have hleft : t.stream.ahead = [.char 'y', .closeGroup] := List.append_cancel_left hahead.symm
  refine ⟨hmisfits, fun hnothing => ?_, t, hrun, hwarnings, hleft⟩
  have hsame := (hexact t hrun hwarnings).2.mpr hnothing
  rw [hleft] at hsame
  exact nomatch hsame

end Scan

end ProofProse
