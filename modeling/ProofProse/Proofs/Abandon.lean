import ProofProse.Proofs.Name
import ProofProse.Scan.Prose

/-! # Where a proof that was dropped ends

When a proof is dropped its rest is passed over, up to the command that closes it. The commands that
open and close proofs are found by a reading of their own (`recovered?`), which differs from what the
scan takes for such commands (`State.interpreted?`) in two ways: a proof that is opened by a plain
command is not counted, and names of environments are found by a look ahead at groups of characters
only. `ClosesBefore` counts the proofs that are open by either reading.

The rest of a proof is passed over exactly when both readings come to the same end
(`abandonProof_eq_iff`), as they do where names are written plainly and no plain command opens a
proof (`abandonProof_of_plain`). -/

namespace ProofProse

/-! ### Boundaries of proofs -/

/-- A command that opens or closes a proof. -/
structure Boundary where
  /-- Whether a proof is opened. -/
  opens : Bool
  /-- The tokens behind the command. -/
  behind : List Token
  deriving DecidableEq

/-- The boundary at the front of some tokens, when `name?` reads names of environments and
`plainOpens` tells whether the plain command that opens a proof counts. -/
def boundary? (plainOpens : Bool) (name? : List Token → Option (String × List Token)) :
    List Token → Option Boundary
  | .control command :: rest =>
    if command == "proof" then if plainOpens then some ⟨true, rest⟩ else none
    else if command == "endproof" then some ⟨false, rest⟩
    else if command == "begin" || command == "end" then
      match name? rest with
      | some (name, behind) =>
        if isProofName name then some ⟨command == "begin", behind⟩ else none
      | none => none
    else none
  | _ => none

/-- The name of an environment that the scan would read in a state from some tokens, and the tokens
behind it. -/
def State.environmentName? (s : State) (tokens : List Token) : Option (String × List Token) :=
  match Scan.argumentText { s with stream := ⟨tokens, s.consumed⟩ } with
  | .ok name t => some (name, t.stream.ahead)
  | .error _ _ => none

/-- The boundary that the scan takes for one. -/
def State.interpreted? (s : State) : List Token → Option Boundary :=
  boundary? true s.environmentName?

/-- The name of an environment that a look ahead finds, and the tokens behind it. -/
def spelledName? (tokens : List Token) : Option (String × List Token) :=
  match groupName? tokens with
  | some (name, span) => some (name, tokens.drop span)
  | none => none

/-- The boundary that is counted when a proof is dropped. -/
def recovered? : List Token → Option Boundary := boundary? false spelledName?

/-- With `n` proofs open before some tokens, the last one is closed right before `rest`. -/
inductive ClosesBefore (boundary? : List Token → Option Boundary) (rest : List Token) :
    Nat → List Token → Prop
  /-- The only open proof is closed. -/
  | last {tokens} : boundary? tokens = some ⟨false, rest⟩ → ClosesBefore boundary? rest 1 tokens
  /-- One of several open proofs is closed. -/
  | close {n tokens behind} : boundary? tokens = some ⟨false, behind⟩ →
      ClosesBefore boundary? rest (n + 1) behind → ClosesBefore boundary? rest (n + 2) tokens
  /-- One more proof is opened. -/
  | opening {n tokens behind} : boundary? tokens = some ⟨true, behind⟩ →
      ClosesBefore boundary? rest (n + 2) behind → ClosesBefore boundary? rest (n + 1) tokens
  /-- A token is no boundary. -/
  | pass {n t tokens} : boundary? (t :: tokens) = none →
      ClosesBefore boundary? rest n tokens → ClosesBefore boundary? rest n (t :: tokens)

section Counting

variable {plainOpens : Bool} {name? : List Token → Option (String × List Token)}
  {b b' : List Token → Option Boundary} {n : Nat} {tokens rest rest' : List Token}

theorem ClosesBefore.pos (h : ClosesBefore b rest n tokens) : 0 < n := by
  induction h with
  | pass _ _ ih => exact ih
  | _ => omega

theorem not_closes_nil (hb : b [] = none) : ¬ClosesBefore b rest n [] := by
  intro h
  cases h with
  | last h => cases hb.symm.trans h
  | close h _ => cases hb.symm.trans h
  | opening h _ => cases hb.symm.trans h

theorem closes_pass_iff {t : Token} (hb : b (t :: tokens) = none) :
    ClosesBefore b rest n (t :: tokens) ↔ ClosesBefore b rest n tokens := by
  refine ⟨fun h => ?_, .pass hb⟩
  cases h with
  | last h => cases hb.symm.trans h
  | close h _ => cases hb.symm.trans h
  | opening h _ => cases hb.symm.trans h
  | pass _ h => exact h

theorem closes_opening_iff {behind : List Token} (hb : b tokens = some ⟨true, behind⟩) :
    ClosesBefore b rest (n + 1) tokens ↔ ClosesBefore b rest (n + 2) behind := by
  refine ⟨fun h => ?_, .opening hb⟩
  cases h with
  | last h => cases hb.symm.trans h
  | close h _ => cases hb.symm.trans h
  | opening h hrest =>
    cases hb.symm.trans h
    exact hrest
  | pass h _ => cases hb.symm.trans h

theorem closes_close_iff {behind : List Token} (hb : b tokens = some ⟨false, behind⟩) :
    ClosesBefore b rest (n + 2) tokens ↔ ClosesBefore b rest (n + 1) behind := by
  refine ⟨fun h => ?_, .close hb⟩
  cases h with
  | close h hrest =>
    cases hb.symm.trans h
    exact hrest
  | opening h _ => cases hb.symm.trans h
  | pass h _ => cases hb.symm.trans h

theorem closes_last_iff {behind : List Token} (hb : b tokens = some ⟨false, behind⟩) :
    ClosesBefore b rest 1 tokens ↔ rest = behind := by
  constructor
  · intro h
    cases h with
    | last h =>
      cases hb.symm.trans h
      rfl
    | opening h _ => cases hb.symm.trans h
    | pass h _ => cases hb.symm.trans h
  · rintro rfl
    exact .last hb

theorem ClosesBefore.unique (h : ClosesBefore b rest n tokens) (h' : ClosesBefore b rest' n tokens) :
    rest' = rest := by
  induction h with
  | last hb => exact (closes_last_iff hb).mp h'
  | close hb _ ih => exact ih ((closes_close_iff hb).mp h')
  | opening hb _ ih => exact ih ((closes_opening_iff hb).mp h')
  | pass hb _ ih => exact ih ((closes_pass_iff hb).mp h')

/-- A reading of names leaves what is behind the name. -/
def Leaves (name? : List Token → Option (String × List Token)) : Prop :=
  ∀ tokens name behind, name? tokens = some (name, behind) → ∃ taken, tokens = taken ++ behind

theorem boundary?_behind (hname : Leaves name?) {boundary : Boundary}
    (h : boundary? plainOpens name? tokens = some boundary) :
    ∃ t taken, tokens = t :: taken ++ boundary.behind := by
  unfold boundary? at h
  split at h
  · next command rest =>
    split at h
    · split at h
      · cases h
        exact ⟨_, [], rfl⟩
      · cases h
    split at h
    · cases h
      exact ⟨_, [], rfl⟩
    split at h
    · split at h
      · next name behind hn =>
        split at h
        · cases h
          obtain ⟨taken, htaken⟩ := hname _ _ _ hn
          exact ⟨_, taken, by rw [htaken]; rfl⟩
        · cases h
      · cases h
    · cases h
  · cases h

theorem leaves_environmentName? (s : State) : Leaves s.environmentName? := by
  intro tokens name behind h
  unfold State.environmentName? at h
  split at h
  · next name' t ht =>
    cases h
    obtain ⟨taken, htaken, -⟩ := Scan.takes_argumentText.ok ht
    exact ⟨taken, htaken⟩
  · cases h

end Counting

/-! ### Passing over the rest of a proof -/

section Recovery

variable {n count fileEnds : Nat} {t : Token} {tokens rest : List Token}

theorem proofRestFrom_zero (count fileEnds : Nat) (tokens : List Token) :
    proofRestFrom 0 0 count fileEnds tokens = ⟨(), tokens, count, fileEnds⟩ := by
  cases tokens <;> rfl

theorem proofRestFrom_group (nesting fileEnds : Nat) (rest : List Token) :
    ∀ (group : List Token) (count : Nat),
      proofRestFrom nesting group.length count fileEnds (group ++ rest) =
        proofRestFrom nesting 0 (count + group.length) fileEnds rest
  | [], count => rfl
  | t :: group, count => by
    have hstep : proofRestFrom nesting (t :: group).length count fileEnds (t :: group ++ rest) =
        proofRestFrom nesting group.length (count + 1) fileEnds (group ++ rest) := by
      simp [proofRestFrom]
    have hcount : count + 1 + group.length = count + (t :: group).length := by
      simp only [List.length_cons]; omega
    rw [hstep, proofRestFrom_group nesting fileEnds rest group, hcount]

/-- A token that is no boundary is passed over; a file may end with it. -/
theorem proofRestFrom_pass (h : recovered? (t :: rest) = none) :
    proofRestFrom (n + 1) 0 count fileEnds (t :: rest) =
      proofRestFrom (n + 1) 0 (count + 1) (fileEnds + marks [t]) rest := by
  cases t with
  | control name =>
    have hmarks : marks [Token.control name] = 0 := rfl
    rw [hmarks]
    by_cases hclose : name = "endproof"
    · simp [recovered?, boundary?, hclose] at h
    by_cases hbegin : name = "begin" ∨ name = "end"
    · have hplain : name ≠ "proof" := by rcases hbegin with rfl | rfl <;> decide
      cases hname : groupName? rest with
      | none => simp [proofRestFrom, hclose, hbegin, hname]
      | some found =>
        have hother : isProofName found.1 = false := by
          simpa [recovered?, boundary?, spelledName?, hplain, hclose, hbegin, hname] using h
        simp [proofRestFrom, hclose, hbegin, hname, hother]
    · simp [proofRestFrom, hclose, hbegin]
  | _ => rfl

theorem proofRestFrom_boundary {boundary : Boundary} (h : recovered? tokens = some boundary) :
    ∃ t group, tokens = t :: group ++ boundary.behind ∧ marks (t :: group) = 0 ∧
      proofRestFrom (n + 1) 0 count fileEnds tokens =
        proofRestFrom (if boundary.opens then n + 2 else n) 0 (count + (t :: group).length) fileEnds
          boundary.behind := by
  obtain ⟨name, rest, rfl⟩ : ∃ name rest, tokens = .control name :: rest := by
    unfold recovered? boundary? at h
    split at h
    · exact ⟨_, _, rfl⟩
    · cases h
  by_cases hclose : name = "endproof"
  · subst hclose
    cases h
    exact ⟨_, [], rfl, rfl, by simp [proofRestFrom]⟩
  by_cases hbegin : name = "begin" ∨ name = "end"
  · have hplain : name ≠ "proof" := by rcases hbegin with rfl | rfl <;> decide
    cases hname : groupName? rest with
    | none => simp [recovered?, boundary?, spelledName?, hplain, hclose, hbegin, hname] at h
    | some found =>
      obtain ⟨environment, span⟩ := found
      obtain ⟨group, behind, rfl, rfl, hcontent⟩ := groupName?_eq_some hname
      have hboundary : isProofName environment = true ∧
          (⟨name == "begin", behind⟩ : Boundary) = boundary := by
        simpa [recovered?, boundary?, spelledName?, hplain, hclose, hbegin, hname] using h
      obtain ⟨hproof, rfl⟩ := hboundary
      have hmarks : marks (.control name :: group) = 0 := by
        rw [marks_control, marks_eq_zero.mpr hcontent]
      have hcount : count + (Token.control name :: group).length = count + 1 + group.length := by
        simp only [List.length_cons]; omega
      refine ⟨.control name, group, rfl, hmarks, ?_⟩
      rw [hcount, ← proofRestFrom_group]
      simp [proofRestFrom, hclose, hbegin, hname, hproof]
  · simp [recovered?, boundary?, hclose, hbegin] at h

/-- The rest of a proof is passed over up to where the boundaries that are counted close it, or up
to the end of the tokens if they never do. The induction is on the number of tokens, as a boundary
may be many tokens long. -/
theorem proofRestFrom_spec (length : Nat) : ∀ (tokens : List Token), tokens.length ≤ length →
    ∀ (n count fileEnds : Nat), ∃ taken rest, tokens = taken ++ rest ∧
      proofRestFrom (n + 1) 0 count fileEnds tokens =
        ⟨(), rest, count + taken.length, fileEnds + marks taken⟩ ∧
      (ClosesBefore recovered? rest (n + 1) tokens ∨
        rest = [] ∧ ∀ rest', ¬ClosesBefore recovered? rest' (n + 1) tokens) := by
  induction length with
  | zero =>
    intro tokens hlength n count fileEnds
    obtain rfl := List.length_eq_zero_iff.mp (Nat.le_zero.mp hlength)
    exact ⟨[], [], rfl, rfl, .inr ⟨rfl, fun rest' => not_closes_nil rfl⟩⟩
  | succ length ih =>
    intro tokens hlength n count fileEnds
    cases hb : recovered? tokens with
    | some boundary =>
      obtain ⟨t, group, rfl, hmarks, hread⟩ :=
        @proofRestFrom_boundary n count fileEnds _ boundary hb
      have hshorter : boundary.behind.length ≤ length := by
        simp only [List.length_append, List.length_cons] at hlength
        omega
      obtain ⟨opens, behind⟩ := boundary
      rw [hread]
      cases opens with
      | true =>
        obtain ⟨taken, rest, rfl, hrest, hend⟩ :=
          ih behind hshorter (n + 1) (count + (t :: group).length) fileEnds
        refine ⟨t :: group ++ taken, rest, by simp, ?_, ?_⟩
        · simp only [if_true, hrest, marks_append, hmarks, List.length_append]
          simp only [Nat.add_assoc, Nat.zero_add]
        · simpa only [closes_opening_iff hb] using hend
      | false =>
        cases n with
        | zero =>
          refine ⟨t :: group, behind, rfl, ?_, .inl ((closes_last_iff hb).mpr rfl)⟩
          rw [hmarks]
          exact proofRestFrom_zero _ _ behind
        | succ n =>
          obtain ⟨taken, rest, rfl, hrest, hend⟩ :=
            ih behind hshorter n (count + (t :: group).length) fileEnds
          refine ⟨t :: group ++ taken, rest, by simp, ?_, ?_⟩
          · simp only [Bool.false_eq_true, if_false, hrest, marks_append, hmarks,
              List.length_append]
            simp only [Nat.add_assoc, Nat.zero_add]
          · simpa only [closes_close_iff hb] using hend
    | none =>
      cases tokens with
      | nil => exact ⟨[], [], rfl, rfl, .inr ⟨rfl, fun rest' => not_closes_nil rfl⟩⟩
      | cons t behind =>
        obtain ⟨taken, rest, rfl, hrest, hend⟩ :=
          ih behind (by simpa using hlength) n (count + 1) (fileEnds + marks [t])
        refine ⟨t :: taken, rest, rfl, ?_, by simpa only [closes_pass_iff hb] using hend⟩
        have hmarks : marks (t :: taken) = marks [t] + marks taken := marks_append [t] taken
        rw [proofRestFrom_pass hb, hrest, hmarks, List.length_cons]
        simp only [Nat.add_assoc, Nat.add_comm 1]

end Recovery

/-! ### Readings that agree -/

section Agreement

variable {s : State} {b b' : List Token → Option Boundary} {n : Nat} {X tokens rest : List Token}

/-- A reading of boundaries takes tokens. -/
def Advances (b : List Token → Option Boundary) : Prop :=
  ∀ tokens boundary, b tokens = some boundary → ∃ t taken, tokens = t :: taken ++ boundary.behind

theorem advances_interpreted? (s : State) : Advances s.interpreted? :=
  fun _ _ h => boundary?_behind (leaves_environmentName? s) h

theorem ClosesBefore.advances (hb : Advances b) (h : ClosesBefore b rest n tokens) :
    ∃ t taken, tokens = t :: taken ++ rest := by
  induction h with
  | last h => exact hb _ _ h
  | close h _ ih =>
    obtain ⟨t, taken, rfl⟩ := hb _ _ h
    obtain ⟨u, taken', hbehind⟩ := ih
    exact ⟨t, taken ++ u :: taken', by simp only [hbehind, List.cons_append, List.append_assoc]⟩
  | opening h _ ih =>
    obtain ⟨t, taken, rfl⟩ := hb _ _ h
    obtain ⟨u, taken', hbehind⟩ := ih
    exact ⟨t, taken ++ u :: taken', by simp only [hbehind, List.cons_append, List.append_assoc]⟩
  | pass _ _ ih =>
    obtain ⟨u, taken', hbehind⟩ := ih
    exact ⟨_, u :: taken', by rw [hbehind]; rfl⟩

/-- Readings that agree inside some tokens close proofs in the same place there. -/
theorem ClosesBefore.of_agree (hb : Advances b)
    (hagree : ∀ tail, tail <:+ X → tail ≠ [] → b (tail ++ rest) = b' (tail ++ rest))
    (h : ClosesBefore b rest n tokens) :
    ∀ tail, tail <:+ X → tokens = tail ++ rest → ClosesBefore b' rest n tokens := by
  have hinside : ∀ {m tokens tail}, tail <:+ X → tokens = tail ++ rest →
      ClosesBefore b rest m tokens → b tokens = b' tokens := by
    intro m tokens tail htail htokens hcloses
    obtain ⟨t, taken, ht⟩ := hcloses.advances hb
    rw [htokens]
    refine hagree tail htail ?_
    rintro rfl
    have hlength := congrArg List.length (htokens.symm.trans ht)
    simp only [List.nil_append, List.length_append, List.length_cons] at hlength
    omega
  have hbehind : ∀ {m tokens boundary tail}, tail <:+ X → tokens = tail ++ rest →
      b tokens = some boundary → ClosesBefore b rest m boundary.behind →
      ∃ tail', tail' <:+ X ∧ boundary.behind = tail' ++ rest := by
    intro m tokens boundary tail htail htokens hboundary hcloses
    obtain ⟨t, taken, ht⟩ := hb _ _ hboundary
    obtain ⟨u, taken', hu⟩ := hcloses.advances hb
    have hsplit : (t :: taken) ++ (u :: taken') ++ rest = tail ++ rest := by
      rw [← htokens, ht, hu, List.append_assoc]
    exact ⟨u :: taken', .trans ⟨t :: taken, List.append_cancel_right hsplit⟩ htail, hu⟩
  induction h with
  | last h =>
    intro tail htail htokens
    exact .last ((hinside htail htokens (.last h)).symm.trans h)
  | close h hrest ih =>
    intro tail htail htokens
    obtain ⟨tail', htail', hbehind⟩ := hbehind htail htokens h hrest
    exact .close ((hinside htail htokens (.close h hrest)).symm.trans h) (ih tail' htail' hbehind)
  | opening h hrest ih =>
    intro tail htail htokens
    obtain ⟨tail', htail', hbehind⟩ := hbehind htail htokens h hrest
    exact .opening ((hinside htail htokens (.opening h hrest)).symm.trans h)
      (ih tail' htail' hbehind)
  | pass h hrest ih =>
    intro tail htail htokens
    have hnone := (hinside htail htokens (.pass h hrest)).symm.trans h
    cases tail with
    | nil =>
      obtain ⟨u, taken', hu⟩ := hrest.advances hb
      have hlength := congrArg List.length htokens
      simp only [hu, List.nil_append, List.length_append, List.length_cons] at hlength
      omega
    | cons t tail =>
      obtain ⟨-, htokens⟩ := List.cons.inj htokens
      exact .pass hnone (ih tail ((List.suffix_cons t tail).trans htail) htokens)

/-- Boundaries are written plainly: no plain command opens a proof, and the names of environments
are groups of characters without blanks. -/
structure PlainBoundaries (X : List Token) : Prop where
  opening : .control "proof" ∉ X
  name : ∀ command tail, command = "begin" ∨ command = "end" → .control command :: tail <:+ X →
    ∃ cs behind, tail = plainGroup cs ++ behind ∧ ∀ c ∈ cs, Text.isBlank c = false

theorem environmentName?_plain (s : State) {cs : List Char} (behind : List Token)
    (hcs : ∀ c ∈ cs, Text.isBlank c = false) :
    s.environmentName? (plainGroup cs ++ behind) = some (String.ofList cs, behind) := by
  unfold State.environmentName?
  rw [Scan.argumentText_plain hcs rfl]

theorem spelledName?_plain (cs : List Char) (behind : List Token) :
    spelledName? (plainGroup cs ++ behind) = some (String.ofList cs, behind) := by
  unfold spelledName?
  rw [groupName?_plain]
  dsimp only
  rw [← length_plainGroup cs, List.drop_left]

theorem interpreted?_eq_recovered? (s : State) (hplain : PlainBoundaries X) :
    ∀ tail, tail <:+ X → tail ≠ [] → s.interpreted? (tail ++ rest) = recovered? (tail ++ rest) := by
  intro tail htail hne
  cases tail with
  | nil => exact absurd rfl hne
  | cons t tail =>
    cases t with
    | control command =>
      have hopening : command ≠ "proof" := by
        rintro rfl
        exact hplain.opening (htail.subset List.mem_cons_self)
      by_cases hcommand : command = "begin" ∨ command = "end"
      · obtain ⟨cs, behind, rfl, hcs⟩ := hplain.name command tail hcommand htail
        simp only [State.interpreted?, recovered?, boundary?, List.cons_append, List.append_assoc,
          environmentName?_plain s _ hcs, spelledName?_plain]
        simp [hopening]
      · simp [State.interpreted?, recovered?, boundary?, hopening, hcommand]
    | _ => rfl

end Agreement

/-! ### Dropping a proof -/

namespace State

variable {s : State} {X rest : List Token}

/-- The state behind a proof that was dropped, of which some tokens were left. What has been defined,
the files being read and the warnings stay. -/
def behindProof (s : State) (taken : Nat) (rest : List Token) : State :=
  { s with
    stream := ⟨rest, s.consumed + taken⟩
    mathDepth := 0
    discardDepth := 0
    proofDepth := 0
    finalPeriod := false
    draft := {} }

/-- A proof is dropped up to where the boundaries that are counted close it, or up to the end of the
tokens. -/
theorem abandonProof_spec (hproof : 0 < s.proofDepth) :
    ∃ taken rest, s.stream.ahead = taken ++ rest ∧
      s.abandonProof =
        { s.behindProof taken.length rest with includes := s.includes.leave (marks taken) } ∧
      (ClosesBefore recovered? rest s.proofDepth s.stream.ahead ∨
        rest = [] ∧ ∀ rest', ¬ClosesBefore recovered? rest' s.proofDepth s.stream.ahead) := by
  obtain ⟨n, hn⟩ : ∃ n, s.proofDepth = n + 1 := ⟨s.proofDepth - 1, by omega⟩
  obtain ⟨taken, rest, htaken, hread, hend⟩ :=
    proofRestFrom_spec _ s.stream.ahead (Nat.le_refl _) n 0 0
  refine ⟨taken, rest, htaken, ?_, by rw [hn]; exact hend⟩
  unfold abandonProof readProofRest
  rw [hn, hread]
  simp [behindProof, Stream.behind, State.consumed]

/-- **Where a proof that was dropped ends.** Let the proof that is open end with the tokens `X`, as
the scan takes boundaries of proofs. All of `X` is passed over, and nothing else, if and only if the
boundaries that are counted close the proof there too, or there are no tokens behind `X` and these
boundaries never close it. They do so where boundaries are written plainly. -/
theorem abandonProof_exact (s : State) (X rest : List Token) (hahead : s.stream.ahead = X ++ rest)
    (hfiles : .endOfInput ∉ X) (hcloses : ClosesBefore s.interpreted? rest s.proofDepth (X ++ rest)) :
    (s.abandonProof = s.behindProof X.length rest ↔
      ClosesBefore recovered? rest s.proofDepth (X ++ rest) ∨
        rest = [] ∧ ∀ rest', ¬ClosesBefore recovered? rest' s.proofDepth X) ∧
    (PlainBoundaries X → s.abandonProof = s.behindProof X.length rest) := by
  obtain ⟨taken, rest', htaken, habandon, hend⟩ := abandonProof_spec hcloses.pos
  rw [hahead] at htaken hend
  have hmarks : marks X = 0 := by
    refine marks_eq_zero.mpr fun t ht => ?_
    rintro rfl
    exact hfiles ht
  have hexact : rest' = rest → s.abandonProof = s.behindProof X.length rest := by
    rintro rfl
    obtain rfl := List.append_cancel_right htaken
    rw [habandon, hmarks]
    rfl
  have hiff : s.abandonProof = s.behindProof X.length rest ↔
      ClosesBefore recovered? rest s.proofDepth (X ++ rest) ∨
        rest = [] ∧ ∀ rest', ¬ClosesBefore recovered? rest' s.proofDepth X := by
    constructor
    · intro h
      have hrest : rest' = rest := by
        rw [habandon] at h
        exact congrArg (fun s : State => s.stream.ahead) h
      subst hrest
      refine hend.imp id ?_
      rintro ⟨rfl, hnever⟩
      exact ⟨rfl, by simpa using hnever⟩
    · rintro (h | ⟨rfl, hnever⟩)
      · refine hexact ?_
        rcases hend with h' | ⟨-, hnever⟩
        · exact h.unique h'
        · exact absurd h (hnever rest)
      · refine hexact ?_
        rcases hend with h' | ⟨rfl, -⟩
        · rw [List.append_nil] at h'
          exact absurd h' (hnever rest')
        · rfl
  refine ⟨hiff, fun hplain => hiff.mpr (.inl ?_)⟩
  exact hcloses.of_agree (advances_interpreted? s) (interpreted?_eq_recovered? s hplain) X
    (List.suffix_refl X) rfl

/-- A proof with another one in it, closed by a plain command, is dropped up to its own end. -/
theorem abandonProof_nested :
    let s : State :=
      { stream := .ofList ([.char 'A', .control "begin"] ++ plainGroup ['p', 'f'] ++
          [.control "endproof", .control "endproof"] ++ [.char 'C'])
        includes := ⟨"main.tex", []⟩
        proofDepth := 1 }
    s.abandonProof = s.behindProof 8 [.char 'C'] := by
  intro s
  have hopen : s.interpreted? (.control "begin" :: (plainGroup ['p', 'f'] ++
      [.control "endproof", .control "endproof", .char 'C'])) =
      some ⟨true, [.control "endproof", .control "endproof", .char 'C']⟩ := by decide
  have hcloses : ClosesBefore s.interpreted? [.char 'C'] 1 s.stream.ahead :=
    .pass rfl (.opening hopen (.close rfl (.last rfl)))
  have hcounted : ClosesBefore recovered? [.char 'C'] 1 s.stream.ahead :=
    .pass rfl (.opening rfl (.close rfl (.last rfl)))
  exact (abandonProof_exact s _ [.char 'C'] rfl (by decide) hcloses).1.mpr (.inl hcounted)

/-- A proof that a plain command opens is not counted: its end is taken for the end of the proof that
was dropped. -/
example :
    (abandonProof
      { stream := .ofList [.control "proof", .control "endproof", .control "endproof", .char 'C']
        includes := ⟨"main.tex", []⟩
        proofDepth := 1 }).stream.ahead = [.control "endproof", .char 'C'] := by
  decide

end State

end ProofProse
