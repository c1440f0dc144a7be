import ProofProse.Proofs.Meaning
import ProofProse.Proofs.Name
import ProofProse.Proofs.Undefined

/-! # Renaming and redefining

What the two declarations leave in the dictionary that can make a name stand for another: giving a
word the meaning of another word (`State.letting`), and defining it without parameters
(`State.redefining`). Neither changes a frozen name. A copy of a definition is entered as it is; a
word that has a meaning of its own becomes an alias of it and is frozen, and any other word becomes
an alias as well, but is not frozen (`Dictionary.copied`).

Where only words are renamed, on a dictionary without definitions, each definition is an alias for
one word, and the words with a meaning of their own among these are frozen (`OnlyRenames`). A word that
is defined without parameters is replaced by what it stands for (`Scan.round_call`), in every frame. -/

namespace ProofProse

theorem Definition.alias_control_inj {name other : String}
    (h : Definition.alias [.control name] = Definition.alias [.control other]) : name = other := by
  have hbody : [Token.control name] = [Token.control other] := congrArg Definition.body h
  exact Token.control.inj (List.cons.inj hbody).1

namespace Dictionary

/-- The dictionary in which a word has been given the meaning of another. -/
def copied (d : Dictionary) (new old : String) : Dictionary :=
  if d.isFrozen new then d
  else
    match d.find? old with
    | some definition => d.enter new (.defined definition)
    | none =>
      if new = old then d
      else
        let renamed := d.enter new (.defined (.alias [.control old]))
        if isBuiltin old then renamed.freeze old else renamed

/-- The dictionary in which a word stands for a body. -/
def redefined (d : Dictionary) (name : String) (body : List Token) : Dictionary :=
  if d.isFrozen name then d else d.enter name (.defined (.simple 0 body))

variable {d e : Dictionary} {P : String → Prop} {name new old : String} {n : Nat}

theorem find?_freeze (d : Dictionary) (name other : String) :
    (d.freeze name).find? other = if name = other then none else d.find? other :=
  find?_enter d name other .frozen

theorem copied_of_find? {definition : Definition} (hnew : d.isFrozen new = false)
    (hfind : d.find? old = some definition) :
    d.copied new old = d.enter new (.defined definition) := by
  unfold copied
  rw [hnew, if_neg Bool.false_ne_true, hfind]

theorem copied_of_unknown (hne : new ≠ old) (hnew : d.isFrozen new = false)
    (hfind : d.find? old = none) (hbuiltin : isBuiltin old = false) :
    d.copied new old = d.enter new (.defined (.alias [.control old])) := by
  unfold copied
  rw [hnew, if_neg Bool.false_ne_true, hfind]
  dsimp only
  rw [if_neg hne, hbuiltin, if_neg Bool.false_ne_true]

theorem isFrozen_copied {other : String} (h : d.isFrozen other = true) :
    (d.copied new old).isFrozen other = true := by
  unfold copied
  split
  · exact h
  next hnew =>
  have henter : ∀ entry, (d.enter new entry).isFrozen other = true :=
    fun entry => isFrozen_enter_of_ne (Bool.eq_false_iff.mpr hnew) h
  split
  · exact henter _
  split
  · exact h
  dsimp only
  split
  · exact isFrozen_freeze (henter _)
  · exact henter _

/-- **A word with a meaning of its own** is frozen when another one is called by it. -/
theorem isFrozen_copied_of_isBuiltin (hne : new ≠ old) (hnew : d.isFrozen new = false)
    (hfind : d.find? old = none) (hbuiltin : isBuiltin old = true) :
    (d.copied new old).isFrozen old = true := by
  unfold copied
  rw [hnew, if_neg Bool.false_ne_true, hfind]
  dsimp only
  rw [if_neg hne, if_pos hbuiltin]
  unfold freeze
  rw [isFrozen_enter, if_pos rfl]
  rfl

/-! ### Dictionaries of renamed words -/

/-- Every definition is an alias for one word that satisfies `P`; it is frozen if it has a meaning
of its own. -/
structure OnlyRenames (P : String → Prop) (d : Dictionary) : Prop where
  isAlias : ∀ name definition, d.find? name = some definition →
    ∃ old, P old ∧ definition = .alias [.control old]
  frozen : ∀ name old, d.find? name = some (.alias [.control old]) → isBuiltin old = true →
    d.isFrozen old = true

theorem onlyRenames_of_empty (h : ∀ name, d.find? name = none) : d.OnlyRenames P where
  isAlias name definition hfind := by
    rw [h name] at hfind
    cases hfind
  frozen name old hfind := by
    rw [h name] at hfind
    cases hfind

theorem OnlyRenames.extend (h : d.OnlyRenames P)
    (hfind : ∀ name definition, e.find? name = some definition →
      d.find? name = some definition ∨ P old ∧ definition = .alias [.control old])
    (hfrozen : ∀ name, d.isFrozen name = true → e.isFrozen name = true)
    (hold : isBuiltin old = true → e.isFrozen old = true) : e.OnlyRenames P where
  isAlias name definition he := by
    rcases hfind name definition he with hd | hnew
    · exact h.isAlias name definition hd
    · exact ⟨old, hnew⟩
  frozen name target he hbuiltin := by
    rcases hfind name _ he with hd | ⟨-, hnew⟩
    · exact hfrozen target (h.frozen name target hd hbuiltin)
    · obtain rfl := Definition.alias_control_inj hnew
      exact hold hbuiltin

/-- **A word is renamed**: the copy of an alias is an alias for the same word; a word with a meaning
of its own is frozen. -/
theorem OnlyRenames.copied (h : d.OnlyRenames P) (hP : d.find? old = none → P old) :
    (d.copied new old).OnlyRenames P := by
  have henter : ∀ {target : String}, P target → ∀ name definition,
      (d.enter new (.defined (.alias [.control target]))).find? name = some definition →
      d.find? name = some definition ∨ P target ∧ definition = .alias [.control target] := by
    intro target htarget name definition hfind
    rw [find?_enter] at hfind
    split at hfind
    · exact .inr ⟨htarget, (Option.some.inj hfind).symm⟩
    · exact .inl hfind
  have hfrozen : ∀ name, d.isFrozen name = true → (d.copied new old).isFrozen name = true :=
    fun name => isFrozen_copied
  unfold Dictionary.copied at hfrozen ⊢
  by_cases hnew : d.isFrozen new = true
  · rw [if_pos hnew]
    exact h
  rw [if_neg hnew] at hfrozen ⊢
  cases hfind : d.find? old with
  | some definition =>
    rw [hfind] at hfrozen
    obtain ⟨target, htarget, rfl⟩ := h.isAlias old definition hfind
    exact h.extend (henter htarget) hfrozen fun hbuiltin =>
      hfrozen target (h.frozen old target hfind hbuiltin)
  | none =>
    rw [hfind] at hfrozen
    dsimp only at hfrozen ⊢
    by_cases hname : new = old
    · rw [if_pos hname]
      exact h
    rw [if_neg hname] at hfrozen ⊢
    by_cases hbuiltin : isBuiltin old = true
    · rw [if_pos hbuiltin] at hfrozen ⊢
      have hentry : ∀ name definition,
          ((d.enter new (.defined (.alias [.control old]))).freeze old).find? name = some definition →
          d.find? name = some definition ∨ P old ∧ definition = .alias [.control old] := by
        intro name definition hentry
        rw [find?_freeze] at hentry
        split at hentry
        · cases hentry
        · exact henter (hP hfind) name definition hentry
      refine h.extend hentry hfrozen fun _ => ?_
      unfold freeze
      rw [isFrozen_enter, if_pos rfl]
      rfl
    · rw [if_neg hbuiltin] at hfrozen ⊢
      exact h.extend (henter (hP hfind)) hfrozen fun hold => absurd hold hbuiltin

/-! ### What a renamed word comes to -/

/-- A word is called by another one, which is not itself. -/
def Renames (d : Dictionary) (name old : String) : Prop :=
  Structural.ofName? name = none ∧ name ≠ old ∧ d.find? name = some (.alias [.control old])

/-- A word comes by `n` renamings to one that is not renamed. -/
inductive Settles (d : Dictionary) : Nat → String → Prop
  | here {name : String} (h : ∀ old, ¬d.Renames name old) : Settles d 0 name
  | behind {n : Nat} {name old : String} (h : d.Renames name old) (hold : Settles d n old) :
      Settles d (n + 1) name

/-- Words of which each is called by another one of them are renamed without end. -/
theorem not_settles_of_closed {Q : String → Prop}
    (hQ : ∀ name, Q name → ∃ old, Q old ∧ d.Renames name old) (h : Q name) : ¬d.Settles n name := by
  intro hsettles
  induction hsettles with
  | here hnone =>
    obtain ⟨old, -, hold⟩ := hQ _ h
    exact hnone old hold
  | behind hrenames _ ih =>
    obtain ⟨old, hold, hrenames'⟩ := hQ _ h
    have hsame := hrenames.2.2.symm.trans hrenames'.2.2
    obtain rfl := Definition.alias_control_inj (Option.some.inj hsame)
    exact ih hold

/-- Among words with a meaning of their own one renaming is all there is. -/
theorem OnlyRenames.settles (h : d.OnlyRenames fun old => isBuiltin old = true) (name : String) :
    d.Settles 0 name ∨ d.Settles 1 name := by
  by_cases hname : ∃ old, d.Renames name old
  · obtain ⟨old, hrenames⟩ := hname
    obtain ⟨target, hbuiltin, halias⟩ := h.isAlias name _ hrenames.2.2
    obtain rfl := Definition.alias_control_inj halias
    have hfrozen := h.frozen name old hrenames.2.2 hbuiltin
    refine .inr (.behind hrenames (.here fun other hold => ?_))
    have hfind := hold.2.2
    rw [find?_of_isFrozen hfrozen] at hfind
    cases hfind
  · exact .inl (.here fun old hold => hname ⟨old, hold⟩)

end Dictionary

namespace Definition

theorem substitute_eq_self {name : String} {body : List Token}
    (h : ∀ t ∈ body, expandToken name [] t = [t]) :
    substitute name body [] = body := by
  unfold substitute
  induction body with
  | nil => rfl
  | cons t body ih =>
    have ht := h t List.mem_cons_self
    have hbody := ih fun x hx => h x (List.mem_cons_of_mem t hx)
    rw [List.flatMap_cons, ht, hbody]
    rfl

theorem expandToken_control {name old : String} (h : old ≠ name) :
    expandToken name [] (.control old) = [.control old] := by
  show [if old == name then Token.inert old else .control old] = _
  rw [if_neg (by simpa using h)]

end Definition

namespace State

/-- The state with other tokens ahead. -/
def facing (s : State) (tokens : List Token) : State := { s with stream := ⟨tokens, s.consumed⟩ }

/-- The state behind `n` tokens, with `rest` ahead. -/
def past (s : State) (n : Nat) (rest : List Token) : State :=
  { s with stream := ⟨rest, s.consumed + n⟩ }

theorem past_eq_facing (s : State) (n : Nat) (rest : List Token) :
    s.past n rest = (s.past n []).facing rest := rfl

theorem past_past (s : State) (m n : Nat) (rest rest' : List Token) :
    (s.past m rest).past n rest' = s.past (n + m) rest' := by
  unfold past consumed
  dsimp only
  rw [Nat.add_assoc, Nat.add_comm m]

/-- The state behind a declaration that gives a word the meaning of another. -/
def letting (s : State) (new old : String) : State :=
  Scan.after (Scan.declaration .copy) (s.facing [.control new, .control old])

/-- The state behind a declaration that defines a word, known or not, as a body. -/
def redefining (s : State) (name : String) (body : List Token) : State :=
  Scan.after (Scan.declaration .newCommand) (s.facing
    ([.openGroup, .control name, .closeGroup, .openGroup] ++ body ++ [.closeGroup]))

end State

namespace Scan

variable {setting : Setting} {nested : Frame → Scan Flow} {s : State} {new old name : String}
  {body rest : List Token} {definition : Definition}

/-! ### Declarations -/

/-- A definition without parameters is entered, unless the name is frozen. -/
theorem dictionary_define (harity : definition.arity = 0) (s : State) :
    (after (define name definition) s).dictionary =
      if s.dictionary.isFrozen name then s.dictionary
      else s.dictionary.enter name (.defined definition) := by
  have hdefine := s.dictionary.define_of_arity_zero name harity
  split at hdefine
  · next hfrozen =>
    rw [after_ok (define_error hdefine), if_pos hfrozen]
    rfl
  · next hfrozen => rw [after_ok (define_ok hdefine), if_neg hfrozen]

theorem arity_alias (tokens : List Token) : (Definition.alias tokens).arity = 0 := rfl

theorem dictionary_copyName
    (hold : ∀ definition, s.dictionary.find? old = some definition → definition.arity = 0) :
    (after (copyName new old) s).dictionary = s.dictionary.copied new old := by
  unfold copyName
  rw [after_get_bind]
  dsimp only
  unfold Dictionary.copied
  cases hfind : s.dictionary.find? old with
  | some definition => exact dictionary_define (hold definition hfind) s
  | none =>
    dsimp only
    have hdefine := s.dictionary.define_of_arity_zero new (arity_alias [.control old])
    by_cases hbuiltin : isBuiltin old = true
    · rw [if_pos hbuiltin]
      unfold Dictionary.renameBuiltin
      by_cases hname : new = old
      · rw [if_pos (beq_iff_eq.mpr hname), if_pos hname, ite_self]
        rfl
      · rw [if_neg (by simpa using hname), if_neg hname, hdefine, if_pos hbuiltin]
        by_cases hfrozen : s.dictionary.isFrozen new = true
        · rw [if_pos hfrozen, if_pos hfrozen]
          rfl
        · rw [if_neg hfrozen, if_neg hfrozen]
          rfl
    · rw [if_neg hbuiltin, if_neg hbuiltin]
      by_cases hname : new = old
      · rw [if_pos (beq_iff_eq.mpr hname), if_pos hname, ite_self]
        rfl
      · rw [if_neg (by simpa using hname), if_neg hname]
        exact dictionary_define (arity_alias _) s

/-- **Renaming** reads two words and copies the meaning of the second. -/
theorem dictionary_letting
    (hold : ∀ definition, s.dictionary.find? old = some definition → definition.arity = 0) :
    (s.letting new old).dictionary = s.dictionary.copied new old := by
  have hsign : ∀ t : State, t.stream.ahead = [.control old] →
      onStream skipCopySign t = .ok () t := by
    intro t ht
    refine onStream_ok ?_
    have hspaces : t.stream.skipSpaces = t.stream := by
      refine Stream.skipWhile_of_head fun x hx => ?_
      rw [ht, List.head?_cons, Option.mem_some_iff] at hx
      rw [← hx]
      rfl
    unfold skipCopySign
    dsimp only
    rw [hspaces, ht]
  have hrun : after (declaration .copy) (s.facing [.control new, .control old]) =
      after (copyName new old) { s with stream := ⟨[], s.consumed + 1 + 1⟩ } := by
    show after copy _ = _
    unfold copy
    rw [after_bind_ok (next_cons rfl)]
    dsimp only
    rw [after_bind_ok (hsign _ rfl), after_bind_ok (next_cons rfl)]
    rfl
  unfold State.letting
  rw [hrun]
  exact dictionary_copyName hold

theorem optionalArgument_group (hs : s.stream.ahead = .openGroup :: rest) :
    optionalArgument s = .ok none s := by
  refine optionalArgument_none fun offset h => ?_
  rw [hs] at h
  cases h

/-- **Redefining** reads a group with the word and a group with the body. -/
theorem dictionary_redefining (hname : name ≠ "end") (hbody : ∀ t ∈ body, t.StandsInGroup) :
    (s.redefining name body).dictionary = s.dictionary.redefined name body := by
  have hstar : ∀ t : State, ∀ rest, t.stream.ahead = .openGroup :: rest →
      onStream (·.skipChar '*') t = .ok () t := by
    intro t rest ht
    refine onStream_ok ?_
    unfold Stream.skipChar
    rw [ht]
  have htarget : ∀ t ∈ [Token.control name], t.StandsInGroup := by
    intro t ht
    rw [List.mem_singleton.mp ht]
    exact ⟨nofun, nofun, nofun, fun h => hname (Token.control.inj h)⟩
  have hbehind : ∀ t : State, ∀ rest, t.stream.ahead = .openGroup :: rest →
      arity t = .ok 0 t := by
    intro t rest ht
    unfold arity
    rw [bind_ok (optionalArgument_group ht)]
    rfl
  have hrun : after (declaration .newCommand) (s.facing
      ([.openGroup, .control name, .closeGroup, .openGroup] ++ body ++ [.closeGroup])) =
      after (define name (.simple 0 body))
        { s with stream := ⟨[], s.consumed + 3 + (body.length + 2)⟩ } := by
    show after (defineCommand false) _ = _
    unfold defineCommand
    rw [after_bind_ok (hstar _ _ rfl), after_bind_ok (argument_group htarget rfl),
      after_bind_ok (hbehind _ _ rfl), after_bind_ok (optionalArgument_group rfl),
      after_bind_ok (argument_group hbody rfl)]
    rfl
  unfold State.redefining
  rw [hrun]
  exact dictionary_define rfl _

/-! ### Calls -/

/-- **A call** without parameters takes the word, and puts what it stands for in its place. -/
theorem round_call (hname : Structural.ofName? name = none)
    (hfind : s.dictionary.find? name = some (.simple 0 body))
    (hs : s.stream.ahead = .control name :: rest) :
    round setting nested frame s = .ok .goOn
      { s with stream := ⟨Definition.substitute name body [] ++ rest, s.consumed + 1⟩ } := by
  let s' : State := { s with stream := ⟨rest, s.consumed + 1⟩ }
  have hmeaning : s'.dictionary.meaning name = .defined (.simple 0 body) :=
    (Dictionary.Means.defined hfind).meaning_eq
  rw [round_cons hs]
  show command setting nested frame name s' = _
  rw [command_meaning hname, hmeaning]
  rfl

theorem round_renames (h : s.dictionary.Renames name old)
    (hs : s.stream.ahead = .control name :: rest) :
    round setting nested frame s =
      .ok .goOn { s with stream := ⟨.control old :: rest, s.consumed + 1⟩ } := by
  obtain ⟨hname, hne, hfind⟩ := h
  have hsubstitute : Definition.substitute name [.control old] [] = [.control old] := by
    refine Definition.substitute_eq_self fun t ht => ?_
    rw [List.mem_singleton.mp ht]
    exact Definition.expandToken_control (Ne.symm hne)
  have hcall : round setting nested frame s = .ok .goOn
      { s with stream := ⟨Definition.substitute name [.control old] [] ++ rest, s.consumed + 1⟩ } :=
    round_call hname hfind hs
  rwa [hsubstitute] at hcall

end Scan

end ProofProse
