import ProofProse.Definition.Dictionary
import ProofProse.Proofs.Reading
import ProofProse.Source

/-! # Texts without ends of files

The marks where included files end are put on the stream when a file is included, and nowhere else:
the lexer writes none (`marks_tokens`). Definitions are clean when there are none in them, and so is
what a call of a clean definition stands for, if there are none in its arguments
(`marks_expansion`). A dictionary stays clean when clean definitions are added. -/

namespace ProofProse

/-! ### Sources -/

namespace Lexer

theorem marks_begin (c : Char) : marks (begin c).2 = 0 := by
  unfold begin
  split
  case h_13 => split <;> rfl
  all_goals rfl

theorem marks_flush (mode : Mode) : marks (flush mode) = 0 := by
  cases mode <;> rfl

theorem marks_restart (mode : Mode) (c : Char) : marks (restart mode c).2 = 0 := by
  unfold restart
  rw [marks_append, marks_flush, marks_begin]

theorem marks_step (mode : Mode) (c : Char) : marks (step mode c).2 = 0 := by
  cases mode with
  | text => exact marks_begin c
  | escape =>
    unfold step
    dsimp only
    split <;> rfl
  | word letters =>
    unfold step
    dsimp only
    split
    · rfl
    · split
      · exact marks_flush (.word letters)
      · exact marks_restart _ c
  | blanks =>
    unfold step
    dsimp only
    split
    · rfl
    · exact marks_begin c
  | hash | hashes =>
    unfold step
    dsimp only
    split
    · rfl
    · split
      · rfl
      · exact marks_restart _ c
  | _ =>
    unfold step
    dsimp only
    split
    · rfl
    · exact marks_restart _ c

theorem marks_output : ∀ (cs : List Char) (mode : Mode), marks (machine.output mode cs) = 0
  | [], mode => marks_flush mode
  | c :: cs, mode => by
    have hout : machine.output mode (c :: cs) =
        (step mode c).2 ++ machine.output (step mode c).1 cs := rfl
    rw [hout, marks_append, marks_step, marks_output cs]

end Lexer

theorem marks_tokens (text path : String) (corrections : List Correction) :
    marks (Source.tokens text path corrections) = 0 := by
  unfold Source.tokens tokenize
  rw [Text.Transducer.run_eq_output]
  exact Lexer.marks_output _ _

theorem marks_charTokens (name : String) : marks (charTokens name) = 0 := by
  refine marks_eq_zero.mpr fun t ht => ?_
  obtain ⟨c, -, rfl⟩ := List.mem_map.mp ht
  simp

/-! ### Definitions -/

namespace Definition

/-- A definition without ends of files. -/
structure Clean (definition : Definition) : Prop where
  lead : marks definition.lead = 0
  fallback : ∀ fallback, definition.fallback = some fallback → marks fallback = 0
  body : marks definition.body = 0

/-- All arguments are groups or single tokens. -/
def Undelimited (definition : Definition) : Prop := ∀ delimiter ∈ definition.delimiters, delimiter = []

variable {n : Nat} {fallback : Option (List Token)} {body : List Token}

theorem clean_simple (n : Nat) (h : marks body = 0) : (simple n body).Clean :=
  ⟨rfl, nofun, h⟩

theorem clean_ofOptional (n : Nat) (hfallback : ∀ tokens, fallback = some tokens → marks tokens = 0)
    (h : marks body = 0) : (ofOptional n fallback body).Clean := by
  cases fallback with
  | none => exact clean_simple n h
  | some tokens =>
    refine ⟨rfl, fun tokens' hf => ?_, h⟩
    cases hf
    exact hfallback tokens rfl

theorem undelimited_ofOptional (n : Nat) (fallback : Option (List Token)) (body : List Token) :
    (ofOptional n fallback body).Undelimited := by
  intro delimiter h
  cases fallback with
  | none => exact List.eq_of_mem_replicate h
  | some tokens => exact List.eq_of_mem_replicate h

/-! ### Expansions -/

theorem isContent_inertIn {name : String} {t : Token} (h : t.IsContent) :
    (inertIn name t).IsContent := by
  unfold inertIn
  split
  · split <;> simp
  · exact h

theorem mem_argument {arguments : List (List Token)} {n : Nat} {t : Token}
    (h : t ∈ argument arguments n) : ∃ content ∈ arguments, t ∈ content := by
  cases n with
  | zero => cases h
  | succ n =>
    have hget : argument arguments (n + 1) = arguments[n]?.getD [] :=
      List.getD_eq_getElem?_getD ..
    rw [hget] at h
    cases hn : arguments[n]? with
    | none =>
      rw [hn] at h
      cases h
    | some content =>
      rw [hn] at h
      exact ⟨content, List.mem_of_getElem? hn, h⟩

/-- What a call of a clean definition stands for holds no end of a file, if no argument does. -/
theorem marks_expansion {definition : Definition} (h : definition.Clean) (name : String)
    {arguments : List (List Token)} (harguments : ∀ content ∈ arguments, marks content = 0) :
    marks (definition.expansion name arguments) = 0 := by
  refine marks_eq_zero.mpr fun t ht => ?_
  obtain ⟨u, hu, ht⟩ := List.mem_flatMap.mp ht
  have hcontent : u.IsContent := marks_eq_zero.mp h.body u hu
  cases u with
  | parameter n =>
    obtain ⟨v, hv, rfl⟩ := List.mem_map.mp ht
    obtain ⟨content, hmem, hv⟩ := mem_argument hv
    exact isContent_inertIn (marks_eq_zero.mp (harguments content hmem) v hv)
  | deferred n =>
    rw [List.mem_singleton.mp ht]
    simp
  | _ =>
    rw [List.mem_singleton.mp ht]
    exact isContent_inertIn hcontent

end Definition

/-! ### Dictionaries -/

namespace Dictionary

/-- A dictionary without ends of files. Environments have no delimiters either. -/
structure Clean (dictionary : Dictionary) : Prop where
  name : ∀ name definition, dictionary.find? name = some definition → definition.Clean
  environment : ∀ name environment, dictionary.environment? name = some environment →
    environment.opening.Clean ∧ environment.opening.Undelimited ∧ marks environment.closing = 0

variable {d e : Dictionary} {name : String} {definition : Definition}

theorem clean_empty : Clean {} := by
  constructor
  · intro name definition h
    simp [find?] at h
  · intro name environment h
    simp [environment?] at h

theorem Clean.enter (h : d.Clean) (name : String) {entry : Entry}
    (hentry : ∀ definition, entry = .defined definition → definition.Clean) :
    (d.enter name entry).Clean := by
  refine ⟨fun other definition hfind => ?_, h.environment⟩
  unfold find? Dictionary.enter at hfind
  dsimp only at hfind
  rw [Std.HashMap.getElem?_insert] at hfind
  by_cases hname : (name == other) = true
  · rw [if_pos hname] at hfind
    cases entry with
    | defined definition' =>
      cases hfind
      exact hentry definition rfl
    | frozen => cases hfind
  · rw [if_neg hname] at hfind
    exact h.name other definition hfind

theorem Clean.define (h : d.Clean) (hdefinition : definition.Clean)
    (hdefine : d.define name definition = .ok e) : e.Clean := by
  unfold Dictionary.define at hdefine
  split at hdefine
  · cases hdefine
  · split at hdefine
    · cases hdefine
    · cases hdefine
      refine h.enter name fun definition' hentry => ?_
      cases hentry
      exact hdefinition

theorem Clean.renameBuiltin {new old : String} (h : d.Clean)
    (hrename : d.renameBuiltin new old = .ok e) : e.Clean := by
  unfold Dictionary.renameBuiltin at hrename
  split at hrename
  · cases hrename
    exact h
  · cases hdefine : d.define new (.alias [.control old]) with
    | error reason =>
      rw [hdefine] at hrename
      cases hrename
    | ok d' =>
      rw [hdefine] at hrename
      cases hrename
      have hd' : d'.Clean := h.define (Definition.clean_simple 0 rfl) hdefine
      exact hd'.enter old fun _ hentry => by cases hentry

theorem Clean.defineEnvironment (h : d.Clean) (name : String) {environment : EnvironmentDefinition}
    (hopening : environment.opening.Clean) (hplain : environment.opening.Undelimited)
    (hclosing : marks environment.closing = 0) : (d.defineEnvironment name environment).Clean := by
  refine ⟨h.name, fun other environment' hfind => ?_⟩
  unfold environment? Dictionary.defineEnvironment at hfind
  dsimp only at hfind
  rw [Std.HashMap.getElem?_insert] at hfind
  by_cases hname : (name == other) = true
  · rw [if_pos hname] at hfind
    cases hfind
    exact ⟨hopening, hplain, hclosing⟩
  · rw [if_neg hname] at hfind
    exact h.environment other environment' hfind

theorem Clean.declareFlag (h : d.Clean) (flag : String) : (d.declareFlag flag).Clean :=
  ⟨h.name, h.environment⟩

theorem Clean.setFlag (h : d.Clean) (flag : String) (value : Bool) :
    (d.setFlag flag value).1.Clean := by
  unfold Dictionary.setFlag
  split
  · exact ⟨h.name, h.environment⟩
  · exact h

end Dictionary

end ProofProse
