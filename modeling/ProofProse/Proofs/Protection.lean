import ProofProse.Proofs.Order
import ProofProse.Proofs.Undefined

/-! # Protected dictionaries

A dictionary is protected when frozen names have no definition, no reference, citation or name command
has a definition that is called as the command is, and no environment of proofs is defined
(`Dictionary.Protected`). Every change that a source can make keeps this and keeps names frozen, so it
holds in every state of a run, and a name that is frozen in one state is frozen in all later ones
(`dictionary_protected`). -/

namespace ProofProse

open Scan

namespace Dictionary

variable {d e : Dictionary} {name : String} {definition : Definition}

/-- What no definition of a source may change. -/
structure Protected (d : Dictionary) : Prop where
  /-- A frozen name means what it meant before. -/
  frozen : ∀ name, d.isFrozen name = true → d.find? name = none
  /-- A reference, citation or name command is called in another way where it is defined. -/
  arity : ∀ name definition, d.find? name = some definition →
    protectedArity? name ≠ some definition.arity
  /-- Environments of proofs keep their meaning. -/
  environments : ∀ name, d.hasEnvironment name = true → isProofName name = false

theorem protected_empty : ({} : Dictionary).Protected where
  frozen _ := find?_of_isFrozen
  arity name definition h := by
    rw [find?_empty] at h
    cases h
  environments name h := by
    have hnone : ({} : Dictionary).environments.contains name = false := Std.HashMap.contains_empty
    exact absurd h (ne_true_of_eq_false hnone)

/-- A definition that is not refused is not called as a protected command is. -/
theorem protectedArity?_of_define (h : d.define name definition = .ok e) :
    protectedArity? name ≠ some definition.arity := by
  unfold define at h
  split at h
  · cases h
  split at h
  · cases h
  next harity => simpa using harity

/-- An entry for a name keeps a dictionary protected, if it is frozen or not called as a protected
command is. -/
theorem Protected.enter (hd : d.Protected) {entry : Entry}
    (h : ∀ definition, entry = .defined definition → protectedArity? name ≠ some definition.arity) :
    (d.enter name entry).Protected where
  frozen _ := find?_of_isFrozen
  arity := by
    intro other definition hfind
    rw [find?_enter] at hfind
    split at hfind
    · next hname =>
      subst hname
      cases entry with
      | defined given =>
        cases hfind
        exact h _ rfl
      | frozen => cases hfind
    · exact hd.arity other definition hfind
  environments := hd.environments

/-- **A change** keeps a dictionary protected. -/
theorem Change.protected (h : d.Change e) (hd : d.Protected) : e.Protected := by
  cases h with
  | @define e name definition h =>
    obtain ⟨-, rfl⟩ := enter_of_define h
    refine hd.enter fun given hgiven => ?_
    cases hgiven
    exact protectedArity?_of_define h
  | @rename e new old h =>
    rcases enter_of_renameBuiltin h with rfl | ⟨-, rfl⟩
    · exact hd
    · have halias : (d.enter new (.defined (.alias [.control old]))).Protected := by
        refine hd.enter fun given hgiven => ?_
        cases hgiven
        exact protectedArity?_ne_zero new
      exact halias.enter nofun
  | @environment name definition h =>
    refine ⟨hd.frozen, hd.arity, fun other hother => ?_⟩
    have hinsert : (d.environments.insert name definition).contains other = true := hother
    rw [Std.HashMap.contains_insert, Bool.or_eq_true] at hinsert
    rcases hinsert with hname | hother
    · rw [← eq_of_beq hname]
      exact h
    · exact hd.environments other hother
  | declareFlag flag => exact ⟨hd.frozen, hd.arity, hd.environments⟩
  | setFlag flag value =>
    unfold Dictionary.setFlag
    split <;> exact ⟨hd.frozen, hd.arity, hd.environments⟩

theorem Changes.protected (h : d.Changes e) (hd : d.Protected) : e.Protected := by
  induction h with
  | refl => exact hd
  | tail _ hchange ih => exact hchange.protected ih

end Dictionary

theorem Scan.copyName_error {s : State} {new old : String} {reason : Rejection}
    (hfind : s.dictionary.find? old = none) (hbuiltin : isBuiltin old = true)
    (h : s.dictionary.renameBuiltin new old = .error reason) :
    copyName new old s = .ok () (s.warn (.definitionRejected new reason)) := by
  unfold copyName
  rw [bind_ok (m := get) (a := s) (t := s) rfl, hfind, if_pos hbuiltin, h]
  rfl

/-- **Dictionaries are protected.** In a run of a source, whatever it includes, the dictionary is
protected before and behind every round, in spans as well, and at the end. A name that is frozen
before a round is frozen behind it, in all states in which more tokens have been taken, and at the
end. Every scan by itself keeps dictionaries protected and names frozen. A definition that is refused
leaves names, environments and flags as they are. -/
theorem dictionary_protected (setting : Setting) (source path : String) :
    (∀ fuel frame start s, Visits setting (.ofSource setting source path) fuel frame start s →
      s.dictionary.Protected ∧
      (∀ left, (after (round setting (inner setting left) frame) s).dictionary.Protected) ∧
      ∀ name, s.dictionary.isFrozen name = true →
        (∀ left, (after (round setting (inner setting left) frame) s).dictionary.isFrozen name =
          true) ∧
        (∀ fuel frame start t, Visits setting (.ofSource setting source path) fuel frame start t →
          s.consumed < t.consumed → t.dictionary.isFrozen name = true) ∧
        ((State.ofSource setting source path).history setting).last.dictionary.isFrozen name =
          true) ∧
    ((State.ofSource setting source path).history setting).last.dictionary.Protected ∧
    (∀ frame s, s.dictionary.Protected → (after (scan setting frame) s).dictionary.Protected ∧
      ∀ name, s.dictionary.isFrozen name = true →
        (after (scan setting frame) s).dictionary.isFrozen name = true) ∧
    (∀ (s : State) name definition reason, s.dictionary.define name definition = .error reason →
      define name definition s = .ok () (s.warn (.definitionRejected name reason))) ∧
    ∀ (s : State) new old reason, s.dictionary.find? old = none → isBuiltin old = true →
      s.dictionary.renameBuiltin new old = .error reason →
      copyName new old s = .ok () (s.warn (.definitionRejected new reason)) := by
  have hprotected : ∀ {s : State}, (State.ofSource setting source path).Precedes s →
      s.dictionary.Protected := fun h => h.changes.protected Dictionary.protected_empty
  have hlast : (State.ofSource setting source path).Precedes
      ((State.ofSource setting source path).history setting).last :=
    (Visits.begins .first).precedes_last
  refine ⟨fun fuel frame start s hs => ⟨hprotected hs.precedes_first, fun left => ?_,
    fun name hname => ⟨fun left => ?_, fun fuel frame start t ht hconsumed => ?_, ?_⟩⟩,
    hprotected hlast, fun frame s hs => ?_, fun s name definition reason h => define_error h,
    fun s new old reason hfind hbuiltin h => copyName_error hfind hbuiltin h⟩
  · exact hprotected (hs.precedes_first.trans (precedes_round setting left frame s))
  · exact (precedes_round setting left frame s).changes.isFrozen hname
  · exact (hs.precedes ht hconsumed).changes.isFrozen hname
  · exact hs.precedes_last.changes.isFrozen hname
  · have hscan : s.Precedes (after (scan setting frame) s) :=
      precedes_within (rounds setting) frame s.consumed s
    exact ⟨hscan.changes.protected hs, fun name hname => hscan.changes.isFrozen hname⟩

end ProofProse
