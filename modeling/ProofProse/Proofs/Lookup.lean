import ProofProse.Command.Table
import ProofProse.Definition.Dictionary

/-! # Looking names up

What the tables of commands and a dictionary say of a name. The tables are lists that are indexed: a
name is structural when the list has it (`Structural.ofName?_eq_none_iff`), and what a name does
stands in the list (`Effect.mem_of_ofName?`). No command is kept from being defined without
parameters (`protectedArity?_ne_zero`), so a second name can only be refused where it is frozen. -/

namespace ProofProse

/-! ### Tables -/

/-- The last entry of a name counts, and only a name without one keeps what the table had. -/
theorem getElem?_insertMany_eq_or {β : Type} {name : String} (entries : List (String × β)) :
    ∀ table : Std.HashMap String β,
      (table.insertMany entries)[name]? = (entries.reverse.lookup name).or table[name]? := by
  induction entries with
  | nil => intro table; simp
  | cons entry entries ih =>
    intro table
    rw [Std.HashMap.insertMany_cons, ih, Std.HashMap.getElem?_insert, List.reverse_cons,
      List.lookup_append, Option.or_assoc]
    congr 1
    rw [List.lookup_cons, List.lookup_nil, BEq.comm]
    cases name == entry.1 <;> rfl

theorem mem_of_lookup {β : Type} {name : String} {b : β} {entries : List (String × β)}
    (h : entries.lookup name = some b) : (name, b) ∈ entries := by
  obtain ⟨first, rest, hentries, -⟩ := List.lookup_eq_some_iff.mp h
  rw [hentries]
  exact List.mem_append_right first List.mem_cons_self

theorem Structural.ofName?_eq_none_iff {name : String} :
    Structural.ofName? name = none ↔ (entries.map Prod.fst).contains name = false := by
  unfold ofName? index
  constructor
  · intro h
    rw [← Std.HashMap.contains_ofList, Std.HashMap.contains_eq_isSome_getElem?, h]
    rfl
  · exact Std.HashMap.getElem?_ofList_of_contains_eq_false

theorem Structural.ne_of_ofName? {name other : String} (h : Structural.ofName? name = none)
    (hother : (entries.map Prod.fst).contains other = true) : name ≠ other := by
  rintro rfl
  rw [ofName?_eq_none_iff.mp h] at hother
  cases hother

theorem Structural.pairwise_entries : entries.Pairwise fun a b => (a.1 == b.1) = false := by decide

theorem Structural.ofName?_of_mem {name : String} {kind : Structural} (h : (name, kind) ∈ entries) :
    ofName? name = some kind :=
  Std.HashMap.getElem?_ofList_of_mem BEq.rfl pairwise_entries h

theorem Effect.isSome_ofName? (name : String) :
    (ofName? name).isSome = (Command.entries.map Prod.fst).contains name := by
  unfold ofName? Command.index
  rw [← Std.HashMap.contains_ofList, Std.HashMap.contains_eq_isSome_getElem?]

theorem Effect.ofName?_eq_none {name : String}
    (h : (Command.entries.map Prod.fst).contains name = false) : ofName? name = none := by
  rw [← Option.not_isSome_iff_eq_none, isSome_ofName?, h]
  exact Bool.false_ne_true

theorem Effect.ofName?_eq_lookup (name : String) :
    ofName? name = Command.entries.reverse.lookup name := by
  unfold ofName? Command.index
  rw [Std.HashMap.ofList_eq_insertMany_empty, getElem?_insertMany_eq_or,
    Std.HashMap.getElem?_empty, Option.or_none]

theorem Effect.mem_of_ofName? {name : String} {effect : Effect}
    (h : Effect.ofName? name = some effect) : (name, effect) ∈ Command.entries := by
  rw [ofName?_eq_lookup] at h
  exact List.mem_reverse.mp (mem_of_lookup h)

theorem Effect.ofName?_of_lookup {name : String} {effect : Effect}
    (h : Command.entries.reverse.lookup name = some effect) : ofName? name = some effect := by
  rw [ofName?_eq_lookup, h]

/-- A name has a meaning of its own when a table has it, and some names of tests have one. -/
theorem isBuiltin_eq_false {name : String}
    (heffect : (Command.entries.map Prod.fst).contains name = false)
    (htest : "if".toList.isPrefixOf name.toList = false)
    (hname : (Structural.entries.map Prod.fst).contains name = false) : isBuiltin name = false := by
  have hstructural : Structural.ofName? name = none := Structural.ofName?_eq_none_iff.mpr hname
  unfold isBuiltin isBareTest
  rw [Effect.isSome_ofName?, heffect, htest, hstructural]
  rfl

theorem isBuiltin_of_effect {name : String}
    (heffect : (Command.entries.map Prod.fst).contains name = true) : isBuiltin name = true := by
  unfold isBuiltin
  rw [Effect.isSome_ofName?, heffect]
  rfl

/-- A reference, citation or name that takes no operand. -/
def Effect.refersToNothing : Effect → Bool
  | .placeholder .reference signature => signature.mandatoryCount == 0
  | .placeholder .citation signature => signature.mandatoryCount == 0
  | .placeholder .name signature => signature.mandatoryCount == 0
  | _ => false

theorem refersToNothing_entries : ∀ entry ∈ Command.entries, entry.2.refersToNothing = false := by
  decide +kernel

theorem protectedArity?_eq_none {name : String} (h : Effect.ofName? name = none) :
    protectedArity? name = none := by
  unfold protectedArity?
  rw [h]

theorem protectedArity?_ne_zero (name : String) : protectedArity? name ≠ some 0 := by
  intro h
  have hentry : ∀ effect, Effect.ofName? name = some effect → effect.refersToNothing = false :=
    fun effect heffect => refersToNothing_entries _ (Effect.mem_of_ofName? heffect)
  unfold protectedArity? at h
  split at h
  · next signature heffect => exact ne_of_beq_false (hentry _ heffect) (Option.some.inj h)
  · next signature heffect => exact ne_of_beq_false (hentry _ heffect) (Option.some.inj h)
  · next signature heffect => exact ne_of_beq_false (hentry _ heffect) (Option.some.inj h)
  · cases h

/-! ### Dictionaries -/

namespace Dictionary

variable {d e : Dictionary} {name other : String} {definition : Definition}

theorem find?_empty (name : String) : ({} : Dictionary).find? name = none := by
  have hnone : ({} : Dictionary).names[name]? = none := Std.HashMap.getElem?_empty
  unfold find?
  rw [hnone]

theorem isFrozen_empty (name : String) : ({} : Dictionary).isFrozen name = false := by
  have hnone : ({} : Dictionary).names[name]? = none := Std.HashMap.getElem?_empty
  unfold isFrozen
  rw [hnone]
  rfl

theorem find?_enter (d : Dictionary) (name other : String) (entry : Entry) :
    (d.enter name entry).find? other = if name = other then
      (match entry with
        | .defined definition => some definition
        | .frozen => none)
    else d.find? other := by
  unfold find? enter
  rw [Std.HashMap.getElem?_insert]
  by_cases h : name = other
  · rw [if_pos (beq_iff_eq.mpr h), if_pos h]
    cases entry <;> rfl
  · rw [if_neg (by simpa using h), if_neg h]

theorem isFrozen_enter (d : Dictionary) (name other : String) (entry : Entry) :
    (d.enter name entry).isFrozen other =
      if name = other then entry == .frozen else d.isFrozen other := by
  unfold isFrozen enter
  rw [Std.HashMap.getElem?_insert]
  by_cases h : name = other
  · rw [if_pos (beq_iff_eq.mpr h), if_pos h]
    rfl
  · rw [if_neg (by simpa using h), if_neg h]

theorem find?_of_isFrozen (h : d.isFrozen name = true) : d.find? name = none := by
  unfold isFrozen at h
  unfold find?
  rw [eq_of_beq h]

theorem define_of_arity_zero (d : Dictionary) (name : String) (harity : definition.arity = 0) :
    d.define name definition =
      if d.isFrozen name then .error .frozen else .ok (d.enter name (.defined definition)) := by
  unfold define
  have hprotected : ¬(protectedArity? name == some definition.arity) = true := by
    rw [harity]
    exact fun h => protectedArity?_ne_zero name (eq_of_beq h)
  rw [if_neg hprotected]

theorem enter_of_define (h : d.define name definition = .ok e) :
    d.isFrozen name = false ∧ e = d.enter name (.defined definition) := by
  unfold define at h
  split at h
  · cases h
  next hfrozen =>
  split at h
  · cases h
  · cases h
    exact ⟨Bool.eq_false_iff.mpr hfrozen, rfl⟩

/-- A command with a second name has it as an alias, and is frozen itself. -/
theorem enter_of_renameBuiltin {new old : String} (h : d.renameBuiltin new old = .ok e) :
    e = d ∨ d.isFrozen new = false ∧
      e = (d.enter new (.defined (.alias [.control old]))).freeze old := by
  unfold renameBuiltin at h
  split at h
  · cases h
    exact .inl rfl
  · cases hdefine : d.define new (.alias [.control old]) with
    | error reason =>
      rw [hdefine] at h
      cases h
    | ok d' =>
      rw [hdefine] at h
      cases h
      obtain ⟨hfrozen, rfl⟩ := enter_of_define hdefine
      exact .inr ⟨hfrozen, rfl⟩

theorem isFrozen_enter_of_ne {entry : Entry} (hname : d.isFrozen name = false)
    (h : d.isFrozen other = true) : (d.enter name entry).isFrozen other = true := by
  rw [isFrozen_enter, if_neg]
  · exact h
  · rintro rfl
    rw [hname] at h
    cases h

theorem isFrozen_freeze (h : d.isFrozen other = true) : (d.freeze name).isFrozen other = true := by
  unfold freeze
  rw [isFrozen_enter]
  split
  · rfl
  · exact h

end Dictionary

end ProofProse
