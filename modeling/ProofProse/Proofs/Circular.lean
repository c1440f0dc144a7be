import ProofProse.Proofs.Renaming

/-! # Words that come back to themselves

Whether the scan of a word ends by itself, where words have been renamed and redefined, depends on
what the renamed words are called by. A word with a meaning of its own is frozen when another one is
called by it, so nothing leads back from it. A word without any meaning is not frozen: it can be
renamed or defined later, and then it may lead back to the word that is called by it.

Where words have been renamed only, the scan of a word follows the renamings one by one. It ends by
itself if they come to a word that is not renamed (`finishes_of_settles`), and runs out if they
never do (`runsOut_of_unsettled`). Where a word is renamed and the word that it is called by is
defined in terms of it, the scan runs out exactly if the declarations are not refused and there was
no meaning to freeze (`State.Circular`); otherwise at most the body of the definition is read, and
only characters and frozen commands are in it. -/

namespace ProofProse

open Scan State

namespace Dictionary

/-- Of the words that are given the meaning of another one, in order, each is given a definition, or
the meaning of a word that satisfies `P`. -/
def CopiesOnly (P : String → Prop) (d : Dictionary) : List (String × String) → Prop
  | [] => True
  | (new, old) :: pairs =>
    (d.find? old = none → P old) ∧ (d.copied new old).CopiesOnly P pairs

theorem copiesOnly_of_forall {P : String → Prop} (hP : ∀ old, P old) :
    ∀ (pairs : List (String × String)) (d : Dictionary), d.CopiesOnly P pairs
  | [], _ => trivial
  | (_, _) :: pairs, _ => ⟨fun _ => hP _, copiesOnly_of_forall hP pairs _⟩

end Dictionary

namespace State

/-- The state behind a number of declarations that each give a word the meaning of another. -/
def lettingAll (s : State) (pairs : List (String × String)) : State :=
  pairs.foldl (fun s pair => s.letting pair.1 pair.2) s

/-- No declaration is refused, the second word has no meaning that would be frozen, and its body
uses the first word, which is called by the second. -/
def Circular (s : State) (new old : String) (body : List Token) : Prop :=
  isBuiltin old = false ∧ s.dictionary.isFrozen new = false ∧ s.dictionary.isFrozen old = false ∧
    .control new ∈ body

/-- The body uses a frozen word that names files. -/
def NamesFiles (s : State) (new : String) (body : List Token) : Prop :=
  .control new ∈ body ∧ s.dictionary.isFrozen new = true ∧
    ∃ kind, Effect.ofName? new = some (.inclusion kind)

end State

/-! ### Bodies -/

/-- A body made of characters and one word. -/
def UsesOnly (new : String) (body : List Token) : Prop :=
  ∀ t ∈ body, t = .control new ∨ ∃ c, t = .char c

section Bodies

variable {new old : String} {body : List Token}

/-- A body that uses the word begins with characters, and then the word. -/
theorem UsesOnly.split (h : UsesOnly new body) (hnew : .control new ∈ body) :
    ∃ (cs : List Char) (tail : List Token), body = cs.map .char ++ .control new :: tail := by
  induction body with
  | nil => cases hnew
  | cons t body ih =>
    rcases h t List.mem_cons_self with rfl | ⟨c, rfl⟩
    · exact ⟨[], body, rfl⟩
    · have hrest : .control new ∈ body := by
        rcases List.mem_cons.mp hnew with heq | hrest
        · cases heq
        · exact hrest
      obtain ⟨cs, tail, rfl⟩ := ih (fun x hx => h x (List.mem_cons_of_mem _ hx)) hrest
      exact ⟨c :: cs, tail, rfl⟩

theorem UsesOnly.substitute_eq (h : UsesOnly new body) (hne : new ≠ old) :
    Definition.substitute old body [] = body := by
  refine Definition.substitute_eq_self fun t ht => ?_
  rcases h t ht with rfl | ⟨c, rfl⟩
  · exact Definition.expandToken_control hne
  · rfl

end Bodies

namespace Scan

open Dictionary

variable {library : Library} {setting : Setting} {nested : Frame → Scan Flow} {s t : State}
  {d : Dictionary} {P : String → Prop} {n : Nat} {new old name : String} {body rest : List Token}

/-! ### Calls -/

theorem finishes_self (hname : Structural.ofName? name = none)
    (hfind : s.dictionary.find? name = some (.alias [.control name]))
    (hs : s.stream.ahead = [.control name]) : s.Finishes library 2 := by
  have hsubstitute : Definition.substitute name [.control name] [] = [.inert name] := by
    show [if name == name then Token.inert name else .control name] = _
    rw [if_pos (beq_self_eq_true name)]
  let t : State := { s with stream := ⟨[.inert name], s.consumed + 1⟩ }
  have hcall : ∀ setting nested, round setting nested .file s = .ok .goOn t := by
    intro setting nested
    have hcall : round setting nested .file s = .ok .goOn
        { s with stream := ⟨Definition.substitute name [.control name] [] ++ [], s.consumed + 1⟩ } :=
      round_call hname hfind hs
    rwa [hsubstitute] at hcall
  have hinert : ∀ setting nested, round setting nested .file t =
      .ok .goOn { t with stream := ⟨[], t.consumed + 1⟩ } := by
    intro setting nested
    have hahead : t.stream.ahead = [.inert name] := rfl
    rw [round_cons hahead]
    rfl
  have ht : t.Finishes library 1 := finishes_goOn hinert rfl (finishes_nil rfl)
  exact finishes_goOn hcall rfl ht

/-! ### Words that are only renamed -/

/-- **Renamings that come to an end**, by induction on their number; each takes a token. -/
theorem finishes_of_settles (hd : d.OnlyRenames P) (h : d.Settles n name) :
    ∀ s : State, s.dictionary = d → s.stream.ahead = [.control name] →
      s.Finishes library (n + 2) := by
  induction h with
  | @here name h =>
    rintro s rfl hs
    cases hname : Structural.ofName? name with
    | some kind =>
      have hsome : Structural.ofName? name ≠ none := by
        rw [hname]
        nofun
      have hword : s.Finishes library 1 := finishes_word (fun hnone => absurd hnone hsome) hs
      exact hword.mono (by omega)
    | none =>
      cases hfind : s.dictionary.find? name with
      | none =>
        have hword : s.Finishes library 1 := finishes_word (fun _ => hfind) hs
        exact hword.mono (by omega)
      | some definition =>
        obtain ⟨old, -, rfl⟩ := hd.isAlias name definition hfind
        by_cases hself : name = old
        · rw [← hself] at hfind
          exact finishes_self hname hfind hs
        · exact absurd ⟨hname, hself, hfind⟩ (h old)
  | @behind n name old h hold ih =>
    rintro s rfl hs
    let t : State := { s with stream := ⟨[.control old], s.consumed + 1⟩ }
    have ht : t.Finishes library (n + 2) := ih t rfl rfl
    have hround : ∀ setting nested, round setting nested .file s = .ok .goOn t :=
      fun _ _ => round_renames h hs
    have hmore := finishes_goOn hround rfl ht
    exact hmore.mono (by omega)

/-- **Renamings that do not.** Each leads to a word whose renamings do not end either. -/
theorem runsOut_of_unsettled (hs : s.stream.ahead = [.control name])
    (h : ∀ n, ¬s.dictionary.Settles n name) : s.RunsOut library := by
  let J : State → Prop := fun t => t.inProof = s.inProof ∧
    ∃ x, t.stream.ahead = [.control x] ∧ ∀ n, ¬t.dictionary.Settles n x
  have hJ : J s := ⟨rfl, name, hs, h⟩
  refine runsOut_of_invariant hJ (fun t ht => ht.1) fun t ht setting => ?_
  obtain ⟨hproof, x, hx, hnever⟩ := ht
  obtain ⟨y, hy⟩ : ∃ y, t.dictionary.Renames x y :=
    Classical.byContradiction fun hnone => hnever 0 (.here fun y hy => hnone ⟨y, hy⟩)
  let u : State := { t with stream := ⟨[.control y], t.consumed + 1⟩ }
  have hu : J u := ⟨hproof, y, rfl, fun n hn => hnever (n + 1) (.behind hy hn)⟩
  exact ⟨u, hu, fun _ => round_renames hy hx⟩

theorem dictionary_lettingAll : ∀ (pairs : List (String × String)) (s : State),
    s.dictionary.OnlyRenames P → s.dictionary.CopiesOnly P pairs →
      (s.lettingAll pairs).dictionary =
          pairs.foldl (fun d pair => d.copied pair.1 pair.2) s.dictionary ∧
        (s.lettingAll pairs).dictionary.OnlyRenames P
  | [], _, hs, _ => ⟨rfl, hs⟩
  | (new, old) :: pairs, s, hs, hpairs => by
    obtain ⟨hold, hpairs⟩ := hpairs
    have hdictionary : (s.letting new old).dictionary = s.dictionary.copied new old := by
      refine dictionary_letting fun definition hfind => ?_
      obtain ⟨target, -, rfl⟩ := hs.isAlias old definition hfind
      rfl
    have hcopied : (s.dictionary.copied new old).OnlyRenames P := hs.copied hold
    rw [← hdictionary] at hcopied hpairs
    obtain ⟨hrest, honly⟩ := dictionary_lettingAll pairs (s.letting new old) hcopied hpairs
    rw [hdictionary] at hrest
    exact ⟨hrest, honly⟩

/-! ### A word that is renamed, and one that is redefined -/

/-- **Two words that stand for each other.** Ahead is always one of them, perhaps behind some
characters. -/
theorem runsOut_of_mutual (hne : new ≠ old) (hbody : UsesOnly new body) (hnew : .control new ∈ body)
    (hnewName : Structural.ofName? new = none) (holdName : Structural.ofName? old = none)
    (hfindNew : s.dictionary.find? new = some (.alias [.control old]))
    (hfindOld : s.dictionary.find? old = some (.simple 0 body))
    (hs : s.stream.ahead = [.control old]) : s.RunsOut library := by
  let J : State → Prop := fun t => t.inProof = s.inProof ∧ t.dictionary = s.dictionary ∧
    ∃ (cs : List Char) (word : String) (tail : List Token), (word = new ∨ word = old) ∧
      t.stream.ahead = cs.map .char ++ .control word :: tail
  have hJ : J s := ⟨rfl, rfl, [], old, [], .inr rfl, hs⟩
  refine runsOut_of_invariant hJ (fun t ht => ht.1) fun t ht setting => ?_
  obtain ⟨hproof, hdictionary, cs, word, tail, hword, hahead⟩ := ht
  rw [← hdictionary] at hfindNew hfindOld
  cases cs with
  | cons c cs =>
    obtain ⟨u, hu, hsource, hin⟩ :=
      character_ok c { t with stream := ⟨cs.map .char ++ .control word :: tail, t.consumed + 1⟩ }
    have hround : ∀ nested, round setting nested .file t = .ok .goOn u := by
      intro nested
      rw [round_cons hahead]
      exact bind_ok hu
    have hJu : J u := ⟨hin.trans hproof, hsource.2.2.trans hdictionary, cs, word, tail, hword,
      congrArg Stream.ahead hsource.1⟩
    exact ⟨u, hJu, hround⟩
  | nil =>
    rcases hword with rfl | rfl
    · refine ⟨_, ?_, fun nested => round_renames ⟨hnewName, hne, hfindNew⟩ hahead⟩
      exact ⟨hproof, hdictionary, [], old, tail, .inr rfl, rfl⟩
    · obtain ⟨ds, behind, hsplit⟩ := hbody.split hnew
      refine ⟨_, ?_, fun nested => round_call holdName hfindOld hahead⟩
      rw [hbody.substitute_eq hne]
      refine ⟨hproof, hdictionary, ds, new, behind ++ tail, .inl rfl, ?_⟩
      rw [hsplit]
      simp

/-- Where the body brings up no more than characters and frozen commands, it is read once. -/
theorem finishes_of_fixed (hname : Structural.ofName? old = none)
    (hfind : s.dictionary.find? old = some (.simple 0 body))
    (hsubstitute : Definition.substitute old body [] = body)
    (hbody : ∀ t ∈ body, t.IsFixed s.dictionary) (hs : s.stream.ahead = [.control old]) :
    s.Finishes library (body.length * body.length + 1) := by
  let t : State := { s with stream := ⟨body, s.consumed + 1⟩ }
  have hround : ∀ setting nested, round setting nested .file s = .ok .goOn t := by
    intro setting nested
    have hcall : round setting nested .file s = .ok .goOn
        { s with stream := ⟨Definition.substitute old body [] ++ [], s.consumed + 1⟩ } :=
      round_call hname hfind hs
    rwa [hsubstitute, List.append_nil] at hcall
  have ht : t.Finishes library (body.length * body.length) :=
    finishes_fixed body.length t hbody (Nat.le_refl _)
  exact finishes_goOn hround rfl ht

section Redefined

variable (hnewName : Structural.ofName? new = none) (holdName : Structural.ofName? old = none)
  (hfindOld : s.dictionary.find? old = none) (hbody : UsesOnly new body)

include hnewName holdName hfindOld hbody

theorem dictionary_redefining_letting :
    ((s.letting new old).redefining old body).dictionary =
      (s.dictionary.copied new old).redefined old body := by
  have hold : old ≠ "end" := Structural.ne_of_ofName? holdName (by decide)
  have hnew : new ≠ "end" := Structural.ne_of_ofName? hnewName (by decide)
  have hgroup : ∀ t ∈ body, t.StandsInGroup := by
    intro t ht
    rcases hbody t ht with rfl | ⟨c, rfl⟩
    · exact ⟨nofun, nofun, nofun, fun h => hnew (Token.control.inj h)⟩
    · exact ⟨nofun, nofun, nofun, nofun⟩
  have hcopied : (s.letting new old).dictionary = s.dictionary.copied new old := by
    refine dictionary_letting fun definition h => ?_
    rw [hfindOld] at h
    cases h
  rw [dictionary_redefining hold hgroup, hcopied]

/-- **The circle**: both words stand for something, and neither is frozen. -/
theorem runsOut_of_circular (hne : new ≠ old) (h : s.Circular new old body) :
    (((s.letting new old).redefining old body).facing [.control old]).RunsOut library := by
  obtain ⟨hbuiltin, hfrozenNew, hfrozenOld, hnew⟩ := h
  have hdictionary : (((s.letting new old).redefining old body).facing [.control old]).dictionary =
      (s.dictionary.enter new (.defined (.alias [.control old]))).enter old
        (.defined (.simple 0 body)) := by
    show ((s.letting new old).redefining old body).dictionary = _
    rw [dictionary_redefining_letting hnewName holdName hfindOld hbody]
    rw [copied_of_unknown hne hfrozenNew hfindOld hbuiltin]
    unfold Dictionary.redefined
    rw [isFrozen_enter, if_neg hne, hfrozenOld, if_neg Bool.false_ne_true]
  refine runsOut_of_mutual hne hbody hnew hnewName holdName ?_ ?_ rfl
  · rw [hdictionary, find?_enter, if_neg (Ne.symm hne), find?_enter, if_pos rfl]
  · rw [hdictionary, find?_enter, if_pos rfl]

/-- **No circle**: the second word is frozen, or its body does not use the first word, or that one
is frozen. -/
theorem finishes_of_not_circular (hne : new ≠ old) (h : ¬s.Circular new old body)
    (hfiles : ¬s.NamesFiles new body) :
    (((s.letting new old).redefining old body).facing [.control old]).Finishes library
      (body.length * body.length + 1) := by
  have hdictionary : (((s.letting new old).redefining old body).facing [.control old]).dictionary =
      (s.dictionary.copied new old).redefined old body :=
    dictionary_redefining_letting hnewName holdName hfindOld hbody
  unfold Dictionary.redefined at hdictionary
  by_cases hfrozen : (s.dictionary.copied new old).isFrozen old = true
  · rw [if_pos hfrozen] at hdictionary
    have hfind := find?_of_isFrozen hfrozen
    rw [← hdictionary] at hfind
    exact Finishes.mono (finishes_word (fun _ => hfind) rfl) (by omega)
  rw [if_neg hfrozen] at hdictionary
  have hnew : .control new ∈ body → s.dictionary.isFrozen new = true := by
    intro hmem
    cases hnew : s.dictionary.isFrozen new with
    | true => rfl
    | false =>
      have hold : s.dictionary.isFrozen old = false :=
        Bool.eq_false_iff.mpr fun hold => hfrozen (isFrozen_copied hold)
      have hbuiltin : isBuiltin old = false := Bool.eq_false_iff.mpr fun hbuiltin =>
        hfrozen (isFrozen_copied_of_isBuiltin hne hnew hfindOld hbuiltin)
      exact absurd ⟨hbuiltin, hnew, hold, hmem⟩ h
  refine finishes_of_fixed holdName ?_ (hbody.substitute_eq hne) (fun t ht => ?_) rfl
  · rw [hdictionary, find?_enter, if_pos rfl]
  · rcases hbody t ht with rfl | ⟨c, rfl⟩
    · rw [hdictionary]
      refine ⟨hnewName, ?_, fun kind hkind => hfiles ⟨ht, hnew ht, kind, hkind⟩⟩
      exact isFrozen_enter_of_ne (Bool.eq_false_iff.mpr hfrozen) (isFrozen_copied (hnew ht))
    · trivial

end Redefined

end Scan

/-- **Renamed words end unless they come back to themselves.** Let a word be called by another one,
neither of them structural or defined, and let that one be defined by a body made of characters and
the first word, whether these declarations are refused or not. By itself the second word then ends
the scan within a number of tokens that depends on the length of the body only, except where it
comes back to itself: if it had no meaning that could be frozen, nothing was refused and its body
uses the first word, the scan runs out. (Where the body uses a frozen word that names files, what is
read depends on the files.)

Let any words be called by others, in any order, where nothing was defined before. By itself a word
then ends the scan exactly if its renamings come to an end, with two tokens beside those for the
renamings; otherwise the scan runs out. The renamings of all words come to an end where only words
with a meaning are given to others. -/
theorem renamed_words_end_unless_circular (library : Library) (s : State) :
    (∀ new old body, new ≠ old → Structural.ofName? new = none → Structural.ofName? old = none →
      s.dictionary.find? old = none → UsesOnly new body →
      (s.Circular new old body →
        (((s.letting new old).redefining old body).facing [.control old]).RunsOut library) ∧
      (¬s.Circular new old body → ¬s.NamesFiles new body →
        (((s.letting new old).redefining old body).facing [.control old]).EndsBy library
          (body.length * body.length + 1))) ∧
    ((∀ name, s.dictionary.find? name = none) → ∀ pairs name,
      (∀ n, (s.lettingAll pairs).dictionary.Settles n name →
        ((s.lettingAll pairs).facing [.control name]).EndsBy library (n + 2)) ∧
      ((∀ n, ¬(s.lettingAll pairs).dictionary.Settles n name) →
        ((s.lettingAll pairs).facing [.control name]).RunsOut library) ∧
      (s.dictionary.CopiesOnly (fun old => isBuiltin old = true) pairs →
        ((s.lettingAll pairs).facing [.control name]).EndsBy library 3)) := by
  refine ⟨fun new old body hne hnew hold hfind hbody =>
      ⟨fun hcircular => ?_, fun hnot hfiles => ?_⟩,
    fun hempty pairs name => ⟨fun n hsettles => ?_, fun hnever => ?_, fun hknown => ?_⟩⟩
  · exact runsOut_of_circular hnew hold hfind hbody hne hcircular
  · exact Finishes.endsBy (finishes_of_not_circular hnew hold hfind hbody hne hnot hfiles)
  · have honly : (s.lettingAll pairs).dictionary.OnlyRenames fun _ => True :=
      (dictionary_lettingAll pairs s (Dictionary.onlyRenames_of_empty hempty)
        (Dictionary.copiesOnly_of_forall (fun _ => trivial) pairs _)).2
    exact Finishes.endsBy (finishes_of_settles honly hsettles _ rfl rfl)
  · exact runsOut_of_unsettled rfl hnever
  · have honly : (s.lettingAll pairs).dictionary.OnlyRenames fun old => isBuiltin old = true :=
      (dictionary_lettingAll pairs s (Dictionary.onlyRenames_of_empty hempty) hknown).2
    have hends : ∀ n, n ≤ 1 → (s.lettingAll pairs).dictionary.Settles n name →
        ((s.lettingAll pairs).facing [.control name]).Finishes library 3 := by
      intro n hn hsettles
      exact Finishes.mono (finishes_of_settles honly hsettles _ rfl rfl) (by omega)
    rcases honly.settles name with hsettles | hsettles
    · exact (hends 0 (by omega) hsettles).endsBy
    · exact (hends 1 (by omega) hsettles).endsBy

/-- A file of which nothing has been read. -/
def State.blank : State := .start "main.tex" []

theorem dictionary_blank (name : String) :
    State.blank.dictionary.find? name = none ∧ State.blank.dictionary.isFrozen name = false :=
  ⟨Dictionary.find?_empty name, Dictionary.isFrozen_empty name⟩

/-- Three words without a meaning that are called by one another in turn. -/
def circlePairs : List (String × String) := [("one", "two"), ("two", "three"), ("three", "one")]

/-- The third word is given the meaning of the first, which is called by the second. -/
theorem renames_circle :
    (State.blank.lettingAll circlePairs).dictionary.Renames "two" "three" ∧
      (State.blank.lettingAll circlePairs).dictionary.Renames "three" "two" := by
  let d := State.blank.dictionary
  let d₁ := d.enter "one" (.defined (.alias [.control "two"]))
  let d₂ := d₁.enter "two" (.defined (.alias [.control "three"]))
  let d₃ := d₂.enter "three" (.defined (.alias [.control "two"]))
  have hfind := fun name => (dictionary_blank name).1
  have hfrozen := fun name => (dictionary_blank name).2
  have htwo : isBuiltin "two" = false :=
    isBuiltin_eq_false (by decide +kernel) (by decide) (by decide)
  have hthree : isBuiltin "three" = false :=
    isBuiltin_eq_false (by decide +kernel) (by decide) (by decide)
  have hfrozen₁ : ∀ name, d₁.isFrozen name = false := by
    intro name
    rw [Dictionary.isFrozen_enter]
    split
    · rfl
    · exact hfrozen name
  have hfrozen₂ : ∀ name, d₂.isFrozen name = false := by
    intro name
    rw [Dictionary.isFrozen_enter]
    split
    · rfl
    · exact hfrozen₁ name
  have hfind₁ : d₁.find? "three" = none := by
    rw [Dictionary.find?_enter, if_neg (by decide)]
    exact hfind "three"
  have hfind₂ : d₂.find? "one" = some (.alias [.control "two"]) := by
    rw [Dictionary.find?_enter, if_neg (by decide), Dictionary.find?_enter, if_pos rfl]
  have hdictionary : (State.blank.lettingAll circlePairs).dictionary = d₃ := by
    have hfold := (dictionary_lettingAll circlePairs State.blank
      (Dictionary.onlyRenames_of_empty hfind)
      (Dictionary.copiesOnly_of_forall (fun _ => trivial) circlePairs _)).1
    rw [hfold]
    unfold circlePairs
    rw [List.foldl_cons, List.foldl_cons, List.foldl_cons, List.foldl_nil]
    dsimp only
    rw [Dictionary.copied_of_unknown (by decide) (hfrozen _) (hfind _) htwo,
      Dictionary.copied_of_unknown (by decide) (hfrozen₁ _) hfind₁ hthree,
      Dictionary.copied_of_find? (hfrozen₂ _) hfind₂]
  rw [hdictionary]
  refine ⟨⟨Structural.ofName?_eq_none_iff.mpr (by decide), by decide, ?_⟩,
    Structural.ofName?_eq_none_iff.mpr (by decide), by decide, ?_⟩
  · rw [Dictionary.find?_enter, if_neg (by decide), Dictionary.find?_enter, if_pos rfl]
  · rw [Dictionary.find?_enter, if_pos rfl]

/-- A word that means nothing is called by another one and then defined by it, and three such words
are called by one another: both run out. A body of characters ends, and so does a second name of a
known command. -/
theorem unknown_words_run_out :
    (((State.blank.letting "new" "old").redefining "old" [.control "new"]).facing
      [.control "old"]).RunsOut .empty ∧
    (((State.blank.letting "new" "old").redefining "old" [.char 'x']).facing
      [.control "old"]).EndsBy .empty 2 ∧
    ((State.blank.lettingAll circlePairs).facing [.control "three"]).RunsOut .empty ∧
    ((State.blank.lettingAll [("heading", "section")]).facing
      [.control "heading"]).EndsBy .empty 3 := by
  have hall := renamed_words_end_unless_circular .empty State.blank
  have hnew : Structural.ofName? "new" = none := Structural.ofName?_eq_none_iff.mpr (by decide)
  have hold : Structural.ofName? "old" = none := Structural.ofName?_eq_none_iff.mpr (by decide)
  have hunknown : isBuiltin "old" = false :=
    isBuiltin_eq_false (by decide +kernel) (by decide) (by decide)
  have hfind := fun name => (dictionary_blank name).1
  have hfrozen := fun name => (dictionary_blank name).2
  refine ⟨?_, ?_, ?_, ?_⟩
  · have huses : UsesOnly "new" [.control "new"] := fun t ht => .inl (List.mem_singleton.mp ht)
    exact (hall.1 "new" "old" _ (by decide) hnew hold (hfind _) huses).1
      ⟨hunknown, hfrozen _, hfrozen _, List.mem_singleton_self _⟩
  · have huses : UsesOnly "new" [.char 'x'] := fun t ht => .inr ⟨'x', List.mem_singleton.mp ht⟩
    have hmem : Token.control "new" ∉ [Token.char 'x'] := by decide
    exact (hall.1 "new" "old" _ (by decide) hnew hold (hfind _) huses).2
      (fun h => hmem h.2.2.2) fun h => hmem h.1
  · refine (hall.2 hfind _ _).2.1 fun n => ?_
    obtain ⟨htwo, hthree⟩ := renames_circle
    have hclosed : ∀ name, name = "two" ∨ name = "three" →
        ∃ old, (old = "two" ∨ old = "three") ∧
          (State.blank.lettingAll circlePairs).dictionary.Renames name old := by
      rintro name (rfl | rfl)
      · exact ⟨_, .inr rfl, htwo⟩
      · exact ⟨_, .inl rfl, hthree⟩
    exact Dictionary.not_settles_of_closed hclosed (.inr rfl)
  · exact (hall.2 hfind _ _).2.2 ⟨fun _ => isBuiltin_of_effect (by decide), trivial⟩

end ProofProse
