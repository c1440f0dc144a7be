import ProofProse.Proofs.Stream
import ProofProse.Stream.Tape
import Mathlib.Data.List.Perm.Basic

/-! # Tapes stand for streams

`Tape.Shows t s` says that a tape stands for a stream, and that nothing is left in its used slots:
these hold spaces, and behind them stand the tokens ahead. A tape that shows a stream answers each
request as the stream does, and shows the stream behind the request (`Shows.respond`); so it does
with a row of requests (`Shows.behindAll`). What the stream hands out and what is ahead are together
the tokens that it began with and those that were put back (`Stream.perm_behindAll`). -/

namespace ProofProse

/-! ### Rows of requests -/

namespace Stream

namespace Request

/-- The tokens that a request puts in front. -/
def supply : Request → List Token
  | pushBack tokens => tokens
  | pushBackOne token => [token]
  | _ => []

/-- The tokens that a request takes from those ahead. -/
def taken (ahead : List Token) : Request → List Token
  | next => ahead.take 1
  | skipSpaces => ahead.takeWhile Token.isSpace
  | skip n => ahead.take n
  | _ => []

/-- A request that only looks ahead. -/
def looks : Request → Bool
  | peek => true
  | peekNth _ => true
  | pastSpaces => true
  | groupName _ => true
  | _ => false

end Request

/-- The answers to a row of requests. -/
def answers (s : Stream) : List Request → List Answer
  | [] => []
  | request :: requests => (s.respond request).1 :: (s.respond request).2.answers requests

/-- The stream behind a row of requests. -/
def behindAll (s : Stream) : List Request → Stream
  | [] => s
  | request :: requests => (s.respond request).2.behindAll requests

/-- All tokens that a row of requests takes, in order. -/
def takenAll (s : Stream) : List Request → List Token
  | [] => []
  | request :: requests => request.taken s.ahead ++ (s.respond request).2.takenAll requests

/-! ### What streams hand out -/

theorem passWhile_eq (p : Token → Bool) : ∀ (tokens : List Token) (count : Nat),
    passWhile p count tokens =
      ⟨tokens.dropWhile p, count + (tokens.takeWhile p).length⟩
  | [], count => rfl
  | t :: rest, count => by
    unfold passWhile
    by_cases ht : p t = true
    · rw [if_pos ht, passWhile_eq p rest (count + 1), List.dropWhile_cons_of_pos ht,
        List.takeWhile_cons_of_pos ht, List.length_cons]
      congr 1
      omega
    · rw [if_neg ht, List.dropWhile_cons_of_neg ht, List.takeWhile_cons_of_neg ht]
      rfl

theorem passTokens_eq : ∀ (n count : Nat) (tokens : List Token),
    passTokens n count tokens = ⟨tokens.drop n, count + (tokens.take n).length⟩
  | 0, count, tokens => rfl
  | n + 1, count, [] => rfl
  | n + 1, count, t :: rest => by
    show passTokens n (count + 1) rest = _
    rw [passTokens_eq n (count + 1) rest, List.drop_succ_cons, List.take_succ_cons,
      List.length_cons]
    congr 1
    omega

theorem skip_append (tokens rest : List Token) (count : Nat) :
    skip ⟨tokens ++ rest, count⟩ tokens.length = ⟨rest, count + tokens.length⟩ := by
  unfold skip
  rw [passTokens_eq, List.drop_left, List.take_left]

theorem skipWhile_append {f : Token → Bool} {tokens rest : List Token} {count : Nat}
    (htokens : ∀ x ∈ tokens, f x = true) (hrest : ∀ x ∈ rest.head?, f x = false) :
    skipWhile ⟨tokens ++ rest, count⟩ f = ⟨rest, count + tokens.length⟩ := by
  have htake : rest.takeWhile f = [] ∧ rest.dropWhile f = rest := by
    cases rest with
    | nil => exact ⟨rfl, rfl⟩
    | cons x rest =>
      have hx : ¬f x = true := by simpa using hrest x rfl
      exact ⟨List.takeWhile_cons_of_neg hx, List.dropWhile_cons_of_neg hx⟩
  unfold skipWhile
  rw [passWhile_eq, List.dropWhile_append_of_pos htokens, List.takeWhile_append_of_pos htokens,
    htake.1, htake.2, List.append_nil]

/-- **One request**: what it takes and what is ahead behind it are together what was ahead and what
it puts in front; what it takes is counted. -/
theorem perm_respond (s : Stream) (request : Request) :
    (request.taken s.ahead ++ (s.respond request).2.ahead).Perm (s.ahead ++ request.supply) ∧
      (s.respond request).2.consumed = s.consumed + (request.taken s.ahead).length := by
  obtain ⟨ahead, consumed⟩ := s
  cases request with
  | next =>
    cases ahead with
    | nil => exact ⟨.refl _, rfl⟩
    | cons t rest =>
      have hsupply : (t :: rest) ++ Request.next.supply = t :: rest := List.append_nil _
      exact ⟨.of_eq hsupply.symm, rfl⟩
  | pushBack tokens =>
    have hperm : (tokens ++ ahead).Perm (ahead ++ tokens) := List.perm_append_comm
    exact ⟨hperm, rfl⟩
  | pushBackOne token =>
    have hperm : ([token] ++ ahead).Perm (ahead ++ [token]) := List.perm_append_comm
    exact ⟨hperm, rfl⟩
  | skipSpaces =>
    have hstream : (respond ⟨ahead, consumed⟩ .skipSpaces).2 = _ :=
      passWhile_eq Token.isSpace ahead consumed
    rw [hstream]
    refine ⟨.of_eq ?_, rfl⟩
    have hsplit : ahead.takeWhile Token.isSpace ++ ahead.dropWhile Token.isSpace = ahead :=
      List.takeWhile_append_dropWhile
    exact hsplit.trans (List.append_nil ahead).symm
  | skip n =>
    have hstream : (respond ⟨ahead, consumed⟩ (.skip n)).2 = _ := passTokens_eq n consumed ahead
    rw [hstream]
    refine ⟨.of_eq ?_, rfl⟩
    exact (List.take_append_drop n ahead).trans (List.append_nil ahead).symm
  | _ => exact ⟨.of_eq (List.append_nil ahead).symm, rfl⟩

/-- **A row of requests**, by induction on the row. -/
theorem perm_behindAll : ∀ (requests : List Request) (s : Stream),
    (s.takenAll requests ++ (s.behindAll requests).ahead).Perm
        (s.ahead ++ requests.flatMap Request.supply) ∧
      (s.behindAll requests).consumed = s.consumed + (s.takenAll requests).length
  | [], s => ⟨.of_eq (List.append_nil s.ahead).symm, rfl⟩
  | request :: requests, s => by
    obtain ⟨hperm, hcount⟩ := perm_respond s request
    obtain ⟨ihperm, ihcount⟩ := perm_behindAll requests (s.respond request).2
    refine ⟨?_, ?_⟩
    · show ((request.taken s.ahead ++ _) ++ _).Perm _
      rw [List.append_assoc, List.flatMap_cons, ← List.append_assoc s.ahead]
      refine (ihperm.append_left _).trans ?_
      rw [← List.append_assoc]
      exact hperm.append_right _
    · show ((s.respond request).2.behindAll requests).consumed = _
      have hlength : (s.takenAll (request :: requests)).length =
          (request.taken s.ahead).length + ((s.respond request).2.takenAll requests).length :=
        List.length_append
      omega

end Stream

namespace Tape

/-- The answers to a row of requests. -/
def answers (t : Tape) : List Stream.Request → List Stream.Answer
  | [] => []
  | request :: requests => (t.respond request).1 :: (t.respond request).2.answers requests

/-- The tape behind a row of requests. -/
def behindAll (t : Tape) : List Stream.Request → Tape
  | [] => t
  | request :: requests => (t.respond request).2.behindAll requests

/-- A tape stands for a stream, and its used slots hold spaces. -/
structure Shows (t : Tape) (s : Stream) : Prop where
  /-- The used slots, and the tokens ahead behind them. -/
  slots : t.slots.toList = List.replicate t.place .space ++ s.ahead
  consumed : t.consumed = s.consumed

variable {t u : Tape} {s : Stream} {x : Token} {rest tokens : List Token}

theorem shows_ofList (tokens : List Token) : (ofList tokens).Shows (.ofList tokens) := ⟨rfl, rfl⟩

/-! ### What a tape holds -/

theorem Shows.size_eq (h : t.Shows s) : t.slots.size = t.place + s.ahead.length := by
  have hlength := congrArg List.length h.slots
  simpa using hlength

theorem Shows.remaining_eq (h : t.Shows s) : t.remaining = s.remaining := by
  have hsize := h.size_eq
  unfold remaining Stream.remaining
  omega

theorem Shows.drop_eq (h : t.Shows s) (n : Nat) :
    t.slots.toList.drop (t.place + n) = s.ahead.drop n := by
  rw [h.slots, List.drop_append]
  simp

theorem Shows.view_eq (h : t.Shows s) : t.view = s := by
  have hahead : t.ahead = s.ahead := h.drop_eq 0
  unfold view
  rw [hahead, h.consumed]

theorem Shows.getElem?_eq (h : t.Shows s) (n : Nat) :
    t.slots[t.place + n]? = s.ahead[n]? := by
  rw [← Array.getElem?_toList, h.slots, List.getElem?_append_right (by simp)]
  simp

theorem getElem?_of_drop {slots : Array Token} {slot : Nat} (h : slots.toList.drop slot = tokens) :
    slots[slot]? = tokens.head? := by
  rw [← h, List.head?_drop, Array.getElem?_toList]

theorem drop_succ_of_drop {slots : Array Token} {slot : Nat}
    (h : slots.toList.drop slot = x :: rest) : slots.toList.drop (slot + 1) = rest := by
  rw [← List.drop_drop, h]
  rfl

/-! ### Looking ahead -/

theorem pastSpacesWithin?_eq {slots : Array Token} : ∀ {left slot : Nat} {tokens : List Token}
    (offset : Nat), slots.toList.drop slot = tokens → tokens.length ≤ left →
      pastSpacesWithin? slots left slot offset = pastSpacesFrom? offset tokens
  | 0, _, [], _, _, _ => rfl
  | left + 1, slot, [], offset, h, _ => by
    rw [pastSpacesWithin?, getElem?_of_drop h]
    rfl
  | left + 1, slot, x :: rest, offset, h, hleft => by
    have hless := Nat.le_of_succ_le_succ hleft
    have hrest := pastSpacesWithin?_eq (offset + 1) (drop_succ_of_drop h) hless
    rw [pastSpacesWithin?, getElem?_of_drop h, List.head?_cons]
    dsimp only
    rw [hrest]
    rfl

theorem nameWithin?_succ (slots : Array Token) (left : Nat) (letters : List Char) (slot : Nat) :
    nameWithin? slots (left + 1) letters slot =
      match slots[slot]? with
      | some .closeGroup => some (String.ofList letters.reverse, slot + 1)
      | some (.char c) => nameWithin? slots left (c :: letters) (slot + 1)
      | some .space => nameWithin? slots left letters (slot + 1)
      | _ => none := rfl

/-- The name in a group, counted from the slot `first` in front of it. -/
theorem nameWithin?_eq {slots : Array Token} (first : Nat) : ∀ {left : Nat} {tokens : List Token}
    (span : Nat) (letters : List Char), slots.toList.drop (first + span) = tokens →
      tokens.length ≤ left → nameWithin? slots left letters (first + span) =
        (nameInGroup? letters span tokens).map fun found => (found.1, first + found.2)
  | 0, [], _, _, _, _ => rfl
  | left + 1, [], span, letters, h, _ => by
    rw [nameWithin?_succ, getElem?_of_drop h]
    rfl
  | left + 1, x :: rest, span, letters, h, hleft => by
    have hrest := drop_succ_of_drop h
    have hless := Nat.le_of_succ_le_succ hleft
    rw [nameWithin?_succ, getElem?_of_drop h, List.head?_cons]
    cases x with
    | char c => exact nameWithin?_eq first (span + 1) (c :: letters) hrest hless
    | space => exact nameWithin?_eq first (span + 1) letters hrest hless
    | _ => rfl

theorem groupNameWithin?_eq {slots : Array Token} (first : Nat) : ∀ {left : Nat}
    {tokens : List Token} (span : Nat), slots.toList.drop (first + span) = tokens →
      tokens.length ≤ left → groupNameWithin? slots left (first + span) =
        (groupNameFrom? span tokens).map fun found => (found.1, first + found.2)
  | 0, [], _, _, _ => rfl
  | left + 1, [], span, h, _ => by
    rw [groupNameWithin?, getElem?_of_drop h]
    rfl
  | left + 1, x :: rest, span, h, hleft => by
    have hrest := drop_succ_of_drop h
    have hless := Nat.le_of_succ_le_succ hleft
    rw [groupNameWithin?, getElem?_of_drop h, List.head?_cons]
    cases x with
    | openGroup => exact nameWithin?_eq first (span + 1) [] hrest hless
    | space => exact groupNameWithin?_eq first (span + 1) hrest hless
    | _ => rfl

theorem Shows.peek?_eq (h : t.Shows s) : t.peek? = s.peek? := by
  unfold peek? Stream.peek?
  rw [List.head?_eq_getElem?]
  exact h.getElem?_eq 0

theorem Shows.pastSpaces?_eq (h : t.Shows s) : t.pastSpaces? = s.pastSpaces? :=
  pastSpacesWithin?_eq 0 (h.drop_eq 0) (Nat.le_of_eq h.remaining_eq.symm)

theorem Shows.groupName?_eq (h : t.Shows s) (offset : Nat) :
    t.groupName? offset = s.groupName? offset := by
  have hlength : (s.ahead.drop offset).length ≤ t.remaining := by
    rw [h.remaining_eq, List.length_drop]
    exact Nat.sub_le _ _
  have hname : groupNameWithin? t.slots t.remaining (t.place + offset) = _ :=
    groupNameWithin?_eq (t.place + offset) 0 (h.drop_eq offset) hlength
  unfold groupName? Stream.groupName? ProofProse.groupName?
  rw [hname, Option.map_map]
  have hspan : ∀ found : String × Nat,
      (found.1, t.place + offset + found.2 - (t.place + offset)) = found := by
    intro found
    rw [Nat.add_sub_cancel_left]
  exact (Option.map_congr fun found _ => hspan found).trans Option.map_id'

/-! ### Taking tokens -/

theorem Shows.next?_nil (h : t.Shows s) (hs : s.ahead = []) : t.next? = none := by
  have hnone := h.getElem?_eq 0
  rw [hs] at hnone
  unfold next?
  rw [show t.slots[t.place]? = none from hnone]

theorem Shows.next?_cons (h : t.Shows s) (hs : s.ahead = x :: rest) :
    ∃ u, t.next? = some (x, u) ∧ u.Shows ⟨rest, s.consumed + 1⟩ := by
  have hsome := h.getElem?_eq 0
  rw [hs] at hsome
  have hnext : t.slots[t.place]? = some x := hsome
  refine ⟨⟨t.slots.setIfInBounds t.place .space, t.place + 1, t.consumed + 1⟩, ?_, ?_, ?_⟩
  · unfold next?
    rw [hnext]
  · have hlength : (List.replicate t.place Token.space).length = t.place := List.length_replicate
    rw [Array.toList_setIfInBounds, h.slots, hs, List.set_append_right _ _ (Nat.le_of_eq hlength), hlength,
      Nat.sub_self, List.set_cons_zero, List.replicate_succ', List.append_assoc]
    rfl
  · rw [h.consumed]

theorem Shows.skip (n : Nat) : ∀ {t : Tape} {s : Stream}, t.Shows s →
    (t.skip n).Shows (s.skip n) := by
  induction n with
  | zero => exact fun h => h
  | succ n ih =>
    intro t s h
    obtain ⟨ahead, consumed⟩ := s
    cases ahead with
    | nil =>
      unfold Tape.skip
      rw [h.next?_nil rfl]
      exact h
    | cons x rest =>
      obtain ⟨u, hu, hrest⟩ := h.next?_cons rfl
      unfold Tape.skip
      rw [hu]
      exact ih hrest

/-- Spaces are read as long as there are any; there are no more of them than tokens. -/
theorem Shows.skipSpacesWithin : ∀ {n : Nat} {ahead : List Token} {consumed : Nat} {t : Tape},
    t.Shows ⟨ahead, consumed⟩ → ahead.length ≤ n →
      (skipSpacesWithin n t).Shows (passWhile Token.isSpace consumed ahead)
  | 0, [], consumed, t, h, _ => h
  | n + 1, [], consumed, t, h, _ => by
    unfold Tape.skipSpacesWithin
    rw [h.next?_nil rfl]
    exact h
  | n + 1, x :: rest, consumed, t, h, hn => by
    obtain ⟨u, hu, hrest⟩ := h.next?_cons rfl
    have hle : rest.length ≤ n := by simpa using hn
    unfold Tape.skipSpacesWithin
    rw [hu]
    cases x with
    | space =>
      have hspaces : u.Shows ⟨rest, consumed + 1⟩ := hrest
      exact hspaces.skipSpacesWithin hle
    | _ => exact h

theorem Shows.skipSpaces (h : t.Shows s) : t.skipSpaces.Shows s.skipSpaces :=
  h.skipSpacesWithin (Nat.le_of_eq h.remaining_eq.symm)

/-! ### Putting tokens back -/

/-- The slots that are written over hold the tokens, and all others what they held. -/
theorem overwrite_append : ∀ {tokens before old behind : List Token} {slots : Array Token},
    slots.toList = before ++ old ++ behind → old.length = tokens.length →
      (overwrite slots before.length tokens).toList = before ++ tokens ++ behind
  | [], before, old, behind, slots, h, hold => by
    rw [List.eq_nil_of_length_eq_zero hold] at h
    exact h
  | x :: tokens, before, [], behind, slots, h, hold => by simp at hold
  | x :: tokens, before, y :: old, behind, slots, h, hold => by
    have hset : (slots.setIfInBounds before.length x).toList =
        (before ++ [x]) ++ old ++ behind := by
      rw [Array.toList_setIfInBounds, h, List.append_assoc, List.set_append_right _ _ (Nat.le_refl _),
        Nat.sub_self]
      simp
    have hrest := overwrite_append hset (Nat.succ.inj hold)
    rw [List.length_append, List.length_singleton] at hrest
    show (overwrite (slots.setIfInBounds before.length x) (before.length + 1) tokens).toList = _
    rw [hrest]
    simp

theorem Shows.pushBack (h : t.Shows s) (tokens : List Token) :
    (t.pushBack tokens).Shows (s.pushBack tokens) := by
  unfold Tape.pushBack
  split
  · next hfits =>
    refine ⟨?_, h.consumed⟩
    -- The last of the used slots are written over; those before them stay spaces.
    have hsplit : t.slots.toList = List.replicate (t.place - tokens.length) .space ++
        List.replicate tokens.length .space ++ s.ahead := by
      rw [← List.replicate_add, Nat.sub_add_cancel hfits]
      exact h.slots
    have hwrite := overwrite_append hsplit List.length_replicate
    rw [List.length_replicate] at hwrite
    exact hwrite.trans (List.append_assoc ..)
  · refine ⟨?_, h.consumed⟩
    have hused : t.slots.toList.take t.place = List.replicate t.place .space := by
      rw [h.slots, List.take_left' List.length_replicate]
    have hahead : t.slots.toList.drop t.place = s.ahead := h.drop_eq 0
    show (t.slots.take t.place ++ tokens.toArray ++ t.slots.drop t.place).toList =
      List.replicate t.place .space ++ (tokens ++ s.ahead)
    have hlength : s.ahead.length ≤ t.slots.size - t.place := by
      have hsize := h.size_eq
      omega
    simp [hused, hahead, List.take_of_length_le hlength]

theorem Shows.pushBackOne (h : t.Shows s) (token : Token) :
    (t.pushBackOne token).Shows (s.pushBackOne token) := by
  have hslots := h.slots
  unfold Tape.pushBackOne
  split
  · next hplace =>
    refine ⟨?_, h.consumed⟩
    rw [hplace] at hslots
    simp [hplace, hslots, Stream.pushBackOne]
  · next place hplace =>
    refine ⟨?_, h.consumed⟩
    rw [hplace, List.replicate_succ', List.append_assoc] at hslots
    rw [Array.toList_setIfInBounds, hslots, List.set_append_right _ _ (by simp)]
    simp [Stream.pushBackOne]

/-! ### Requests -/

/-- **One request** is answered in the same way, and behind it the tape shows the stream. -/
theorem Shows.respond (h : t.Shows s) (request : Stream.Request) :
    (t.respond request).1 = (s.respond request).1 ∧
      (t.respond request).2.Shows (s.respond request).2 := by
  cases request with
  | next =>
    obtain ⟨ahead, consumed⟩ := s
    unfold Tape.respond Stream.respond
    cases ahead with
    | nil =>
      rw [h.next?_nil rfl]
      exact ⟨rfl, h⟩
    | cons x rest =>
      obtain ⟨u, hu, hrest⟩ := h.next?_cons rfl
      rw [hu]
      exact ⟨rfl, hrest⟩
  | peek => exact ⟨congrArg Stream.Answer.token h.peek?_eq, h⟩
  | peekNth n => exact ⟨congrArg Stream.Answer.token (h.getElem?_eq n), h⟩
  | pushBack tokens => exact ⟨rfl, h.pushBack tokens⟩
  | pushBackOne token => exact ⟨rfl, h.pushBackOne token⟩
  | skipSpaces => exact ⟨rfl, h.skipSpaces⟩
  | skip n => exact ⟨rfl, h.skip n⟩
  | pastSpaces => exact ⟨congrArg Stream.Answer.placed h.pastSpaces?_eq, h⟩
  | groupName offset => exact ⟨congrArg Stream.Answer.name (h.groupName?_eq offset), h⟩

/-- **A row of requests**, by induction on the row. -/
theorem Shows.behindAll : ∀ (requests : List Stream.Request) {t : Tape} {s : Stream}, t.Shows s →
    t.answers requests = s.answers requests ∧ (t.behindAll requests).Shows (s.behindAll requests)
  | [], t, s, h => ⟨rfl, h⟩
  | request :: requests, t, s, h => by
    obtain ⟨hanswer, hbehind⟩ := h.respond request
    obtain ⟨hanswers, hend⟩ := Shows.behindAll requests hbehind
    refine ⟨?_, hend⟩
    show _ :: _ = _ :: _
    rw [hanswer, hanswers]

theorem respond_of_looks {request : Stream.Request} (h : request.looks = true) (t : Tape) :
    (t.respond request).2 = t := by
  cases request with
  | peek => rfl
  | peekNth n => rfl
  | pastSpaces => rfl
  | groupName offset => rfl
  | _ => cases h

/-- **A tape is a list that tokens can be put back on.** Behind any row of requests the tape has
given the answers of the list and stands for what the list has come to. Its next token is the head
of what is ahead, and leaves the rest ahead; tokens that are put back stand in front of what was
ahead, whether they fit into the used slots or not; and a request that looks ahead gets the answer of
the list and changes nothing. The place is never behind the last slot, and only spaces are left in
front of it. What was taken and what is ahead are together the tokens that there were and those that
were put back, each as often as it was given; so no token comes back by itself, and the numbers add
up. -/
theorem tape_is_list (tokens : List Token) (requests : List Stream.Request) :
    let tape := (ofList tokens).behindAll requests
    let list := (Stream.ofList tokens).behindAll requests
    (ofList tokens).answers requests = (Stream.ofList tokens).answers requests ∧
    tape.view = list ∧
    (∀ x rest, tape.ahead = x :: rest → ∃ u, tape.next? = some (x, u) ∧ u.ahead = rest) ∧
    (tape.next? = none ↔ tape.ahead = []) ∧
    (∀ xs, (tape.pushBack xs).ahead = xs ++ tape.ahead) ∧
    (∀ x, (tape.pushBackOne x).ahead = x :: tape.ahead) ∧
    (∀ request, request.looks = true →
      tape.respond request = ((tape.view.respond request).1, tape)) ∧
    tape.place ≤ tape.slots.size ∧
    tape.slots.toList.take tape.place = List.replicate tape.place .space ∧
    ((Stream.ofList tokens).takenAll requests ++ tape.ahead).Perm
      (tokens ++ requests.flatMap Stream.Request.supply) ∧
    tape.consumed + tape.remaining =
      tokens.length + (requests.flatMap Stream.Request.supply).length := by
  intro tape list
  obtain ⟨hanswers, hshows⟩ := Shows.behindAll requests (shows_ofList tokens)
  have hshows : tape.Shows list := hshows
  have hview : tape.view = list := hshows.view_eq
  have hahead : tape.ahead = list.ahead := congrArg Stream.ahead hview
  obtain ⟨hperm, hcount⟩ := Stream.perm_behindAll requests (.ofList tokens)
  have hperm : ((Stream.ofList tokens).takenAll requests ++ list.ahead).Perm
      (tokens ++ requests.flatMap Stream.Request.supply) := hperm
  have hcount : list.consumed = 0 + ((Stream.ofList tokens).takenAll requests).length := hcount
  have hcons : ∀ x rest, tape.ahead = x :: rest →
      ∃ u, tape.next? = some (x, u) ∧ u.ahead = rest := by
    intro x rest hx
    obtain ⟨u, hu, hrest⟩ := hshows.next?_cons (hahead.symm.trans hx)
    exact ⟨u, hu, congrArg Stream.ahead hrest.view_eq⟩
  refine ⟨hanswers, hview, hcons, ⟨fun hnone => ?_, fun hnil => ?_⟩, fun xs => ?_, fun x => ?_,
    fun request hlooks => ?_, ?_, ?_, ?_, ?_⟩
  · cases htape : tape.ahead with
    | nil => rfl
    | cons x rest =>
      obtain ⟨u, hu, -⟩ := hcons x rest htape
      rw [hnone] at hu
      cases hu
  · exact hshows.next?_nil (hahead.symm.trans hnil)
  · rw [hahead]
    exact congrArg Stream.ahead (hshows.pushBack xs).view_eq
  · rw [hahead]
    exact congrArg Stream.ahead (hshows.pushBackOne x).view_eq
  · rw [hview]
    exact Prod.ext (hshows.respond request).1 (respond_of_looks hlooks tape)
  · have hsize := hshows.size_eq
    omega
  · rw [hshows.slots, List.take_left' List.length_replicate]
  · rw [hahead]
    exact hperm
  · have hlength := hperm.length_eq
    rw [List.length_append, List.length_append] at hlength
    have hconsumed := hshows.consumed
    have hremaining : tape.remaining = list.ahead.length := hshows.remaining_eq
    omega

end Tape

end ProofProse
