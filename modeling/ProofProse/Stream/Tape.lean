import ProofProse.Stream

/-! # Tapes

A tape holds the tokens of a stream in one array, with the place up to which it has been used. A
token that is taken leaves a space in its slot. Tokens that are put back go into the used slots when
there are enough of them, and are inserted at the place otherwise; as long as no more is put back
than was taken, no token ahead is moved. `Tape.view` is the stream that a tape stands for.

`Stream.Request` lists what can be asked of a stream. A stream and a tape both respond to
requests. -/

namespace ProofProse

/-! ### Requests -/

namespace Stream

/-- What can be asked of a stream. -/
inductive Request where
  /-- Take the next token. -/
  | next
  /-- Look at the next token. -/
  | peek
  /-- Look at the token `n` places behind the next one. -/
  | peekNth (n : Nat)
  /-- Put tokens in front. -/
  | pushBack (tokens : List Token)
  /-- Put one token in front. -/
  | pushBackOne (token : Token)
  /-- Take the spaces at the front. -/
  | skipSpaces
  /-- Take up to `n` tokens. -/
  | skip (n : Nat)
  /-- Look for the first token that is no space. -/
  | pastSpaces
  /-- Look at the name in a group that begins `offset` tokens ahead. -/
  | groupName (offset : Nat)
  deriving DecidableEq

/-- What is said to a request. -/
inductive Answer where
  /-- A token, if there is one. -/
  | token (found : Option Token)
  /-- A token and its distance, if there is one. -/
  | placed (found : Option (Nat × Token))
  /-- A name and the number of tokens that it spans, if there is one. -/
  | name (found : Option (String × Nat))
  /-- Nothing. -/
  | done
  deriving DecidableEq

/-- The answer of a stream to a request, and the stream behind it. -/
def respond (s : Stream) : Request → Answer × Stream
  | .next =>
    match s.next? with
    | some (t, s) => (.token (some t), s)
    | none => (.token none, s)
  | .peek => (.token s.peek?, s)
  | .peekNth n => (.token (s.peekNth? n), s)
  | .pushBack tokens => (.done, s.pushBack tokens)
  | .pushBackOne token => (.done, s.pushBackOne token)
  | .skipSpaces => (.done, s.skipSpaces)
  | .skip n => (.done, s.skip n)
  | .pastSpaces => (.placed s.pastSpaces?, s)
  | .groupName offset => (.name (s.groupName? offset), s)

end Stream

/-! ### Tapes -/

/-- Tokens in an array that has been used up to a place. -/
structure Tape where
  /-- The tokens. -/
  slots : Array Token
  /-- How many slots have been used: the place of the next token. -/
  place : Nat := 0
  /-- How many tokens have been handed out, those put back and read again included. -/
  consumed : Nat := 0
  deriving DecidableEq

namespace Tape

/-- A tape from which nothing has been read. -/
def ofList (tokens : List Token) : Tape := ⟨tokens.toArray, 0, 0⟩

/-- The tokens from the place on. -/
def ahead (t : Tape) : List Token := t.slots.toList.drop t.place

/-- The stream that a tape stands for. -/
def view (t : Tape) : Stream := ⟨t.ahead, t.consumed⟩

/-- How many tokens are ahead. -/
def remaining (t : Tape) : Nat := t.slots.size - t.place

/-- Whether nothing is ahead. -/
def atEnd (t : Tape) : Bool := t.slots.size ≤ t.place

/-- The next token. -/
def peek? (t : Tape) : Option Token := t.slots[t.place]?

/-- The token `n` places behind the next one. -/
def peekNth? (t : Tape) (n : Nat) : Option Token := t.slots[t.place + n]?

/-- The next token and the tape behind it. A space is left in the slot. -/
def next? (t : Tape) : Option (Token × Tape) :=
  match t.slots[t.place]? with
  | none => none
  | some token =>
    some (token, ⟨t.slots.setIfInBounds t.place .space, t.place + 1, t.consumed + 1⟩)

/-- Writes tokens over the slots from `start` on. -/
def overwrite (slots : Array Token) (start : Nat) : List Token → Array Token
  | [] => slots
  | t :: rest => overwrite (slots.setIfInBounds start t) (start + 1) rest

/-- Puts tokens in front: into the used slots if they fit there, between these and the tokens ahead
if they do not. -/
def pushBack (t : Tape) (tokens : List Token) : Tape :=
  if tokens.length ≤ t.place then
    { t with
      slots := overwrite t.slots (t.place - tokens.length) tokens
      place := t.place - tokens.length }
  else { t with slots := t.slots.take t.place ++ tokens.toArray ++ t.slots.drop t.place }

/-- Puts one token in front. -/
def pushBackOne (t : Tape) (token : Token) : Tape :=
  match t.place with
  | 0 => { t with slots := #[token] ++ t.slots }
  | place + 1 => { t with slots := t.slots.setIfInBounds place token, place := place }

/-- Reads at most `n` spaces. -/
def skipSpacesWithin : Nat → Tape → Tape
  | 0, t => t
  | n + 1, t =>
    match t.next? with
    | some (.space, u) => skipSpacesWithin n u
    | _ => t

/-- Reads the spaces at the front. -/
def skipSpaces (t : Tape) : Tape := skipSpacesWithin t.remaining t

/-- Reads up to `n` tokens. -/
def skip : Tape → Nat → Tape
  | t, 0 => t
  | t, n + 1 =>
    match t.next? with
    | some (_, u) => u.skip n
    | none => t

/-- The first token that is no space among the next `left` ones from a slot on, where the slot is
`offset` tokens ahead. -/
def pastSpacesWithin? (slots : Array Token) : Nat → Nat → Nat → Option (Nat × Token)
  | 0, _, _ => none
  | left + 1, slot, offset =>
    match slots[slot]? with
    | some t =>
      if t.isSpace then pastSpacesWithin? slots left (slot + 1) (offset + 1) else some (offset, t)
    | none => none

/-- The first token that is no space, and its distance. -/
def pastSpaces? (t : Tape) : Option (Nat × Token) := pastSpacesWithin? t.slots t.remaining t.place 0

/-- The name in a group whose opening brace stands before a slot, and the slot behind its closing
brace, which is one of the next `left` ones. -/
def nameWithin? (slots : Array Token) : Nat → List Char → Nat → Option (String × Nat)
  | 0, _, _ => none
  | left + 1, letters, slot =>
    match slots[slot]? with
    | some .closeGroup => some (String.ofList letters.reverse, slot + 1)
    | some (.char c) => nameWithin? slots left (c :: letters) (slot + 1)
    | some .space => nameWithin? slots left letters (slot + 1)
    | _ => none

/-- The same from a slot before the group and the spaces in front of it. -/
def groupNameWithin? (slots : Array Token) : Nat → Nat → Option (String × Nat)
  | 0, _ => none
  | left + 1, slot =>
    match slots[slot]? with
    | some .space => groupNameWithin? slots left (slot + 1)
    | some .openGroup => nameWithin? slots left [] (slot + 1)
    | _ => none

/-- The name in a group that begins `offset` tokens ahead, and the number of tokens it spans. -/
def groupName? (t : Tape) (offset : Nat) : Option (String × Nat) :=
  (groupNameWithin? t.slots t.remaining (t.place + offset)).map fun (name, slot) =>
    (name, slot - (t.place + offset))

/-- The answer of a tape to a request, and the tape behind it. -/
def respond (t : Tape) : Stream.Request → Stream.Answer × Tape
  | .next =>
    match t.next? with
    | some (token, t) => (.token (some token), t)
    | none => (.token none, t)
  | .peek => (.token t.peek?, t)
  | .peekNth n => (.token (t.peekNth? n), t)
  | .pushBack tokens => (.done, t.pushBack tokens)
  | .pushBackOne token => (.done, t.pushBackOne token)
  | .skipSpaces => (.done, t.skipSpaces)
  | .skip n => (.done, t.skip n)
  | .pastSpaces => (.placed t.pastSpaces?, t)
  | .groupName offset => (.name (t.groupName? offset), t)

end Tape

end ProofProse
