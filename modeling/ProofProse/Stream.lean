import ProofProse.Token

/-! # Token streams

A stream is the list of the tokens ahead and the number of tokens handed out so far. Tokens can be
put back in front; the count never goes down, so that reading a token twice counts twice. Looking
ahead changes nothing. -/

namespace ProofProse

/-- The tokens still to be read, and how many have been. -/
structure Stream where
  /-- The tokens ahead, next one first. -/
  ahead : List Token
  /-- How many tokens have been handed out, those put back and read again included. -/
  consumed : Nat := 0
  deriving DecidableEq

/-! ### Looking at lists of tokens -/

/-- The name in a group whose opening brace has been passed, and the number of tokens up to its
closing brace. The group holds characters and spaces only; the spaces do not belong to the name. -/
def nameInGroup? (letters : List Char) (span : Nat) : List Token → Option (String × Nat)
  | .closeGroup :: _ => some (String.ofList letters.reverse, span + 1)
  | .char c :: rest => nameInGroup? (c :: letters) (span + 1) rest
  | .space :: rest => nameInGroup? letters (span + 1) rest
  | _ => none

/-- The same from before the group and the spaces in front of it, `span` tokens in. -/
def groupNameFrom? (span : Nat) : List Token → Option (String × Nat)
  | .space :: rest => groupNameFrom? (span + 1) rest
  | .openGroup :: rest => nameInGroup? [] (span + 1) rest
  | _ => none

/-- The name in a group at the front of a list, and the number of tokens the group spans, spaces in
front of it and braces included. -/
def groupName? (tokens : List Token) : Option (String × Nat) := groupNameFrom? 0 tokens

/-- The first token that is no space, and how many spaces stand before it. -/
def pastSpacesFrom? (offset : Nat) : List Token → Option (Nat × Token)
  | [] => none
  | t :: rest => if t.isSpace then pastSpacesFrom? (offset + 1) rest else some (offset, t)

/-- The tokens of a list that `p` accepts at its front are passed over and counted. -/
def passWhile (p : Token → Bool) (count : Nat) : List Token → Stream
  | [] => ⟨[], count⟩
  | t :: rest => if p t then passWhile p (count + 1) rest else ⟨t :: rest, count⟩

/-- Up to `n` tokens are passed over and counted. -/
def passTokens : Nat → Nat → List Token → Stream
  | 0, count, tokens => ⟨tokens, count⟩
  | _ + 1, count, [] => ⟨[], count⟩
  | n + 1, count, _ :: rest => passTokens n (count + 1) rest

namespace Stream

/-! ### Operations -/

/-- A stream from which nothing has been read. -/
def ofList (tokens : List Token) : Stream := ⟨tokens, 0⟩

/-- The next token and the stream behind it. -/
def next? (s : Stream) : Option (Token × Stream) :=
  match s.ahead with
  | [] => none
  | t :: rest => some (t, ⟨rest, s.consumed + 1⟩)

/-- The next token. -/
def peek? (s : Stream) : Option Token := s.ahead.head?

/-- The token `n` places behind the next one. -/
def peekNth? (s : Stream) (n : Nat) : Option Token := s.ahead[n]?

/-- Whether nothing is ahead. -/
def atEnd (s : Stream) : Bool := s.ahead.isEmpty

/-- How many tokens are ahead. -/
def remaining (s : Stream) : Nat := s.ahead.length

/-- Puts tokens in front. -/
def pushBack (s : Stream) (tokens : List Token) : Stream := { s with ahead := tokens ++ s.ahead }

/-- Puts one token in front. -/
def pushBackOne (s : Stream) (token : Token) : Stream := { s with ahead := token :: s.ahead }

/-- Reads the tokens at the front that `p` accepts. -/
def skipWhile (s : Stream) (p : Token → Bool) : Stream := passWhile p s.consumed s.ahead

/-- Reads the spaces at the front. -/
def skipSpaces (s : Stream) : Stream := s.skipWhile Token.isSpace

/-- Reads up to `n` tokens. -/
def skip (s : Stream) (n : Nat) : Stream := passTokens n s.consumed s.ahead

/-- Reads one token if it is the character `c`. -/
def skipChar (s : Stream) (c : Char) : Stream :=
  match s.ahead with
  | .char d :: _ => if d == c then s.skip 1 else s
  | _ => s

/-- Reads one space, if there is one. -/
def skipOneSpace (s : Stream) : Stream :=
  match s.ahead with
  | .space :: _ => s.skip 1
  | _ => s

/-- The first token that is no space, and its distance. -/
def pastSpaces? (s : Stream) : Option (Nat × Token) := pastSpacesFrom? 0 s.ahead

/-- The name in a group that begins `offset` tokens ahead, and the number of tokens it spans. -/
def groupName? (s : Stream) (offset : Nat) : Option (String × Nat) :=
  ProofProse.groupName? (s.ahead.drop offset)

end Stream

/-! ### Readings

Some parts of a source are read token by token without being interpreted. A reading says what such a
part came to, what is left behind it, how many tokens were taken off the stream, and how many
included files ended within the part. Tokens that were put back are part of what is left, and count
as taken. -/

/-- What a stretch of tokens came to. -/
structure Reading (α : Type) where
  /-- What was read. -/
  result : α
  /-- The tokens left. -/
  rest : List Token
  /-- How many tokens were taken. -/
  count : Nat
  /-- How many ends of included files were passed. -/
  fileEnds : Nat := 0

/-- The stream behind a reading that began at the front of `s`. -/
def Stream.behind {α : Type} (s : Stream) (reading : Reading α) : Stream :=
  ⟨reading.rest, s.consumed + reading.count⟩

end ProofProse
