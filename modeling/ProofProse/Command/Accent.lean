/-! # Accents and letters

Accent commands put a combining mark behind the first letter of their argument, and letter commands
stand for a letter that is not on every keyboard. -/

namespace ProofProse.Accent

/-- The accent commands with their combining marks. -/
def marks : List (String × Char) :=
  [("\x60", '\u0300'), ("\x27", '\u0301'), ("^", '\u0302'), ("~", '\u0303'), ("\"", '\u0308'),
   ("=", '\u0304'), (".", '\u0307'), ("u", '\u0306'), ("v", '\u030c'), ("H", '\u030b'),
   ("c", '\u0327'), ("k", '\u0328'), ("d", '\u0323'), ("b", '\u0331'), ("t", '\u0361'),
   ("r", '\u030a'), ("G", '\u030f'), ("textogonekcentered", '\u0328')]

/-- The letter commands with their letters. -/
def letters : List (String × String) :=
  [("aa", "\u00e5"), ("AA", "\u00c5"), ("ae", "\u00e6"), ("AE", "\u00c6"), ("oe", "\u0153"),
   ("OE", "\u0152"), ("o", "\u00f8"), ("O", "\u00d8"), ("l", "\u0142"), ("L", "\u0141"),
   ("ss", "\u00df"), ("SS", "SS"), ("i", "\u0131"), ("j", "\u0237"), ("dh", "\u00f0"),
   ("DH", "\u00d0"), ("th", "\u00fe"), ("TH", "\u00de"), ("dj", "\u0111"), ("DJ", "\u0110"),
   ("ng", "\u014b"), ("NG", "\u014a")]

/-- The combining mark of an accent command. -/
def mark? (name : String) : Option Char := marks.lookup name

/-- The letter of a letter command. -/
def letter? (name : String) : Option String := letters.lookup name

/-- Puts a mark behind the first character of a text; an empty text stays empty. -/
def attach (mark : Char) (base : String) : String :=
  match base.toList with
  | [] => ""
  | c :: cs => String.ofList (c :: mark :: cs)

end ProofProse.Accent
