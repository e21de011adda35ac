import Lookahead.Pattern.CharClass

/-! Patterns: regular expressions whose alternatives and repetitions are tried in order of preference. -/

namespace Lookahead

/-- A condition on the place between two characters. -/
inductive Anchor where
  | textStart
  | textEnd
  | lineStart
  | lineEnd
  | wordBoundary
  | notWordBoundary
  deriving DecidableEq, Repr

namespace Anchor

def isWord (c : Option Char) : Bool := c.any CharClass.word.contains

def isNewline (c : Option Char) : Bool := c.any (· = '\n')

/-- Whether the condition holds between a character, if any, and the next one, if any. -/
def holds (a : Anchor) (before after : Option Char) : Bool :=
  match a with
  | textStart => before.isNone
  | textEnd => after.isNone
  | lineStart => before.isNone || isNewline before
  | lineEnd => after.isNone || isNewline after
  | wordBoundary => isWord before != isWord after
  | notWordBoundary => isWord before == isWord after

end Anchor

/-- A pattern. The left alternative is preferred; a greedy repetition prefers to go on, a lazy one to stop. -/
inductive Pattern where
  | empty
  | chars (c : CharClass)
  | anchor (a : Anchor)
  | seq (a b : Pattern)
  | alt (a b : Pattern)
  | star (greedy : Bool) (body : Pattern)
  deriving DecidableEq, Repr

namespace Pattern

/-- Whether a pattern can match the empty text. -/
def nullable : Pattern → Bool
  | empty => true
  | chars _ => false
  | anchor _ => true
  | seq a b => a.nullable && b.nullable
  | alt a b => a.nullable || b.nullable
  | star _ _ => true

def size : Pattern → Nat
  | empty => 1
  | chars _ => 1
  | anchor _ => 1
  | seq a b => a.size + b.size + 1
  | alt a b => a.size + b.size + 1
  | star _ a => a.size + 1

/-- Whether a match can only begin at the start of the text. -/
def startsText : Pattern → Bool
  | empty => false
  | chars _ => false
  | anchor a => a = .textStart
  | seq a b => a.startsText || (a = empty && b.startsText)
  | alt a b => a.startsText && b.startsText
  | star _ _ => false

/-! ### Compound patterns -/

def concat : List Pattern → Pattern
  | [] => empty
  | [a] => a
  | a :: rest => seq a (concat rest)

/-- The first of several alternatives is preferred. -/
def firstOf : List Pattern → Pattern
  | [] => empty
  | [a] => a
  | a :: rest => alt a (firstOf rest)

def literal (text : String) : Pattern := concat (text.toList.map fun c => chars (.single c))

/-- At most once. -/
def optional (greedy : Bool) (a : Pattern) : Pattern := if greedy then alt a empty else alt empty a

/-- At least once. -/
def many1 (greedy : Bool) (a : Pattern) : Pattern := seq a (star greedy a)

/-- Any number of times. A body that can match the empty text is entered once before the choice to stop comes up, so
    that its own preferences count. -/
def many (greedy : Bool) (a : Pattern) : Pattern :=
  if a.nullable then optional greedy (many1 greedy a) else star greedy a

/-- Exactly some number of times, and then another pattern. -/
def timesThen (a : Pattern) : Nat → Pattern → Pattern
  | 0, next => next
  | n + 1, next => seq a (timesThen a n next)

/-- At most some number of times; one more is tried only inside the one before. -/
def upTo (greedy : Bool) (a : Pattern) : Nat → Pattern
  | 0 => empty
  | n + 1 => optional greedy (seq a (upTo greedy a n))

/-- At least `low` times and, with a bound, at most `high` times. -/
def times (greedy : Bool) (low : Nat) (high : Option Nat) (a : Pattern) : Pattern :=
  match low, high with
  | low, some high => timesThen a low (upTo greedy a (high - low))
  | 0, none => many greedy a
  | low + 1, none => timesThen a low (many1 greedy a)

end Pattern
end Lookahead
