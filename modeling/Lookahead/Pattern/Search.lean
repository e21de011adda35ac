import Lookahead.Pattern.Basic

/-! Searching a text for a pattern. All ways to go on are followed side by side in order of preference, one character
at a time; the match found is the one that trying them one after another would find first. -/

namespace Lookahead
namespace Pattern

/-- A way to go on: a character to read and the patterns to match after it, in order. -/
structure Thread where
  reads : CharClass
  rest : List Pattern
  deriving DecidableEq, Repr

/-- The ways to go on from one place, the preferred one first, up to the one that is a complete match if there is one.
    What was followed from this place already is not followed again. -/
structure Frontier where
  followed : List (List Pattern)
  threads : List Thread
  complete : Bool
  deriving DecidableEq, Repr

namespace Frontier

def initial : Frontier := ⟨[], [], false⟩

/-- Whether patterns need not be followed: a preferred way led to them, or to a complete match. -/
def settled (f : Frontier) (patterns : List Pattern) : Bool := f.complete || f.followed.contains patterns

def follow (f : Frontier) (patterns : List Pattern) : Frontier := { f with followed := patterns :: f.followed }

def thread (f : Frontier) (t : Thread) : Frontier := { f with threads := f.threads ++ [t] }

def finish (f : Frontier) : Frontier := { f with complete := true }

end Frontier

/-- Follows a pattern before others from a place up to the next characters to read; `next` follows the others. A
    repetition whose body matched nothing does not start over. -/
def follow (before after : Option Char) : Pattern → List Pattern → (Frontier → Frontier) → Frontier → Frontier
  | empty, rest, next, f =>
    if f.settled (empty :: rest) then f else next (f.follow (empty :: rest))
  | chars c, rest, _, f =>
    if f.settled (chars c :: rest) then f else (f.follow (chars c :: rest)).thread ⟨c, rest⟩
  | anchor a, rest, next, f =>
    if f.settled (anchor a :: rest) then f
    else if a.holds before after then next (f.follow (anchor a :: rest)) else f.follow (anchor a :: rest)
  | seq a b, rest, next, f =>
    if f.settled (seq a b :: rest) then f
    else follow before after a (b :: rest) (follow before after b rest next) (f.follow (seq a b :: rest))
  | alt a b, rest, next, f =>
    if f.settled (alt a b :: rest) then f
    else follow before after b rest next (follow before after a rest next (f.follow (alt a b :: rest)))
  | star greedy a, rest, next, f =>
    if f.settled (star greedy a :: rest) then f
    else
      let f := f.follow (star greedy a :: rest)
      if greedy then next (follow before after a (star greedy a :: rest) id f)
      else follow before after a (star greedy a :: rest) id (next f)

/-- Follows patterns that are to match one after another. -/
def followAll (before after : Option Char) : List Pattern → Frontier → Frontier
  | [], f => if f.complete then f else f.finish
  | p :: rest, f => follow before after p rest (followAll before after rest) f

/-- The frontier of alternatives, the preferred one first. -/
def frontier (before after : Option Char) (alternatives : List (List Pattern)) : Frontier :=
  alternatives.foldl (fun f patterns => followAll before after patterns f) .initial

/-- What is left to match of each thread that reads a character. -/
def advance (threads : List Thread) (c : Char) : List (List Pattern) :=
  (threads.filter (·.reads.contains c)).map (·.rest)

/-- The length of the preferred match of alternatives at the head of a text. -/
def matchLength (before : Option Char) (alternatives : List (List Pattern)) : List Char → Option Nat
  | [] => if (frontier before none alternatives).complete then some 0 else none
  | c :: text =>
    let f := frontier before (some c) alternatives
    let longer := if f.threads.isEmpty then none else matchLength (some c) (advance f.threads c) text
    match longer with
    | some n => some (n + 1)
    | none => if f.complete then some 0 else none

/-- The distance from the head of a text to the end of the leftmost match of a pattern. -/
def findEnd (p : Pattern) (before : Option Char) (text : List Char) : Option Nat :=
  match matchLength before [[p]] text with
  | some n => some n
  | none =>
    if p.startsText then none
    else match text with
      | [] => none
      | c :: text => (findEnd p (some c) text).map (· + 1)

end Pattern
end Lookahead
