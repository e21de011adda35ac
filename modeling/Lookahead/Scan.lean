import Lookahead.Pattern.Reader
import Lookahead.Pattern.Search
import Lookahead.Token

/-! Scanning: a text is cut into chunks, each the longest match of a rule or a single character that no rule matches. -/

namespace Lookahead

/-- What is done with the text that a rule matches. -/
inductive Effect where
  | skip
  | token (kind : TokenKind)
  deriving DecidableEq, Repr

/-- A rule of a scanner. `find` gives how much of the text ahead a match takes up, from its head to the match's end. -/
structure Rule where
  find : List Char → Option Nat
  effect : Effect

namespace Rule

/-- The rule of a pattern that is matched right at the head of the text. -/
def ofPattern (p : Pattern) (effect : Effect) : Rule := ⟨Pattern.matchLength none [[p]], effect⟩

/-- The rule of a pattern's text. -/
def ofText (text : String) (effect : Effect) : Except PatternError Rule := do
  let p ← Pattern.readRule text
  return ⟨p.findEnd none, effect⟩

/-- Takes a match that is longer than the best of the rules before. -/
def better (text : List Char) (best : Option (Nat × Effect)) (r : Rule) : Option (Nat × Effect) :=
  match r.find text with
  | none => best
  | some n => if (best.map (·.1)).getD 0 < n then some (n, r.effect) else best

/-- The longest match that is not empty; of equally long ones that of the first rule. -/
def longest (rules : List Rule) (text : List Char) : Option (Nat × Effect) := rules.foldl (better text) none

end Rule

/-- How a chunk came about. -/
inductive Reading where
  | matched (effect : Effect)
  | unmatched
  deriving DecidableEq, Repr

/-- A piece of the text with the place of its first character. -/
structure Chunk where
  text : List Char
  pos : Position
  reading : Reading
  deriving DecidableEq, Repr

/-- A character that no rule matches. -/
structure Unmatched where
  character : Char
  pos : Position
  deriving DecidableEq, Repr

def Unmatched.message (u : Unmatched) : String :=
  "invalid character '" ++ String.singleton u.character ++ "' at " ++ u.pos.render

namespace Chunk

/-- The token of a chunk that was not skipped. -/
def token? (c : Chunk) : Option Token :=
  match c.reading with
  | .matched .skip => none
  | .matched (.token kind) => some ⟨kind, String.ofList c.text, c.pos⟩
  | .unmatched => some ⟨.invalid, String.ofList c.text, c.pos⟩

def unmatched? (c : Chunk) : Option Unmatched :=
  match c.reading, c.text with
  | .unmatched, character :: _ => some ⟨character, c.pos⟩
  | _, _ => none

/-- How many characters the next chunk has, and how it is read. -/
def next (rules : List Rule) (text : List Char) : Nat × Reading :=
  match Rule.longest rules text with
  | some (n, effect) => (n, .matched effect)
  | none => (1, .unmatched)

/-- Cuts a text that starts at a place into chunks. -/
def cut (rules : List Rule) (pos : Position) (text : List Char) : List Chunk :=
  match text with
  | [] => []
  | c :: rest =>
    let (n, reading) := next rules (c :: rest)
    let taken := c :: rest.take (n - 1)
    ⟨taken, pos, reading⟩ :: cut rules (pos.after taken) (rest.drop (n - 1))
termination_by text.length
decreasing_by simp only [List.length_drop, List.length_cons]; omega

end Chunk

/-- A text cut into chunks, and the place where it ends. -/
structure Scan where
  chunks : List Chunk
  stop : Position
  deriving DecidableEq, Repr

namespace Scan

/-- Scans a text. -/
def ofText (rules : List Rule) (text : String) : Scan :=
  ⟨Chunk.cut rules .start text.toList, Position.start.after text.toList⟩

/-- The tokens in order, closed by the record at the end of the text. -/
def tokens (s : Scan) : List Token := s.chunks.filterMap Chunk.token? ++ [.closing s.stop]

/-- The characters that no rule matched, in order. -/
def unmatched (s : Scan) : List Unmatched := s.chunks.filterMap Chunk.unmatched?

/-- The tokens of chunks with the number of unmatched characters up to each. -/
def countUnmatched (stop : Position) : Nat → List Chunk → List (Token × Nat)
  | n, [] => [(.closing stop, n)]
  | n, c :: rest =>
    let n := n + c.unmatched?.toList.length
    c.token?.toList.map (·, n) ++ countUnmatched stop n rest

/-- The tokens as they are handed out one by one, each with the number of unmatched characters by then. -/
def pulls (s : Scan) : List (Token × Nat) := countUnmatched s.stop 0 s.chunks

end Scan
end Lookahead
