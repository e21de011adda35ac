import Lookahead.Scan

/-! The words of the small imperative language: keywords, operators, punctuation, numbers, identifiers. -/

namespace Lookahead
namespace Imperative

open Pattern

def keywords : List String := ["int", "float", "while", "main"]

def operators : List String := ["++", "--", "+", "-", "*", "/", "=", "<", ">"]

def punctuation : List String := [";", ",", "(", ")", "\x7b", "\x7d"]

/-- Blanks and newlines. -/
def blank : Pattern := many1 true (chars .space)

/-- From two slashes to the end of the line. -/
def lineComment : Pattern := seq (literal "//") (many true (chars .notNewline))

/-- From a slash and a star to the next star and slash. -/
def blockComment : Pattern := concat [literal "/*", many false (chars .any), literal "*/"]

def digits : Pattern := many1 true (chars .digit)

/-- Digits on both sides of a point. -/
def float : Pattern := concat [digits, literal ".", digits]

def letter : CharClass := .ofRanges [(0x41, 0x5A), (0x5F, 0x5F), (0x61, 0x7A)]

/-- A letter or underscore, then letters, underscores and digits. -/
def identifier : Pattern := seq (chars letter) (many true (chars .word))

/-- The scanner's rules in order. Keywords come before identifiers, so they win where both match as much. -/
def rules : List Rule :=
  [.ofPattern blank .skip, .ofPattern lineComment .skip, .ofPattern blockComment .skip] ++
    keywords.map (fun w => .ofPattern (literal w) (.token .keyword)) ++
    operators.map (fun w => .ofPattern (literal w) (.token .operator)) ++
    punctuation.map (fun w => .ofPattern (literal w) (.token .punctuation)) ++
    [.ofPattern float (.token .float), .ofPattern digits (.token .integer), .ofPattern identifier (.token .identifier)]

end Imperative
end Lookahead
