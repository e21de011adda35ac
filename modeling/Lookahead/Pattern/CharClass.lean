import Lookahead.Pattern.CaseFold

/-! Classes of characters: ranges of code points under the operations of a bracket expression. -/

namespace Lookahead

/-- A class of characters. -/
inductive CharClass where
  | none
  | range (low high : Nat)
  /-- A range together with all that differs from its members in case only. -/
  | caseless (low high : Nat)
  | union (a b : CharClass)
  | inter (a b : CharClass)
  | diff (a b : CharClass)
  | compl (a : CharClass)
  deriving DecidableEq, Repr

namespace CharClass

/-- Whether a class has a code point. -/
def covers : CharClass → Nat → Bool
  | none, _ => false
  | range low high, c => low ≤ c && c ≤ high
  | caseless low high, c => (CaseFold.variants c).any fun v => low ≤ v && v ≤ high
  | union a b, c => a.covers c || b.covers c
  | inter a b, c => a.covers c && b.covers c
  | diff a b, c => a.covers c && !b.covers c
  | compl a, c => !a.covers c

def contains (a : CharClass) (c : Char) : Bool := a.covers c.toNat

/-- The class that ignores case: ranges take in the variants of their members before anything is cut or negated. -/
def ignoreCase : CharClass → CharClass
  | none => none
  | range low high => caseless low high
  | caseless low high => caseless low high
  | union a b => union a.ignoreCase b.ignoreCase
  | inter a b => inter a.ignoreCase b.ignoreCase
  | diff a b => diff a.ignoreCase b.ignoreCase
  | compl a => compl a.ignoreCase

def single (c : Char) : CharClass := range c.toNat c.toNat

def between (low high : Char) : CharClass := range low.toNat high.toNat

def ofRanges : List (Nat × Nat) → CharClass
  | [] => none
  | [(low, high)] => range low high
  | (low, high) :: rest => union (range low high) (ofRanges rest)

/-- What is in exactly one of two classes. -/
def symmDiff (a b : CharClass) : CharClass := union (diff a b) (diff b a)

/-- Every character. -/
def any : CharClass := compl none

/-- Every character but the newline. -/
def notNewline : CharClass := compl (single '\n')

/-- Decimal digits; only those of ASCII. -/
def digit : CharClass := between '0' '9'

/-- The characters with the White_Space property. -/
def space : CharClass :=
  ofRanges [(0x09, 0x0D), (0x20, 0x20), (0x85, 0x85), (0xA0, 0xA0), (0x1680, 0x1680), (0x2000, 0x200A),
    (0x2028, 0x2029), (0x202F, 0x202F), (0x205F, 0x205F), (0x3000, 0x3000)]

/-- Letters, digits and the underscore; only those of ASCII. -/
def word : CharClass := ofRanges [(0x30, 0x39), (0x41, 0x5A), (0x5F, 0x5F), (0x61, 0x7A)]

/-- The class of a name between `[:` and `:]`. -/
def named? : String → Option CharClass
  | "alnum" => some (ofRanges [(0x30, 0x39), (0x41, 0x5A), (0x61, 0x7A)])
  | "alpha" => some (ofRanges [(0x41, 0x5A), (0x61, 0x7A)])
  | "ascii" => some (range 0x00 0x7F)
  | "blank" => some (ofRanges [(0x09, 0x09), (0x20, 0x20)])
  | "cntrl" => some (ofRanges [(0x00, 0x1F), (0x7F, 0x7F)])
  | "digit" => some (range 0x30 0x39)
  | "graph" => some (range 0x21 0x7E)
  | "lower" => some (range 0x61 0x7A)
  | "print" => some (range 0x20 0x7E)
  | "punct" => some (ofRanges [(0x21, 0x2F), (0x3A, 0x40), (0x5B, 0x60), (0x7B, 0x7E)])
  | "space" => some (ofRanges [(0x09, 0x0D), (0x20, 0x20)])
  | "upper" => some (range 0x41 0x5A)
  | "word" => some word
  | "xdigit" => some (ofRanges [(0x30, 0x39), (0x41, 0x46), (0x61, 0x66)])
  | _ => Option.none

end CharClass
end Lookahead
