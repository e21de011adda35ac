/-! The symbols of production bodies and the columns of a prediction table. -/

namespace Lookahead

/-- The spelling of the empty derivation. -/
def epsilonName : String := "ε"

/-- The spelling of the end of input. -/
def endMarkerName : String := "$"

/-- A symbol of a body. Terminals and nonterminals are numbered in order of declaration. -/
inductive Symbol where
  | terminal (index : Nat)
  | nonterminal (index : Nat)
  | epsilon
  | endMarker
  deriving DecidableEq, Repr

/-- What a token can be looked up under: a declared terminal or the end of input. -/
inductive Column where
  | terminal (index : Nat)
  | endMarker
  deriving DecidableEq, Repr

namespace Symbol

/-- Terminals come first, then nonterminals, each in order of declaration, then `ε`, then `$`. -/
def rank : Symbol → Nat × Nat
  | terminal i => (0, i)
  | nonterminal i => (1, i)
  | epsilon => (2, 0)
  | endMarker => (3, 0)

/-- The strict order in which sets list their symbols. -/
def precedes (a b : Symbol) : Bool :=
  a.rank.1 < b.rank.1 || (a.rank.1 == b.rank.1 && a.rank.2 < b.rank.2)

/-- The column a symbol occupies, if a token can stand for it. -/
def column? : Symbol → Option Column
  | terminal i => some (.terminal i)
  | endMarker => some .endMarker
  | nonterminal _ => none
  | epsilon => none

end Symbol

namespace Column

def toSymbol : Column → Symbol
  | terminal i => .terminal i
  | endMarker => .endMarker

/-- Terminals in order of declaration, then the end of input. -/
def precedes : Column → Column → Bool
  | terminal i, terminal j => i < j
  | terminal _, endMarker => true
  | endMarker, _ => false

end Column
end Lookahead
