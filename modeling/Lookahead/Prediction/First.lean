import Lookahead.Grammar.Basic
import Lookahead.Prediction.SymbolSet
import Lookahead.Prediction.Stabilize

/-! FIRST: the symbols that can begin what a sequence derives, and `ε` where it derives nothing at all. -/

namespace Lookahead

/-- The FIRST sets of a grammar's nonterminals, and how many terminals the grammar declares. -/
structure FirstSets where
  terminals : Nat
  sets : List SymbolSet
  deriving DecidableEq, Repr

namespace FirstSets

/-- FIRST of one symbol. A symbol that the grammar does not declare has an empty set. -/
def ofSymbol (f : FirstSets) : Symbol → SymbolSet
  | .terminal i => if i < f.terminals then .singleton (.terminal i) else .empty
  | .nonterminal i => f.sets.getD i .empty
  | .epsilon => .singleton .epsilon
  | .endMarker => .singleton .endMarker

def isNullable (f : FirstSets) (s : Symbol) : Bool := Symbol.epsilon ∈ f.ofSymbol s

/-- FIRST of a sequence: each symbol adds its own set for as long as all before it can vanish, and `ε` is in
    it when all of them can. -/
def ofSequence (f : FirstSets) : List Symbol → SymbolSet
  | [] => .singleton .epsilon
  | s :: rest =>
    let here := f.ofSymbol s
    if Symbol.epsilon ∈ here then here.withoutEpsilon.union (f.ofSequence rest) else here

/-- Adds symbols to the set of one nonterminal. -/
def extend (f : FirstSets) (i : Nat) (set : SymbolSet) : FirstSets := { f with sets := f.sets.modify i (·.union set) }

/-- No nonterminal has a set yet. -/
def initial (g : Grammar) : FirstSets := ⟨g.terminals.length, g.nonterminals.map fun _ => .empty⟩

/-- One pass over the productions: the set of each head takes in FIRST of its body. -/
def pass (g : Grammar) (f : FirstSets) : FirstSets :=
  g.productions.foldl (fun f p => f.extend p.head (f.ofSequence p.body)) f

/-- Each pass but the last adds a terminal, `ε` or `$` to some set. -/
def bound (g : Grammar) : Nat := g.nonterminals.length * (g.terminals.length + 2) + 1

/-- The least FIRST sets that a pass leaves as they are. -/
def solve (g : Grammar) : FirstSets := stabilize (pass g) (bound g) (initial g)

end FirstSets
end Lookahead
