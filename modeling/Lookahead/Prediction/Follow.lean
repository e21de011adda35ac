import Lookahead.Prediction.First

/-! FOLLOW: the terminals, and the end of input, that can stand right after a nonterminal. -/

namespace Lookahead

/-- The FOLLOW sets of a grammar's nonterminals. -/
structure FollowSets where
  sets : List SymbolSet
  deriving DecidableEq, Repr

namespace FollowSets

/-- FOLLOW of one nonterminal. One that the grammar does not declare has an empty set. -/
def ofNonterminal (f : FollowSets) (i : Nat) : SymbolSet := f.sets.getD i .empty

/-- Adds symbols to the set of one nonterminal. -/
def extend (f : FollowSets) (i : Nat) (set : SymbolSet) : FollowSets := ⟨f.sets.modify i (·.union set)⟩

/-- What `rest` lets stand before it in a body of `head`: FIRST of it, and FOLLOW of the head where it can vanish. -/
def additions (first : FirstSets) (f : FollowSets) (head : Nat) (rest : List Symbol) : SymbolSet :=
  let begins := first.ofSequence rest
  if Symbol.epsilon ∈ begins then begins.withoutEpsilon.union (f.ofNonterminal head) else begins

/-- Gives each nonterminal of a body what may stand after it there. -/
def passBody (first : FirstSets) (head : Nat) : List Symbol → FollowSets → FollowSets
  | [], f => f
  | .nonterminal i :: rest, f => passBody first head rest (f.extend i (additions first f head rest))
  | _ :: rest, f => passBody first head rest f

/-- One pass over the productions. -/
def pass (g : Grammar) (first : FirstSets) (f : FollowSets) : FollowSets :=
  g.productions.foldl (fun f p => passBody first p.head p.body f) f

/-- Only the end of input follows the start. -/
def initial (g : Grammar) : FollowSets :=
  FollowSets.extend ⟨g.nonterminals.map fun _ => .empty⟩ g.start (.singleton .endMarker)

/-- Each pass but the last adds a terminal or `$` to some set. -/
def bound (g : Grammar) : Nat := g.nonterminals.length * (g.terminals.length + 1) + 1

/-- The least FOLLOW sets that a pass leaves as they are. -/
def solve (g : Grammar) (first : FirstSets) : FollowSets := stabilize (pass g first) (bound g) (initial g)

end FollowSets

/-- The solved sets of a grammar. -/
structure Sets where
  first : FirstSets
  follow : FollowSets
  deriving DecidableEq, Repr

/-- The sets of a grammar, FIRST before FOLLOW. -/
def Sets.solve (g : Grammar) : Sets :=
  let first := FirstSets.solve g
  ⟨first, .solve g first⟩

end Lookahead
