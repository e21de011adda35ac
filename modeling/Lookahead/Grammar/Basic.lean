import Lookahead.Grammar.Symbol

/-! Context-free grammars: names in order of declaration, numbered productions, a start and restart points. -/

namespace Lookahead

/-- The declared names. A symbol is a position in one of the two lists. -/
structure Vocabulary where
  terminals : List String
  nonterminals : List String
  deriving DecidableEq, Repr

namespace Vocabulary

def empty : Vocabulary := ⟨[], []⟩

def terminal? (v : Vocabulary) (name : String) : Option Nat := v.terminals.idxOf? name

def nonterminal? (v : Vocabulary) (name : String) : Option Nat := v.nonterminals.idxOf? name

/-- The symbol of a name: `ε` and `$` first, then nonterminals, then terminals. -/
def find? (v : Vocabulary) (name : String) : Option Symbol :=
  if name = epsilonName then some .epsilon
  else if name = endMarkerName then some .endMarker
  else match v.nonterminal? name with
    | some i => some (.nonterminal i)
    | none => (v.terminal? name).map .terminal

/-- The name of a symbol. A number that no name was declared under has a name of its own. -/
def name (v : Vocabulary) : Symbol → String
  | .terminal i => v.terminals.getD i "<unknown>"
  | .nonterminal i => v.nonterminals.getD i "<unknown>"
  | .epsilon => epsilonName
  | .endMarker => endMarkerName

end Vocabulary

/-- A rule `head → body`. -/
structure Production where
  head : Nat
  body : List Symbol
  deriving DecidableEq, Repr

/-- Whether the rule is the explicit empty alternative. -/
def Production.isEmpty (p : Production) : Bool := p.body = [.epsilon]

/-- A grammar. A production is known by its place in the list; the first restart point has priority. -/
structure Grammar extends Vocabulary where
  productions : List Production
  start : Nat
  restarts : List Nat
  deriving DecidableEq, Repr

namespace Grammar

def production? (g : Grammar) (id : Nat) : Option Production := g.productions[id]?

/-- The productions with their numbers. -/
def numbered (g : Grammar) : List (Production × Nat) := g.productions.zipIdx

/-- The numbered productions of one nonterminal. -/
def productionsOf (g : Grammar) (head : Nat) : List (Production × Nat) := g.numbered.filter (·.1.head = head)

/-- A production written `head → body`; a missing one by its number. -/
def renderProduction (g : Grammar) (id : Nat) : String :=
  match g.production? id with
  | some p => g.name (.nonterminal p.head) ++ " → " ++ " ".intercalate (p.body.map g.name)
  | none => "#" ++ toString id

/-- The columns of the grammar's table: its terminals in order, then the end of input. -/
def columns (g : Grammar) : List Column := (List.range g.terminals.length).map .terminal ++ [.endMarker]

end Grammar
end Lookahead
