import Lookahead.Grammar.Draft
import Std.Data.HashMap

/-! Grammars under construction as they are stored: beside each list of names stands a map from the names to their numbers.
Operations work on a builder in place, so that one that fails leaves what it has made of the builder by then. -/

namespace Lookahead

/-- Names of one kind in order of declaration, and the number of each by name. -/
structure Register where
  names : List String
  numbers : Std.HashMap String Nat

namespace Register

def empty : Register := ⟨[], ∅⟩

/-- Both the lists and the maps are compared. -/
instance : BEq Register := ⟨fun r s => r.names == s.names && r.numbers == s.numbers⟩

/-- Declares a name and gives its number. A declared name keeps the number it has. -/
def declare (name : String) : EStateM Defect Register Nat := do
  if Draft.isReserved name then throw (.reservedName name)
  match (← get).numbers[name]? with
  | some i => return i
  | none =>
    let i := (← get).names.length
    modify fun r => { r with names := r.names ++ [name] }
    modify fun r => { r with numbers := r.numbers.insert name i }
    return i

end Register

/-- The declared names of both kinds. -/
structure Names where
  terminals : Register
  nonterminals : Register

namespace Names

instance : BEq Names := ⟨fun n k => n.terminals == k.terminals && n.nonterminals == k.nonterminals⟩

/-- The symbol of a name: `ε` and `$` first, then nonterminals, then terminals. -/
def find? (n : Names) (name : String) : Option Symbol :=
  if name = epsilonName then some .epsilon
  else if name = endMarkerName then some .endMarker
  else (n.nonterminals.numbers[name]?.map .nonterminal).or (n.terminals.numbers[name]?.map .terminal)

/-- The symbol of a name, or the defect that it has none. -/
def resolve (n : Names) (name : String) : Except Defect Symbol :=
  match n.find? name with
  | some s => .ok s
  | none => .error (.notFound name)

/-- The lists of names. -/
def vocabulary (n : Names) : Vocabulary := ⟨n.terminals.names, n.nonterminals.names⟩

end Names

/-- A finished grammar. -/
structure StoredGrammar extends Names where
  productions : List Production
  start : Nat
  restarts : List Nat

namespace StoredGrammar

instance : BEq StoredGrammar := ⟨fun g h =>
  g.toNames == h.toNames && g.productions == h.productions && g.start == h.start && g.restarts == h.restarts⟩

/-- The grammar without its maps. -/
def grammar (g : StoredGrammar) : Grammar := ⟨g.vocabulary, g.productions, g.start, g.restarts⟩

end StoredGrammar

/-- A grammar whose start may still be open. -/
structure Builder extends Names where
  productions : List Production
  start : Option Nat
  restarts : List Nat

/-- What works on a builder: it gives a result or a defect, and leaves a builder either way. -/
abbrev Building := EStateM Defect Builder

namespace Builder

def empty : Builder := ⟨⟨.empty, .empty⟩, [], none, []⟩

/-- Works on a part of a builder. -/
def within {α : Type} (part : Builder → Register) (put : Builder → Register → Builder) (x : EStateM Defect Register α) :
    Building α := fun b =>
  match x (part b) with
  | .ok a r => .ok a (put b r)
  | .error defect r => .error defect (put b r)

def addTerminal (name : String) : Building Nat :=
  within (·.terminals) (fun b terminals => { b with terminals }) (Register.declare name)

def addNonterminal (name : String) : Building Nat :=
  within (·.nonterminals) (fun b nonterminals => { b with nonterminals }) (Register.declare name)

def findNonterminal (name : String) : Building Nat := do
  match (← get).find? name with
  | some (.nonterminal i) => return i
  | _ => throw (.notNonterminal name)

/-- The symbols of a body, or the first of its names that is not declared. -/
def findBody (head : String) : List String → Building (List Symbol)
  | [] => return []
  | name :: rest => do
    match (← get).find? name with
    | none => throw (.unknownSymbol head name)
    | some s => return s :: (← findBody head rest)

/-- Adds a rule and gives its number. An empty body is kept as `[ε]`. -/
def addProduction (head : String) (body : List String) : Building Nat := do
  let i ← findNonterminal head
  let symbols ← findBody head body
  let symbols := if symbols.isEmpty then [.epsilon] else symbols
  modify fun b => { b with productions := b.productions ++ [⟨i, symbols⟩] }
  return (← get).productions.length - 1

def setStart (name : String) : Building Unit := do
  let i ← findNonterminal name
  modify fun b => { b with start := some i }

/-- Adds a restart point behind the others. One that is there already keeps its priority. -/
def addRestart (name : String) : Building Unit := do
  let i ← findNonterminal name
  if !(← get).restarts.contains i then
    modify fun b => { b with restarts := b.restarts ++ [i] }

/-- Makes an edit. The number is that of the declared name or the added rule. -/
def perform : Edit → Building (Option Nat)
  | .terminal name => return some (← addTerminal name)
  | .nonterminal name => return some (← addNonterminal name)
  | .production head body => return some (← addProduction head body)
  | .start name => do setStart name; return none
  | .restart name => do addRestart name; return none

/-- What an edit leaves, whether it is refused or not. -/
def after (b : Builder) (e : Edit) : Builder :=
  match (perform e).run b with
  | .ok _ b => b
  | .error _ b => b

/-- Makes edits in order. The first that is refused ends it, and the builder is given up. -/
def performAll (b : Builder) : List Edit → Except Defect Builder
  | [] => .ok b
  | e :: rest =>
    match (perform e).run b with
    | .ok _ b => b.performAll rest
    | .error defect _ => .error defect

/-- Freezes the grammar. -/
def build (b : Builder) : Except Defect StoredGrammar :=
  match b.start with
  | none => .error .missingStart
  | some s => .ok ⟨b.toNames, b.productions, s, b.restarts⟩

/-- The draft that the builder holds, without its maps. -/
def draft (b : Builder) : Draft := ⟨b.vocabulary, b.productions, b.start, b.restarts⟩

end Builder
end Lookahead
