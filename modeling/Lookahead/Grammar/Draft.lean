import Lookahead.Grammar.Basic

/-! Grammars under construction: each edit either changes the draft or names the defect it would cause. -/

namespace Lookahead

/-- Why a draft refuses an edit, or a name has no symbol. -/
inductive Defect where
  | notFound (name : String)
  | unknownSymbol (head symbol : String)
  | notNonterminal (name : String)
  | reservedName (name : String)
  | missingStart
  deriving DecidableEq, Repr

namespace Defect

def message : Defect → String
  | notFound name => "symbol not found: " ++ name
  | unknownSymbol head symbol => "symbol `" ++ symbol ++ "` in a production of `" ++ head ++ "` is not declared"
  | notNonterminal name => "`" ++ name ++ "` must be a declared non-terminal"
  | reservedName name => "`" ++ name ++ "` is a reserved symbol and cannot be declared"
  | missingStart => "start variable not set"

end Defect

/-- The symbol of a name, or the defect that it has none. -/
def Vocabulary.resolve (v : Vocabulary) (name : String) : Except Defect Symbol :=
  match v.find? name with
  | some s => .ok s
  | none => .error (.notFound name)

/-- The nonterminal a name stands for. A nonterminal hides a terminal of the same name. -/
def Vocabulary.resolveNonterminal (v : Vocabulary) (name : String) : Except Defect Nat :=
  match v.find? name with
  | some (.nonterminal i) => .ok i
  | _ => .error (.notNonterminal name)

/-- A grammar whose start may still be open. -/
structure Draft extends Vocabulary where
  productions : List Production
  start : Option Nat
  restarts : List Nat
  deriving DecidableEq, Repr

/-- A change to a draft, given by names. -/
inductive Edit where
  | terminal (name : String)
  | nonterminal (name : String)
  | production (head : String) (body : List String)
  | start (name : String)
  | restart (name : String)
  deriving DecidableEq, Repr

namespace Draft

def empty : Draft := ⟨.empty, [], none, []⟩

/-- Whether a name may not be declared. -/
def isReserved (name : String) : Bool := name = epsilonName || name = endMarkerName

/-- Declares a name among others and gives its number. A declared name keeps the number it has. -/
def declare (names : List String) (name : String) : Except Defect (List String × Nat) :=
  if isReserved name then .error (.reservedName name)
  else match names.idxOf? name with
    | some i => .ok (names, i)
    | none => .ok (names ++ [name], names.length)

def addTerminal (d : Draft) (name : String) : Except Defect (Draft × Nat) := do
  let (terminals, i) ← declare d.terminals name
  return ({ d with terminals }, i)

def addNonterminal (d : Draft) (name : String) : Except Defect (Draft × Nat) := do
  let (nonterminals, i) ← declare d.nonterminals name
  return ({ d with nonterminals }, i)

/-- The symbols of a body, or the first of its names that is not declared. -/
def resolveBody (d : Draft) (head : String) : List String → Except Defect (List Symbol)
  | [] => .ok []
  | name :: rest =>
    match d.find? name with
    | none => .error (.unknownSymbol head name)
    | some s => do return s :: (← d.resolveBody head rest)

/-- Adds a rule and gives its number. An empty body is kept as `[ε]`. -/
def addProduction (d : Draft) (head : String) (body : List String) : Except Defect (Draft × Nat) := do
  let i ← d.resolveNonterminal head
  let symbols ← d.resolveBody head body
  let symbols := if symbols.isEmpty then [.epsilon] else symbols
  return ({ d with productions := d.productions ++ [⟨i, symbols⟩] }, d.productions.length)

def setStart (d : Draft) (name : String) : Except Defect Draft := do
  let i ← d.resolveNonterminal name
  return { d with start := some i }

/-- Adds a restart point behind the others. One that is there already keeps its priority. -/
def addRestart (d : Draft) (name : String) : Except Defect Draft := do
  let i ← d.resolveNonterminal name
  return if d.restarts.contains i then d else { d with restarts := d.restarts ++ [i] }

/-- Applies an edit. The number is that of the declared name or the added rule. -/
def apply (d : Draft) : Edit → Except Defect (Draft × Option Nat)
  | .terminal name => do let (d, i) ← d.addTerminal name; return (d, some i)
  | .nonterminal name => do let (d, i) ← d.addNonterminal name; return (d, some i)
  | .production head body => do let (d, i) ← d.addProduction head body; return (d, some i)
  | .start name => do return (← d.setStart name, none)
  | .restart name => do return (← d.addRestart name, none)

/-- Applies edits in order, all or none: the first refused edit refuses the list. -/
def applyAll (d : Draft) : List Edit → Except Defect Draft
  | [] => .ok d
  | e :: rest => do
    let (d, _) ← d.apply e
    d.applyAll rest

/-- Applies an edit where the draft admits it; a refused edit changes nothing. -/
def attempt (d : Draft) (e : Edit) : Draft :=
  match d.apply e with
  | .ok (d', _) => d'
  | .error _ => d

/-- Freezes the draft. -/
def build (d : Draft) : Except Defect Grammar :=
  match d.start with
  | none => .error .missingStart
  | some s => .ok ⟨d.toVocabulary, d.productions, s, d.restarts⟩

end Draft

/-- A grammar written down by names: terminals, nonterminals, the start, rules and restart points. -/
structure Outline where
  terminals : List String
  nonterminals : List String
  start : Option String
  productions : List (String × List String)
  restarts : List String
  deriving DecidableEq, Repr

namespace Outline

/-- The edits that write the outline into a draft, in the order in which they are made. -/
def edits (o : Outline) : List Edit :=
  o.terminals.map .terminal ++ o.nonterminals.map .nonterminal ++ o.start.toList.map .start ++
    o.productions.map (fun p => .production p.1 p.2) ++ o.restarts.map .restart

/-- The grammar of an outline, or the first defect on the way to it. -/
def build (o : Outline) : Except Defect Grammar := do
  let d ← Draft.empty.applyAll o.edits
  d.build

end Outline
end Lookahead
