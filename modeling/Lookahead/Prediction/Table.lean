import Lookahead.Prediction.Follow
import Lookahead.Diagnostic

/-! The prediction table: which production a nonterminal takes on a column, and every cell that was written twice. -/

namespace Lookahead

/-- A production proposed for a cell. -/
structure Prediction where
  nonterminal : Nat
  column : Column
  production : Nat
  deriving DecidableEq, Repr

/-- Whether two predictions are for one cell. -/
def Prediction.sameCell (a b : Prediction) : Bool := a.nonterminal = b.nonterminal && a.column = b.column

/-- Cells are ordered by nonterminal and then by column. -/
def Prediction.precedes (a b : Prediction) : Bool :=
  a.nonterminal < b.nonterminal || (a.nonterminal == b.nonterminal && a.column.precedes b.column)

/-- A cell that held a production when another was written to it. -/
structure Conflict where
  nonterminal : Nat
  column : Column
  previous : Nat
  replacement : Nat
  deriving DecidableEq, Repr

/-- The filled cells in order, and the overwrites in order of occurrence. -/
structure Table where
  cells : List Prediction
  conflicts : List Conflict
  deriving DecidableEq, Repr

namespace Table

def empty : Table := ⟨[], []⟩

def get? (t : Table) (nonterminal : Nat) (column : Column) : Option Nat :=
  (t.cells.find? fun c => c.nonterminal = nonterminal ∧ c.column = column).map (·.production)

def predicts (t : Table) (nonterminal : Nat) (column : Column) : Bool := (t.get? nonterminal column).isSome

/-- Whether no cell was written twice. -/
def isLL1 (t : Table) : Bool := t.conflicts.isEmpty

/-- The filled cells of one nonterminal. -/
def row (t : Table) (nonterminal : Nat) : List Prediction := t.cells.filter (·.nonterminal = nonterminal)

/-- Puts a prediction into its cell of an ordered list of cells; it takes the place of the one there. -/
def place (p : Prediction) : List Prediction → List Prediction
  | [] => [p]
  | c :: rest =>
    if p.sameCell c then p :: rest
    else if p.precedes c then p :: c :: rest
    else c :: place p rest

/-- Writes a prediction. The last write to a cell wins, and each write to a filled cell is kept as a conflict,
    also one of the production that is there. -/
def write (t : Table) (p : Prediction) : Table where
  cells := place p t.cells
  conflicts := match t.get? p.nonterminal p.column with
    | some previous => t.conflicts ++ [⟨p.nonterminal, p.column, previous, p.production⟩]
    | none => t.conflicts

/-- The predictions of one production: on FIRST of its body, and where the body can vanish on FOLLOW of its head. -/
def predictionsOf (sets : Sets) (p : Production) (id : Nat) : List Prediction :=
  let begins := sets.first.ofSequence p.body
  let after := if Symbol.epsilon ∈ begins then (sets.follow.ofNonterminal p.head).columns else []
  (begins.columns ++ after).map fun column => ⟨p.head, column, id⟩

/-- All predictions of a grammar in the order in which they are written. -/
def predictions (g : Grammar) (sets : Sets) : List Prediction :=
  g.numbered.flatMap fun (p, id) => predictionsOf sets p id

/-- The table of a grammar under given sets, its own or those of another grammar. -/
def build (g : Grammar) (sets : Sets) : Table := (predictions g sets).foldl write empty

end Table

/-- An overwrite as a warning. -/
def Conflict.toDiagnostic (g : Grammar) (c : Conflict) : Diagnostic where
  severity := .warning
  message := "LL(1) conflict at [" ++ g.name (.nonterminal c.nonterminal) ++ ", " ++ g.name c.column.toSymbol ++ "]: '" ++
    g.renderProduction c.previous ++ "' replaced by '" ++ g.renderProduction c.replacement ++ "'"
  pos := .nowhere

end Lookahead
