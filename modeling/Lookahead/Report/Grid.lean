import Lookahead.Machine.Trace
import Lookahead.Prediction.Table

/-! Markdown grids of the prediction table and of a trace. -/

namespace Lookahead
namespace Grid

/-- The characters of a cell: a bar, which would end the cell, gets a backslash. -/
def escapeBars : List Char → List Char
  | [] => []
  | c :: rest => if c = '|' then '\\' :: '|' :: escapeBars rest else c :: escapeBars rest

def escape (text : String) : String := String.ofList (escapeBars text.toList)

/-- A line of cells, each with a blank on either side. -/
def line (cells : List String) : String := "|" ++ String.join (cells.map fun c => " " ++ c ++ " |") ++ "\n"

/-- The line below the head of a grid of some width. -/
def rule (width : Nat) : String := "|" ++ String.join (List.replicate width "---|") ++ "\n"

/-! ### The prediction table -/

def cell (t : Table) (nonterminal : Nat) (column : Column) : String :=
  match t.get? nonterminal column with
  | some id => toString id
  | none => ""

/-- The grid of a table: a line for each nonterminal, a cell for each terminal and then for `$`. -/
def tableGrid (g : Grammar) (t : Table) : String :=
  line ("Non-Terminal" :: g.columns.map fun c => escape (g.name c.toSymbol)) ++ rule (g.columns.length + 1) ++
    String.join (g.nonterminals.zipIdx.map fun (name, i) => line (escape name :: g.columns.map (cell t i)))

/-- The overwrites of a table, if there are any. -/
def conflictList (g : Grammar) (t : Table) : String :=
  if t.isLL1 then ""
  else "\n" ++ toString t.conflicts.length ++ " conflict(s):\n\n" ++
    String.join (t.conflicts.map fun c => "- " ++ (c.toDiagnostic g).message ++ "\n")

/-- The productions with their numbers. -/
def productionList (g : Grammar) : String :=
  "\nProductions:\n\n" ++
    String.join ((List.range g.productions.length).map fun id => toString id ++ ". " ++ g.renderProduction id ++ "\n")

/-- The report of a prediction table. -/
def table (g : Grammar) (t : Table) : String := tableGrid g t ++ conflictList g t ++ productionList g

/-! ### Traces -/

/-- What a step did, as the report of a trace tells it. -/
inductive Deed where
  | matched (column : Column)
  /-- Anything else goes by its label. -/
  | other (label : String)
  deriving DecidableEq, Repr

/-- A step as the report of a trace takes it: any production can stand beside any deed. -/
structure Step where
  /-- The top comes first. -/
  stack : List Symbol
  lookahead : String
  production : Option Nat
  deed : Deed
  deriving DecidableEq, Repr

def Deed.ofAction : Action → Deed
  | .matched terminal => .matched (.terminal terminal)
  | action => .other action.label

/-- The step of a row, with the production that its action applies. -/
def Step.ofRow (r : Row) : Step := ⟨r.stack, r.lookahead, r.action.production?, .ofAction r.action⟩

/-- The names of a stack from the bottom up. -/
def stackCell (g : Grammar) (stack : List Symbol) : String :=
  " ".intercalate (stack.reverse.map fun s => escape (g.name s))

def productionCell (g : Grammar) (production : Option Nat) : String :=
  match production with
  | some id => escape (g.renderProduction id)
  | none => ""

def deedCell (g : Grammar) : Deed → String
  | .matched column => "Match '" ++ escape (g.name column.toSymbol) ++ "'"
  | .other label => escape label

def stepRow (g : Grammar) (s : Step) : String :=
  line [stackCell g s.stack, escape s.lookahead, productionCell g s.production, deedCell g s.deed]

/-- The grid of steps: a line for each. -/
def stepGrid (g : Grammar) (steps : List Step) : String :=
  line ["Stack Contents", "Current Input", "Production Used", "Action"] ++ rule 4 ++ String.join (steps.map (stepRow g))

/-- The report of a trace. -/
def trace (g : Grammar) (rows : List Row) : String := stepGrid g (rows.map .ofRow)

end Grid
end Lookahead
