import Lookahead.Position

/-! Findings about a text: each has the phase it stems from, a message and a place. -/

namespace Lookahead

/-- The phase a finding stems from. Only a warning is not an error. -/
inductive Severity where
  | lexical
  | syntactic
  | semantic
  | warning
  deriving DecidableEq, Repr

namespace Severity

/-- All phases in the order reports list them. -/
def all : List Severity := [lexical, syntactic, semantic, warning]

def label : Severity → String
  | lexical => "Lexical Error"
  | syntactic => "Syntax Error"
  | semantic => "Semantic Error"
  | warning => "Warning"

end Severity

/-- A finding. -/
structure Diagnostic where
  severity : Severity
  message : String
  pos : Position
  deriving DecidableEq, Repr

namespace Diagnostic

/-- Written `kind at line L, column C: message`. -/
def render (d : Diagnostic) : String :=
  d.severity.label ++ " at line " ++ toString d.pos.line ++ ", column " ++ toString d.pos.column ++ ": " ++ d.message

def isError (d : Diagnostic) : Bool := d.severity ≠ .warning

/-- The findings of one phase, in report order. -/
def ofSeverity (k : Severity) (ds : List Diagnostic) : List Diagnostic := ds.filter (·.severity = k)

/-- Whether anything but warnings was found. -/
def hasErrors (ds : List Diagnostic) : Bool := ds.any isError

end Diagnostic
end Lookahead
