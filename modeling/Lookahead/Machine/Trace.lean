import Lookahead.Diagnostic
import Lookahead.Grammar.Symbol

/-! What a run leaves behind: rows of the trace and the faults it reports. -/

namespace Lookahead

/-- Why the input cannot go on where it stands. Symbols are given by name. -/
inductive SyntaxFault where
  | mismatch (expected found : String)
  | noProduction (nonterminal found : String)
  | unexpectedEnd (expected : String)
  | trailingInput (found : String)
  /-- A nonterminal came up again before a token was consumed. -/
  | expansionCycle (nonterminal : String)
  deriving DecidableEq, Repr

namespace SyntaxFault

def message : SyntaxFault → String
  | mismatch expected found => "expected '" ++ expected ++ "', found '" ++ found ++ "'"
  | noProduction nonterminal found => "unexpected token '" ++ found ++ "' for non-terminal '" ++ nonterminal ++ "'"
  | unexpectedEnd expected => "unexpected end of input, expected '" ++ expected ++ "'"
  | trailingInput found => "unexpected token '" ++ found ++ "' after end of input"
  | expansionCycle nonterminal => "non-terminal '" ++ nonterminal ++ "' expands to itself without consuming input"

end SyntaxFault

/-- What is wrong with the use of an identifier or a literal. It never stops a run. -/
inductive SemanticFault where
  | redeclaration (name : String) (previous : Position)
  | undeclared (name : String)
  | typeMismatch (name expected found operand : String)
  deriving DecidableEq, Repr

namespace SemanticFault

def message : SemanticFault → String
  | redeclaration name previous => "Symbol '" ++ name ++ "' already declared at " ++ previous.render
  | undeclared name => "Use of undeclared variable '" ++ name ++ "'"
  | typeMismatch name expected found operand =>
    "Type mismatch: cannot assign " ++ found ++ " value '" ++ operand ++ "' to '" ++ name ++ "' of type " ++ expected

end SemanticFault

/-- A fault of either sort. -/
inductive Fault where
  | syntactic (fault : SyntaxFault)
  | semantic (fault : SemanticFault)
  deriving DecidableEq, Repr

namespace Fault

def toDiagnostic (pos : Position) : Fault → Diagnostic
  | syntactic f => ⟨.syntactic, f.message, pos⟩
  | semantic f => ⟨.semantic, f.message, pos⟩

end Fault

/-- What a row of the trace records. -/
inductive Action where
  | initial
  | matched (terminal : Nat)
  | expand (production : Nat)
  | accept
  | error (fault : SyntaxFault)
  /-- Input is being skipped up to a synchronizing terminal. -/
  | panic
  /-- The stack was set back to a restart point. -/
  | resume
  /-- The input ended while it was being skipped. -/
  | abort
  deriving DecidableEq, Repr

namespace Action

/-- The short name of an action. -/
def label : Action → String
  | initial => "Initial"
  | matched _ => "Match"
  | expand _ => "Expand"
  | accept => "Accept"
  | error fault => "Error: " ++ fault.message
  | panic => "Panic"
  | resume => "Resume"
  | abort => "Abort"

/-- The production an action applies. -/
def production? : Action → Option Nat
  | expand id => some id
  | _ => none

end Action

/-- A row of the trace: the stack after the action, its top first, the text of the lookahead and the action. -/
structure Row where
  stack : List Symbol
  lookahead : String
  action : Action
  deriving DecidableEq, Repr

/-- What a step of a run reports, in order of occurrence. -/
inductive Event where
  | row (row : Row)
  | fault (fault : Fault) (pos : Position)
  deriving DecidableEq, Repr

namespace Event

def row? : Event → Option Row
  | row r => some r
  | fault _ _ => none

def diagnostic? : Event → Option Diagnostic
  | row _ => none
  | fault f pos => some (f.toDiagnostic pos)

end Event
end Lookahead
