import Lookahead.Imperative.Grammar
import Lookahead.Imperative.Lexicon
import Lookahead.Machine.Run

/-! Compilation: a source is scanned, parsed and checked in one go, and all findings are collected in order. -/

namespace Lookahead
namespace Imperative

/-- What is wrong with the front end itself: a defect of its grammar, or a character that its scanner has no rule for. -/
inductive SetupError where
  | grammar (defect : Defect)
  | scanner (unmatched : Unmatched)
  deriving DecidableEq, Repr

def SetupError.message : SetupError → String
  | grammar defect => "invalid grammar: " ++ defect.message
  | scanner unmatched => "invalid scanner: " ++ unmatched.message

/-- All that a compilation produces. -/
structure Compilation where
  tokens : List Token
  machine : Machine
  outcome : Outcome
  trace : List Row
  declared : Declarations
  /-- Unmatched characters, overwritten cells of the table, then what the parser finds. -/
  diagnostics : List Diagnostic
  deriving DecidableEq, Repr

/-- Whether the parser accepted and nothing but warnings was found. -/
def Compilation.succeeded (c : Compilation) : Bool := c.outcome = .accept && !Diagnostic.hasErrors c.diagnostics

def invalidCharacter (u : Unmatched) : Diagnostic :=
  ⟨.lexical, "Invalid character '" ++ String.singleton u.character ++ "'", u.pos⟩

/-- Compiles a source with a parser. -/
def compileWith (m : Machine) (source : String) : Compilation :=
  let scan := Scan.ofText rules source
  let parse := m.parse scan.tokens .empty
  { tokens := scan.tokens
    machine := m
    outcome := parse.outcome
    trace := parse.trace
    declared := parse.declared
    diagnostics :=
      scan.unmatched.map invalidCharacter ++ m.table.conflicts.map (·.toDiagnostic m.grammar) ++ parse.diagnostics }

/-- The language's parser, which keeps a trace or not. -/
def machine (g : Grammar) (trace : Bool) : Machine := .ofGrammar g { settings with trace }

/-- Compiles a source. -/
def compile (source : String) (trace : Bool) : Except SetupError Compilation :=
  match grammar with
  | .error d => .error (.grammar d)
  | .ok g => .ok (compileWith (machine g trace) source)

end Imperative
end Lookahead
