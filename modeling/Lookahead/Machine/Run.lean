import Lookahead.Machine.Weight

/-! Whole runs: steps until one halts, and what is kept of them. -/

namespace Lookahead
namespace Machine

/-- What a run reports, how it ends and what is declared then. -/
structure Run where
  events : List Event
  outcome : Outcome
  scope : Scope
  deriving DecidableEq, Repr

/-- A run with what was reported before it. -/
def Run.preceded (run : Run) (events : List Event) : Run := { run with events := events ++ run.events }

/-- Steps from a state until one halts. -/
def runFrom (m : Machine) (s : State) : Run :=
  match _step : m.step s with
  | .halt events outcome scope => ⟨events, outcome, scope⟩
  | .next events later => (m.runFrom later).preceded events
termination_by m.energy s
decreasing_by exact step_energy _step

theorem runFrom_halt {m : Machine} {s : State} {events : List Event} {outcome : Outcome} {scope : Scope}
    (h : m.step s = .halt events outcome scope) : m.runFrom s = ⟨events, outcome, scope⟩ := by
  rw [runFrom]
  split
  · rename_i h'; rw [h] at h'; cases h'; rfl
  · rename_i h'; rw [h] at h'; cases h'

theorem runFrom_next {m : Machine} {s later : State} {events : List Event} (h : m.step s = .next events later) :
    m.runFrom s = (m.runFrom later).preceded events := by
  rw [runFrom]
  split
  · rename_i h'; rw [h] at h'; cases h'
  · rename_i h'; rw [h] at h'; cases h'; rfl

/-- The result of parsing: the outcome, the trace if it is kept, the findings and the declared names. -/
structure Parse where
  outcome : Outcome
  trace : List Row
  diagnostics : List Diagnostic
  declared : Declarations
  deriving DecidableEq, Repr

/-- Runs over an input from given declarations. The first row shows the state before any step. -/
def run (m : Machine) (input : Input) (declared : Declarations) : Run :=
  let first := m.initial input declared
  (m.runFrom first).preceded [first.row .initial]

/-- What is kept of a run. -/
def report (m : Machine) (run : Run) : Parse where
  outcome := run.outcome
  trace := if m.settings.trace then run.events.filterMap Event.row? else []
  diagnostics := run.events.filterMap Event.diagnostic?
  declared := run.scope.declared

/-- Parses a stream of tokens, which counts up to its first closing record. -/
def parse (m : Machine) (stream : List Token) (declared : Declarations) : Parse :=
  m.report (m.run (.ofTokens stream) declared)

end Machine
end Lookahead
