import Lookahead.Machine.Run
import Mathlib.Logic.Relation

/-! What a step can do, and runs as steps that come to an end. Every run of a machine does. -/

namespace Lookahead

/-- What a step reports. -/
def Turn.events : Turn → List Event
  | .halt events _ _ => events
  | .next events _ => events

/-- A turn that rejects, or that leads to a state which is at fault. -/
def Turn.Rejects : Turn → Prop
  | .halt _ outcome _ => outcome = .reject
  | .next _ later => later.faulty = true

/-- The productions that events expand, in order. -/
def expansions (events : List Event) : List Nat := (events.filterMap Event.row?).filterMap (·.action.production?)

@[simp] theorem expansions_nil : expansions [] = [] := rfl

@[simp] theorem expansions_append (a b : List Event) : expansions (a ++ b) = expansions a ++ expansions b := by
  simp [expansions]

theorem rows_semantic (faults : List SemanticFault) (pos : Position) :
    (faults.map fun f => Event.fault (.semantic f) pos).filterMap Event.row? = [] := by
  rw [List.filterMap_map, List.filterMap_eq_nil_iff]
  exact fun _ _ => rfl

theorem rows_matched (s : State) (t : Nat) (faults : List SemanticFault) (pos : Position) :
    (s.row (.matched t) :: faults.map fun f => .fault (.semantic f) pos).filterMap Event.row? =
      [⟨s.stack, s.input.text, .matched t⟩] := by
  simp only [State.row, List.filterMap_cons, Event.row?, rows_semantic]

namespace Machine
variable {m : Machine} {s : State}

/-! ### Steps -/

/-- Why a symbol that was taken off the stack cannot go on. -/
inductive Refuses (m : Machine) (s : State) : Symbol → SyntaxFault → Prop
  | trailing {token : Token} {rest : List Token} (tokens : s.input.tokens = token :: rest) :
    Refuses m s .endMarker (.trailingInput token.source)
  | ended {t : Nat} (tokens : s.input.tokens = []) :
    Refuses m s (.terminal t) (.unexpectedEnd (m.grammar.name (.terminal t)))
  | mismatch {t : Nat} {token : Token} {rest : List Token} (tokens : s.input.tokens = token :: rest)
    (other : m.column? token ≠ some (.terminal t)) :
    Refuses m s (.terminal t) (.mismatch (m.grammar.name (.terminal t)) token.source)
  | cycle {n : Nat} (going : s.isOpen n = true) :
    Refuses m s (.nonterminal n) (.expansionCycle (m.grammar.name (.nonterminal n)))
  | unpredictedEnd {n : Nat} (missing : m.predict n (m.lookahead? s.input) = none) (tokens : s.input.tokens = []) :
    Refuses m s (.nonterminal n) (.unexpectedEnd (m.expected n))
  | unpredicted {n : Nat} {token : Token} {rest : List Token} (missing : m.predict n (m.lookahead? s.input) = none)
    (tokens : s.input.tokens = token :: rest) :
    Refuses m s (.nonterminal n) (.noProduction (m.grammar.name (.nonterminal n)) token.source)

/-- What a step can lead to. The cases that halt and those that go on can be told from the turn. -/
inductive Move (m : Machine) (s : State) : Turn → Prop
  | exhausted (stack : s.stack = []) : Move m s (.halt [] .reject s.scope)
  | skip {below : List Symbol} (stack : s.stack = .epsilon :: below) : Move m s (.next [] (s.pop below))
  | accept {below : List Symbol} (stack : s.stack = .endMarker :: below) (tokens : s.input.tokens = []) :
    Move m s (.halt [(s.pop below).row .accept] (if s.faulty then .reject else .accept) s.scope)
  | consume {t : Nat} {below : List Symbol} {token : Token} {rest : List Token} {scope : Scope}
    {faults : List SemanticFault} (stack : s.stack = .terminal t :: below) (tokens : s.input.tokens = token :: rest)
    (column : m.column? token = some (.terminal t))
    (observed : s.scope.observe m.settings (m.role t) token = (scope, faults)) :
    Move m s (.next ((s.pop below).row (.matched t) :: faults.map fun f => .fault (.semantic f) token.pos)
      ((s.pop below).advance rest scope))
  | expand {n id : Nat} {p : Production} {below : List Symbol} (stack : s.stack = .nonterminal n :: below)
    (closed : (s.pop below).isOpen n = false) (predicted : m.predict n (m.lookahead? s.input) = some (id, p)) :
    Move m s (.next [((s.pop below).expand n p).row (.expand id)] ((s.pop below).expand n p))
  | abort {top : Symbol} {below : List Symbol} {fault : SyntaxFault} (stack : s.stack = top :: below)
    (refused : m.Refuses (s.pop below) top fault) (lost : m.resync s.input.tokens = none) :
    Move m s (.halt ((s.pop below).faultEvents fault ++
      [State.row { s.pop below with input := { s.input with tokens := [] } } .abort]) .reject s.scope)
  | resume {top : Symbol} {below : List Symbol} {fault : SyntaxFault} {rest : List Token} (stack : s.stack = top :: below)
    (refused : m.Refuses (s.pop below) top fault) (found : m.resync s.input.tokens = some rest) :
    Move m s (.next ((s.pop below).faultEvents fault ++ [(m.resumed (s.pop below) rest).row .resume])
      (m.resumed (s.pop below) rest))

theorem move_fail {top : Symbol} {below : List Symbol} {fault : SyntaxFault} (stack : s.stack = top :: below)
    (refused : m.Refuses (s.pop below) top fault) : m.Move s (m.fail (s.pop below) fault) := by
  have same : (s.pop below).input = s.input := rfl
  unfold fail
  rw [same]
  cases resync : m.resync s.input.tokens with
  | none => exact .abort stack refused resync
  | some rest => exact .resume stack refused resync

theorem move_end {below : List Symbol} (stack : s.stack = .endMarker :: below) : m.Move s (m.stepEnd (s.pop below)) := by
  cases tokens : s.input.tokens with
  | nil =>
    simp only [stepEnd, State.pop, tokens]
    exact .accept stack tokens
  | cons token rest =>
    simp only [stepEnd, State.pop, tokens]
    exact move_fail stack (.trailing tokens)

theorem move_terminal {t : Nat} {below : List Symbol} (stack : s.stack = .terminal t :: below) :
    m.Move s (m.stepTerminal (s.pop below) t) := by
  cases tokens : s.input.tokens with
  | nil =>
    simp only [stepTerminal, State.pop, tokens]
    exact move_fail stack (.ended tokens)
  | cons token rest =>
    by_cases column : m.column? token = some (.terminal t)
    · simp only [stepTerminal, State.pop, tokens, column, if_true]
      exact .consume stack tokens column rfl
    · simp only [stepTerminal, State.pop, tokens, column, if_false]
      exact move_fail stack (.mismatch tokens column)

theorem move_nonterminal {n : Nat} {below : List Symbol} (stack : s.stack = .nonterminal n :: below) :
    m.Move s (m.stepNonterminal (s.pop below) n) := by
  unfold stepNonterminal
  split
  · rename_i going
    exact move_fail stack (.cycle going)
  · rename_i closed
    split
    · rename_i id p predicted
      exact .expand stack (Bool.eq_false_iff.mpr closed) predicted
    · rename_i missing
      split
      · rename_i tokens
        exact move_fail stack (.unpredictedEnd missing tokens)
      · rename_i token rest tokens
        exact move_fail stack (.unpredicted missing tokens)

theorem step_move (m : Machine) (s : State) : m.Move s (m.step s) := by
  unfold step
  split
  · rename_i stack
    exact .exhausted stack
  · rename_i stack
    exact .skip stack
  · rename_i stack
    exact move_end stack
  · rename_i stack
    exact move_terminal stack
  · rename_i stack
    exact move_nonterminal stack

theorem Move.of_step {turn : Turn} (h : m.step s = turn) : m.Move s turn := h ▸ m.step_move s

theorem lookup_of_predict {n id : Nat} {look : Option Column} {p : Production} (h : m.predict n look = some (id, p)) :
    ∃ c, look = some c ∧ m.table.get? n c = some id ∧ m.grammar.production? id = some p := by
  simp only [predict, Option.bind_eq_some_iff, Option.map_eq_some_iff] at h
  obtain ⟨_, ⟨c, here, cell⟩, p, found, same⟩ := h
  cases same
  exact ⟨c, here, cell, found⟩

/-- A state that is at fault does not get rid of it. -/
theorem step_rejects (faulty : s.faulty = true) : (m.step s).Rejects := by
  cases turn : m.step s with
  | halt events outcome scope =>
    cases Move.of_step turn with
    | exhausted _ => rfl
    | accept _ _ =>
      rw [faulty]
      rfl
    | abort _ _ _ => rfl
  | next events later =>
    cases Move.of_step turn with
    | skip _ => exact faulty
    | consume _ _ _ _ => exact faulty
    | expand _ _ _ => exact faulty
    | resume _ _ _ => rfl

theorem expansions_matched (s : State) (t : Nat) (faults : List SemanticFault) (pos : Position) :
    expansions (s.row (.matched t) :: faults.map fun f => .fault (.semantic f) pos) = [] := by
  rw [expansions, rows_matched]
  rfl

/-! ### Runs -/

/-- Steps from a state come to an end, with what they report on the way. -/
inductive Halts (step : State → Turn) : State → Run → Prop
  | halt {s : State} {events : List Event} {outcome : Outcome} {scope : Scope}
    (h : step s = .halt events outcome scope) : Halts step s ⟨events, outcome, scope⟩
  | next {s later : State} {events : List Event} {run : Run} (h : step s = .next events later)
    (rest : Halts step later run) : Halts step s (run.preceded events)

theorem Halts.reject {run : Run} (h : Halts m.step s run) (rejects : (m.step s).Rejects) : run.outcome = .reject := by
  induction h with
  | halt h =>
    rw [h] at rejects
    exact rejects
  | next h _ ih =>
    rw [h] at rejects
    exact ih (step_rejects rejects)

theorem Halts.not_rejects {run : Run} (h : Halts m.step s run) (accepted : run.outcome = .accept) :
    ¬(m.step s).Rejects := by
  intro rejects
  rw [h.reject rejects] at accepted
  cases accepted

/-- Steps that go on lead from one state to another. -/
def Reaches (step : State → Turn) : State → State → Prop :=
  Relation.ReflTransGen fun s later => ∃ events, step s = .next events later

theorem halts_runFrom (m : Machine) (s : State) : Halts m.step s (m.runFrom s) := by
  cases h : m.step s with
  | halt events outcome scope =>
    rw [runFrom_halt h]
    exact .halt h
  | next events later =>
    rw [runFrom_next h]
    exact .next h (halts_runFrom m later)
termination_by m.energy s
decreasing_by exact step_energy h

end Machine
end Lookahead
