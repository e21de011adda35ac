import Lookahead.Proofs.Machine.Step

/-! What the events of a run tell: the terminals it matches, how it deals with the input, and its syntax faults. A run
accepts if and only if it reports no syntax fault. One that reports some comes to its first by steps that report none. -/

namespace Lookahead

/-! ### Views of events -/

/-- The terminal that an action matches. -/
def Action.terminal? : Action → Option Nat
  | matched t => some t
  | _ => none

/-- Whether an action deals with the input: a match, or a fault and what comes of it. -/
def Action.dealsWithInput : Action → Bool
  | initial => false
  | expand _ => false
  | accept => false
  | _ => true

/-- The syntax fault that an event reports, and where. -/
def Event.syntaxFault? : Event → Option (SyntaxFault × Position)
  | fault (.syntactic f) pos => some (f, pos)
  | _ => none

/-- The terminals that events match, in order. -/
def matched (events : List Event) : List Nat := (events.filterMap Event.row?).filterMap (·.action.terminal?)

/-- How events deal with the input, in order. -/
def dealings (events : List Event) : List Action :=
  ((events.filterMap Event.row?).map (·.action)).filter Action.dealsWithInput

/-- The syntax faults that events report, in order. -/
def syntaxFaults (events : List Event) : List (SyntaxFault × Position) := events.filterMap Event.syntaxFault?

section Views
variable (a b : List Event) (s : State) (faults : List SemanticFault) (fault : SyntaxFault) (pos : Position)

@[simp] theorem matched_append : matched (a ++ b) = matched a ++ matched b := by simp [matched]

@[simp] theorem dealings_append : dealings (a ++ b) = dealings a ++ dealings b := by simp [dealings]

@[simp] theorem syntaxFaults_append : syntaxFaults (a ++ b) = syntaxFaults a ++ syntaxFaults b := by simp [syntaxFaults]

theorem syntaxFaults_semantic : syntaxFaults (faults.map fun f => .fault (.semantic f) pos) = [] := by
  rw [syntaxFaults, List.filterMap_map, List.filterMap_eq_nil_iff]
  exact fun _ _ => rfl

@[simp] theorem matched_expand (id : Nat) : matched [s.row (.expand id)] = [] := rfl

@[simp] theorem syntaxFaults_row (action : Action) : syntaxFaults [s.row action] = [] := rfl

/-! What the events of a match tell, and those of a fault. -/

@[simp] theorem matched_match (n : Nat) :
    matched (s.row (.matched n) :: faults.map fun f => .fault (.semantic f) pos) = [n] := by
  rw [matched, rows_matched]
  rfl

@[simp] theorem dealings_match (n : Nat) :
    dealings (s.row (.matched n) :: faults.map fun f => .fault (.semantic f) pos) = [.matched n] := by
  rw [dealings, rows_matched]
  rfl

@[simp] theorem syntaxFaults_match (n : Nat) :
    syntaxFaults (s.row (.matched n) :: faults.map fun f => .fault (.semantic f) pos) = [] :=
  syntaxFaults_semantic faults pos

@[simp] theorem syntaxFaults_fault : syntaxFaults (s.faultEvents fault) = [(fault, s.input.pos)] := rfl

end Views

theorem Diagnostic.ofSeverity_append (k : Severity) (a b : List Diagnostic) :
    ofSeverity k (a ++ b) = ofSeverity k a ++ ofSeverity k b := List.filter_append ..

/-- The syntactic findings are the syntax faults. -/
theorem ofSeverity_syntactic (events : List Event) :
    Diagnostic.ofSeverity .syntactic (events.filterMap Event.diagnostic?) =
      (syntaxFaults events).map fun (f, pos) => ⟨.syntactic, f.message, pos⟩ := by
  induction events with
  | nil => rfl
  | cons e rest ih =>
    cases e with
    | row r => exact ih
    | fault f pos =>
      cases f with
      | syntactic f => exact congrArg (List.cons _) ih
      | semantic f => exact ih

/-- Events report nothing but faults of syntax and of semantics. -/
theorem severity_of_mem {events : List Event} {d : Diagnostic} (member : d ∈ events.filterMap Event.diagnostic?) :
    d.severity = .syntactic ∨ d.severity = .semantic := by
  obtain ⟨e, -, found⟩ := List.mem_filterMap.mp member
  cases e with
  | row r => cases found
  | fault f pos =>
    cases found
    cases f with
    | syntactic f => exact Or.inl rfl
    | semantic f => exact Or.inr rfl

/-- The end marker lies at the bottom of the stack. -/
def State.Grounded (s : State) : Prop := ∃ above, s.stack = above ++ [.endMarker]

namespace Input

/-- The input with tokens before those that are left. -/
def prepend (passed : List Token) (i : Input) : Input := { i with tokens := passed ++ i.tokens }

theorem prepend_append (a b : List Token) (i : Input) : i.prepend (a ++ b) = (i.prepend b).prepend a := by
  simp [prepend]

/-- The places of the tokens, and then that of the end. -/
def positions (i : Input) : List Position := i.tokens.map (·.pos) ++ [i.stop]

theorem positions_cons (i : Input) : ∃ later, i.positions = i.pos :: later := by
  unfold positions pos
  cases i.tokens with
  | nil => exact ⟨[], rfl⟩
  | cons t rest => exact ⟨_, rfl⟩

/-- Behind the tokens that were passed stands the lookahead. -/
theorem positions_prepend (passed : List Token) (i : Input) : (i.prepend passed).positions[passed.length]? = some i.pos := by
  obtain ⟨later, here⟩ := i.positions_cons
  have split : (i.prepend passed).positions = passed.map (·.pos) ++ i.positions := by simp [positions, prepend]
  rw [split, here, List.getElem?_append_right (by simp)]
  simp

end Input

namespace Machine
variable {m : Machine} {s t later : State} {events more : List Event} {run : Run}

/-! ### The bottom of the stack -/

theorem grounded_entry (n : Nat) (input : Input) (declared : Declarations) (faulty : Bool) :
    (entry n input declared faulty).Grounded := ⟨[.nonterminal n], rfl⟩

theorem grounded_below {top : Symbol} {below : List Symbol} (grounded : s.Grounded) (stack : s.stack = top :: below)
    (other : top ≠ .endMarker) : ∃ above, below = above ++ [.endMarker] := by
  obtain ⟨above, whole⟩ := grounded
  rw [stack] at whole
  cases above with
  | nil =>
    cases whole
    exact absurd rfl other
  | cons _ above =>
    cases whole
    exact ⟨above, rfl⟩

/-- The marker at the bottom is on top if and only if there is none below. -/
theorem grounded_mark {below : List Symbol} (grounded : s.Grounded) (stack : s.stack = .endMarker :: below) :
    below = [] ↔ .endMarker ∉ below := by
  obtain ⟨above, whole⟩ := grounded
  rw [stack] at whole
  cases above with
  | nil =>
    cases whole
    simp
  | cons _ above =>
    cases whole
    simp

theorem grounded_step (grounded : s.Grounded) (h : m.step s = .next events later) : later.Grounded := by
  cases Move.of_step h with
  | skip stack => exact grounded_below grounded stack (by simp)
  | consume stack _ _ _ => exact grounded_below grounded stack (by simp)
  | @expand _ _ p _ stack _ _ =>
    obtain ⟨above, rfl⟩ := grounded_below grounded stack (by simp)
    exact ⟨p.body.filter (· ≠ .epsilon) ++ above, (List.append_assoc ..).symm⟩
  | resume _ _ _ => exact grounded_entry ..

theorem grounded_reaches (grounded : s.Grounded) (h : Reaches m.step s t) : t.Grounded := by
  induction h with
  | refl => exact grounded
  | tail _ next ih =>
    obtain ⟨events, next⟩ := next
    exact grounded_step ih next

theorem stack_ne_nil (grounded : s.Grounded) : s.stack ≠ [] := by
  obtain ⟨above, stack⟩ := grounded
  simp [stack]

/-! ### Runs with and without faults -/

/-- Each event of a run is reported by a step from a state that it comes to. -/
theorem Halts.mem_events {step : State → Turn} {e : Event} (h : Halts step s run) (member : e ∈ run.events) :
    ∃ t, Reaches step s t ∧ e ∈ (step t).events := by
  induction h with
  | @halt s _ _ _ h => exact ⟨s, .refl, h ▸ member⟩
  | @next s _ _ _ h _ ih =>
    rcases List.mem_append.mp member with here | later
    · exact ⟨s, .refl, h ▸ here⟩
    · obtain ⟨t, reached, reported⟩ := ih later
      exact ⟨t, .head ⟨_, h⟩ reached, reported⟩

/-- The rows of a fault show the fault, the panic, and what came of it. -/
theorem row_of_faultEvents {row : Row} {fault : SyntaxFault} {last : Action}
    (member : .row row ∈ s.faultEvents fault ++ [t.row last]) :
    row.action = .error fault ∨ row.action = .panic ∨ row.action = last := by
  simp only [State.faultEvents, State.row, List.mem_append, List.mem_cons, List.not_mem_nil, or_false, Event.row.injEq,
    reduceCtorEq, false_or] at member
  rcases member with (rfl | rfl) | rfl
  · exact Or.inl rfl
  · exact Or.inr (Or.inl rfl)
  · exact Or.inr (Or.inr rfl)

/-- A row of an error is of a fault that is reported with it. -/
theorem fault_of_error {row : Row} {fault : SyntaxFault} (member : .row row ∈ (m.step s).events)
    (action : row.action = .error fault) : ∃ pos, .fault (.syntactic fault) pos ∈ (m.step s).events := by
  cases turn : m.step s with
  | halt events outcome scope =>
    rw [turn] at member
    cases Move.of_step turn with
    | exhausted _ => cases member
    | accept _ _ =>
      cases List.mem_singleton.mp member
      cases action
    | abort _ _ _ =>
      rcases row_of_faultEvents member with told | told | told <;> cases action.symm.trans told
      exact ⟨_, List.mem_cons_self⟩
  | next events later =>
    rw [turn] at member
    cases Move.of_step turn with
    | skip _ => cases member
    | consume _ _ _ _ =>
      rcases List.mem_cons.mp member with same | other
      · cases same
        cases action
      · simp at other
    | expand _ _ _ =>
      cases List.mem_singleton.mp member
      cases action
    | resume _ _ _ =>
      rcases row_of_faultEvents member with told | told | told <;> cases action.symm.trans told
      exact ⟨_, List.mem_cons_self⟩

theorem syntaxFaults_preceded (run : Run) (events : List Event) :
    syntaxFaults (run.preceded events).events = syntaxFaults events ++ syntaxFaults run.events :=
  syntaxFaults_append ..

/-- A step reports a syntax fault where it refuses a symbol, and only there. -/
theorem refused_or_silent (h : m.step s = .next events later) : syntaxFaults events = [] ∧ later.faulty = s.faulty ∨
    ∃ top below fault after, s.stack = top :: below ∧ m.Refuses (s.pop below) top fault ∧
      events = .fault (.syntactic fault) s.input.pos :: after ∧ later.faulty = true := by
  cases Move.of_step h with
  | skip _ => exact Or.inl ⟨rfl, rfl⟩
  | consume _ _ _ _ => exact Or.inl ⟨syntaxFaults_match .., rfl⟩
  | expand _ _ _ => exact Or.inl ⟨rfl, rfl⟩
  | resume stack refused _ => exact Or.inr ⟨_, _, _, _, stack, refused, rfl, rfl⟩

/-- A run accepts if and only if it starts without a fault and reports none. -/
theorem Halts.accepts_iff (h : Halts m.step s run) (grounded : s.Grounded) :
    run.outcome = .accept ↔ s.faulty = false ∧ syntaxFaults run.events = [] := by
  induction h with
  | @halt s _ _ _ h =>
    cases Move.of_step h with
    | exhausted stack => exact absurd stack (stack_ne_nil grounded)
    | accept _ _ => cases s.faulty <;> simp
    | abort _ _ _ => simp
  | next h _ ih =>
    rw [syntaxFaults_preceded]
    have later := ih (grounded_step grounded h)
    rcases refused_or_silent h with ⟨silent, same⟩ | ⟨_, _, _, _, -, -, rfl, faulty⟩
    · rw [silent, ← same]
      exact later
    · rw [faulty] at later
      simpa [Run.preceded, syntaxFaults, Event.syntaxFault?] using later

/-- A stream is accepted if and only if nothing syntactic is found in it, whatever else is. -/
theorem accepts_iff_silent {stream : List Token} {known : Declarations} : (m.parse stream known).outcome = .accept ↔
    Diagnostic.ofSeverity .syntactic (m.parse stream known).diagnostics = [] := by
  have accepts := (m.halts_runFrom (m.initial (.ofTokens stream) known)).accepts_iff (grounded_entry ..)
  have same : syntaxFaults (m.run (.ofTokens stream) known).events =
    syntaxFaults (m.runFrom (m.initial (.ofTokens stream) known)).events := syntaxFaults_preceded ..
  rw [parse, report, ofSeverity_syntactic, List.map_eq_nil_iff, same]
  exact accepts.trans (and_iff_right rfl)

/-- Steps that go on, with what they report, lead from one state to another. -/
inductive Trail (step : State → Turn) : State → List Event → State → Prop
  | refl (s : State) : Trail step s [] s
  | head {s later t : State} {events more : List Event} (h : step s = .next events later)
    (rest : Trail step later more t) : Trail step s (events ++ more) t

theorem Trail.reaches {step : State → Turn} (h : Trail step s events t) : Reaches step s t := by
  induction h with
  | refl => exact .refl
  | head h _ ih => exact .head ⟨_, h⟩ ih

/-- What steps that report no syntax fault keep, with what they report, a trail of them keeps. -/
theorem Trail.keeps {step : State → Turn} (kept : List Event → State → Prop)
    (keeps : ∀ {events more s later}, kept events s → step s = .next more later → syntaxFaults more = [] →
      kept (events ++ more) later)
    (steps : Trail step s more t) (silent : syntaxFaults more = []) (start : kept events s) : kept (events ++ more) t := by
  induction steps generalizing events with
  | refl s =>
    rw [List.append_nil]
    exact start
  | head next _ ih =>
    rw [syntaxFaults_append, List.append_eq_nil_iff] at silent
    rw [← List.append_assoc]
    exact ih silent.2 (keeps start next silent.1)

/-- A run that reports a syntax fault comes to its first one by steps that report none. -/
theorem Halts.first_fault (h : Halts m.step s run) (faulted : syntaxFaults run.events ≠ []) :
    ∃ events t top below fault after, Trail m.step s events t ∧ syntaxFaults events = [] ∧ t.stack = top :: below ∧
      m.Refuses (t.pop below) top fault ∧ run.events = events ++ .fault (.syntactic fault) t.input.pos :: after := by
  induction h with
  | @halt s _ _ _ h =>
    cases Move.of_step h with
    | exhausted _ => exact absurd rfl faulted
    | accept _ _ => exact absurd rfl faulted
    | abort stack refused _ => exact ⟨[], s, _, _, _, _, .refl s, rfl, stack, refused, rfl⟩
  | @next s _ events _ h _ ih =>
    rw [syntaxFaults_preceded] at faulted
    rcases refused_or_silent h with ⟨silent, -⟩ | ⟨_, _, _, _, stack, refused, rfl, -⟩
    · rw [silent] at faulted
      obtain ⟨more, t, top, below, fault, after, trail, quiet, stack, refused, split⟩ := ih faulted
      refine ⟨events ++ more, t, top, below, fault, after, .head h trail, ?_, stack, refused, ?_⟩
      · rw [syntaxFaults_append, silent, quiet, List.append_nil]
      · rw [Run.preceded, split, List.append_assoc]
    · exact ⟨[], s, _, _, _, _, .refl s, rfl, stack, refused, rfl⟩

/-- A stream is rejected for a syntax fault, and the first one is the first syntactic finding. -/
theorem first_fault_of_rejected {stream : List Token} {known : Declarations}
    (rejected : (m.parse stream known).outcome = .reject) :
    ∃ events t top below fault after, Trail m.step (m.initial (.ofTokens stream) known) events t ∧
      syntaxFaults events = [] ∧ t.stack = top :: below ∧ m.Refuses (t.pop below) top fault ∧
      (m.run (.ofTokens stream) known).events =
        (m.initial (.ofTokens stream) known).row .initial :: events ++ .fault (.syntactic fault) t.input.pos :: after ∧
      (Diagnostic.ofSeverity .syntactic (m.parse stream known).diagnostics).head? =
        some ⟨.syntactic, fault.message, t.input.pos⟩ := by
  have halts := m.halts_runFrom (m.initial (.ofTokens stream) known)
  have faulted : syntaxFaults (m.runFrom (m.initial (.ofTokens stream) known)).events ≠ [] := by
    intro silent
    have accepted := (halts.accepts_iff (grounded_entry ..)).mpr ⟨rfl, silent⟩
    cases accepted.symm.trans rejected
  obtain ⟨events, t, top, below, fault, after, steps, silent, stack, refused, split⟩ := halts.first_fault faulted
  have whole : (m.run (.ofTokens stream) known).events =
      (m.initial (.ofTokens stream) known).row .initial :: events ++ .fault (.syntactic fault) t.input.pos :: after :=
    congrArg (List.cons _) split
  refine ⟨events, t, top, below, fault, after, steps, silent, stack, refused, whole, ?_⟩
  have quiet : syntaxFaults ((m.initial (.ofTokens stream) known).row .initial :: events) = [] := silent
  rw [parse, report, ofSeverity_syntactic, whole, syntaxFaults_append, quiet]
  rfl

end Machine
end Lookahead
