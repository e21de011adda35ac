import Lookahead.Machine.Run

/-! Runs over streams. Tokens are asked for one at a time: the first one at the start, another one behind each that is matched,
and one after the other in recovery. None is asked for behind a closing record, and where the stream stops without one it is
made up. -/

namespace Lookahead

/-- A stream of which one token is held. -/
structure Feed where
  lookahead : Token
  unread : List Token
  deriving DecidableEq, Repr

namespace Feed

/-- Asks for the first token. -/
def ofTokens : List Token → Feed
  | [] => ⟨.closing .start, []⟩
  | t :: unread => ⟨t, unread⟩

/-- Asks for the token behind the held one, if that is no closing record. A stream that has no more is closed there. -/
def next (f : Feed) : Feed :=
  if f.lookahead.isEof then f
  else
    match f.unread with
    | [] => ⟨.closing f.lookahead.pos, []⟩
    | t :: unread => ⟨t, unread⟩

/-- The held token as a trace shows it. -/
def text (f : Feed) : String := if f.lookahead.isEof then endMarkerName else f.lookahead.source

/-! ### What a stream holds -/

/-- The whole input from the held token on. -/
def input (f : Feed) : Input := .ofTokens (f.lookahead :: f.unread)

variable {f : Feed}

theorem input_ofTokens (stream : List Token) : (ofTokens stream).input = .ofTokens stream := by
  cases stream with
  | nil => rfl
  | cons _ _ => rfl

theorem input_closed (closing : f.lookahead.isEof = true) : f.input = ⟨[], f.lookahead.pos⟩ := by
  simp [input, Input.ofTokens, closing]

theorem input_open (going : f.lookahead.isEof = false) :
    f.input = ⟨f.lookahead :: f.next.input.tokens, f.next.input.stop⟩ := by
  obtain ⟨lookahead, unread⟩ := f
  have closes : (Token.closing lookahead.pos).isEof = true := rfl
  rw [next, going]
  cases unread with
  | nil => simp_all [input, Input.ofTokens, Input.lastPos, Token.closing]
  | cons t unread => simp_all [input, Input.ofTokens, Input.lastPos]

theorem text_input (f : Feed) : f.input.text = f.text := by
  unfold text
  split
  · rename_i closing
    rw [input_closed closing]
    rfl
  · rename_i going
    rw [input_open (Bool.eq_false_iff.mpr going)]
    rfl

theorem pos_input (f : Feed) : f.input.pos = f.lookahead.pos := by
  cases closing : f.lookahead.isEof with
  | true => rw [input_closed closing]; rfl
  | false => rw [input_open closing]; rfl

end Feed

/-! ### Steps -/

/-- A state of a run over a stream. -/
structure FedState where
  stack : List Symbol
  feed : Feed
  opened : List (Nat × Nat)
  scope : Scope
  faulty : Bool
  deriving DecidableEq, Repr

inductive FedTurn where
  | halt (events : List Event) (outcome : Outcome) (scope : Scope)
  | next (events : List Event) (state : FedState)
  deriving DecidableEq, Repr

namespace Machine

/-- Asks for tokens through the next synchronizing one, and tells whether there is one before the stream is closed. -/
def recover (m : Machine) (f : Feed) : Bool × Feed :=
  if _going : f.lookahead.isEof = false then
    if m.isSync f.lookahead then (true, f.next) else m.recover f.next
  else (false, f)
termination_by f.input.tokens.length
decreasing_by
  rw [Feed.input_open _going]
  exact Nat.lt_succ_self _

end Machine

namespace FedState

def row (f : FedState) (action : Action) : Event := .row ⟨f.stack, f.feed.text, action⟩

def pop (f : FedState) (below : List Symbol) : FedState :=
  { f with stack := below, opened := f.opened.filter (·.2 ≤ below.length) }

def expand (f : FedState) (nonterminal : Nat) (p : Production) : FedState :=
  { f with
    stack := p.body.filter (· ≠ .epsilon) ++ f.stack
    opened := (nonterminal, f.stack.length) :: f.opened }

/-- Ready to derive what the stream holds from a nonterminal. -/
def entry (nonterminal : Nat) (feed : Feed) (declared : Declarations) (faulty : Bool) : FedState :=
  ⟨[.nonterminal nonterminal, .endMarker], feed, [], .fresh declared, faulty⟩

/-- Reports a syntax fault and recovers from it. -/
def fail (m : Machine) (f : FedState) (fault : SyntaxFault) : FedTurn :=
  let found : List Event := [.fault (.syntactic fault) f.feed.lookahead.pos, f.row (.error fault), f.row .panic]
  match m.recover f.feed with
  | (false, feed) => .halt (found ++ [{ f with feed }.row .abort]) .reject f.scope
  | (true, feed) =>
    let resumed := entry (m.restart (m.column? feed.lookahead)) feed f.scope.declared true
    .next (found ++ [resumed.row .resume]) resumed

/-- Consumes the held token, which matches a terminal. -/
def consume (m : Machine) (f : FedState) (terminal : Nat) : FedTurn :=
  let (scope, faults) := f.scope.observe m.settings (m.role terminal) f.feed.lookahead
  .next (f.row (.matched terminal) :: faults.map fun fault => .fault (.semantic fault) f.feed.lookahead.pos)
    { f with feed := f.feed.next, opened := [], scope }

def stepTerminal (m : Machine) (f : FedState) (terminal : Nat) : FedTurn :=
  let name := m.grammar.name (.terminal terminal)
  if m.column? f.feed.lookahead = some (.terminal terminal) then f.consume m terminal
  else if f.feed.lookahead.isEof then f.fail m (.unexpectedEnd name)
  else f.fail m (.mismatch name f.feed.lookahead.source)

def stepNonterminal (m : Machine) (f : FedState) (nonterminal : Nat) : FedTurn :=
  let name := m.grammar.name (.nonterminal nonterminal)
  if f.opened.any (·.1 = nonterminal) then f.fail m (.expansionCycle name)
  else
    match m.predict nonterminal (m.column? f.feed.lookahead) with
    | some (id, p) =>
      let expanded := f.expand nonterminal p
      .next [expanded.row (.expand id)] expanded
    | none =>
      if f.feed.lookahead.isEof then f.fail m (.unexpectedEnd (m.expected nonterminal))
      else f.fail m (.noProduction name f.feed.lookahead.source)

def stepEnd (m : Machine) (f : FedState) : FedTurn :=
  if m.column? f.feed.lookahead = some .endMarker then
    .halt [f.row .accept] (if f.faulty then .reject else .accept) f.scope
  else f.fail m (.trailingInput f.feed.lookahead.source)

/-- One step: the top of the stack is taken off and dealt with. -/
def step (m : Machine) (f : FedState) : FedTurn :=
  match f.stack with
  | [] => .halt [] .reject f.scope
  | .epsilon :: below => .next [] (f.pop below)
  | .endMarker :: below => (f.pop below).stepEnd m
  | .terminal t :: below => (f.pop below).stepTerminal m t
  | .nonterminal n :: below => (f.pop below).stepNonterminal m n

/-! ### The steps over the whole input -/

/-- The state over the whole input. -/
def state (f : FedState) : State := ⟨f.stack, f.feed.input, f.opened, f.scope, f.faulty⟩

end FedState

/-- The turn over the whole input. -/
def FedTurn.turn : FedTurn → Turn
  | halt events outcome scope => .halt events outcome scope
  | next events f => .next events f.state

namespace Machine

theorem lookahead?_input (m : Machine) (f : Feed) : m.lookahead? f.input = m.column? f.lookahead := by
  cases closing : f.lookahead.isEof with
  | true =>
    rw [Feed.input_closed closing, column?, show f.lookahead.kind = .eof from of_decide_eq_true closing]
    rfl
  | false => rw [Feed.input_open closing]; rfl

/-- The end of the input is the column of closing records only. -/
theorem column?_eq_endMarker {m : Machine} {t : Token} : m.column? t = some .endMarker ↔ t.isEof = true := by
  unfold column? Token.isEof
  cases t.kind <;> simp

/-- Recovery leaves what stands behind the first synchronizing token, or nothing. -/
theorem recover_input (m : Machine) (f : Feed) :
    (m.recover f).1 = (m.resync f.input.tokens).isSome ∧
    (m.recover f).2.input = { f.input with tokens := (m.resync f.input.tokens).getD [] } := by
  fun_induction recover m f with
  | case1 f going sync => simp [Feed.input_open going, resync, sync]
  | case2 f going other ih =>
    rw [Feed.input_open going]
    simpa [resync, other] using ih
  | case3 f closed =>
    have closing : f.lookahead.isEof = true := by simpa using closed
    simp [Feed.input_closed closing, resync]

end Machine

namespace FedState
variable {f : FedState}

theorem row_state (f : FedState) (action : Action) : f.state.row action = f.row action :=
  congrArg (fun text => Event.row ⟨f.stack, text, action⟩) f.feed.text_input

theorem fail_state (m : Machine) (f : FedState) (fault : SyntaxFault) :
    m.fail f.state fault = (f.fail m fault).turn := by
  obtain ⟨found, left⟩ := m.recover_input f.feed
  have events : f.state.faultEvents fault =
      [.fault (.syntactic fault) f.feed.lookahead.pos, f.row (.error fault), f.row .panic] := by
    rw [State.faultEvents, row_state, row_state, show f.state.input.pos = _ from f.feed.pos_input]
  unfold Machine.fail fail
  rw [events, show m.resync f.state.input.tokens = m.resync f.feed.input.tokens from rfl]
  generalize m.recover f.feed = recovered at found left ⊢
  obtain ⟨success, feed⟩ := recovered
  cases behind : m.resync f.feed.input.tokens with
  | none =>
    rw [behind] at found left
    obtain rfl : success = false := found
    have ended : ({ f with feed } : FedState).state = { f.state with input := { f.state.input with tokens := [] } } :=
      congrArg (fun input => { f.state with input }) left
    simp only [← ended, row_state]
    rfl
  | some rest =>
    rw [behind] at found left
    obtain rfl : success = true := found
    have resumed : (entry (m.restart (m.column? feed.lookahead)) feed f.scope.declared true).state = m.resumed f.state rest := by
      rw [← m.lookahead?_input, state, entry, left]
      rfl
    simp only [← resumed, row_state]
    rfl

theorem tokens_closed (closing : f.feed.lookahead.isEof = true) : f.state.input.tokens = [] :=
  congrArg Input.tokens (Feed.input_closed closing)

theorem tokens_open (going : f.feed.lookahead.isEof = false) :
    f.state.input.tokens = f.feed.lookahead :: f.feed.next.input.tokens :=
  congrArg Input.tokens (Feed.input_open going)

/-- A token is consumed by asking for the next one. -/
theorem consume_state (m : Machine) (terminal : Nat) (going : f.feed.lookahead.isEof = false) :
    m.consume f.state terminal f.feed.lookahead f.feed.next.input.tokens = (f.consume m terminal).turn := by
  unfold Machine.consume consume
  rw [show f.state.scope = f.scope from rfl]
  cases f.scope.observe m.settings (m.role terminal) f.feed.lookahead with
  | mk scope faults =>
    have later : f.state.advance f.feed.next.input.tokens scope =
        ({ f with feed := f.feed.next, opened := [], scope } : FedState).state := by
      rw [State.advance, show f.state.input = _ from Feed.input_open going]
      rfl
    simp only [row_state, later]
    rfl

theorem stepTerminal_state (m : Machine) (f : FedState) (terminal : Nat) :
    m.stepTerminal f.state terminal = (f.stepTerminal m terminal).turn := by
  unfold Machine.stepTerminal stepTerminal
  cases closing : f.feed.lookahead.isEof with
  | true =>
    have column : m.column? f.feed.lookahead = some .endMarker := Machine.column?_eq_endMarker.mpr closing
    rw [tokens_closed closing, column, if_neg (by simp), if_pos rfl]
    exact fail_state ..
  | false =>
    rw [tokens_open closing]
    by_cases column : m.column? f.feed.lookahead = some (.terminal terminal)
    · simp only [if_pos column]
      exact consume_state m terminal closing
    · simp only [if_neg column]
      exact fail_state ..

theorem stepNonterminal_state (m : Machine) (f : FedState) (nonterminal : Nat) :
    m.stepNonterminal f.state nonterminal = (f.stepNonterminal m nonterminal).turn := by
  unfold Machine.stepNonterminal stepNonterminal
  rw [show m.lookahead? f.state.input = _ from m.lookahead?_input f.feed]
  by_cases opened : f.opened.any (·.1 = nonterminal) = true
  · rw [if_pos (show f.state.isOpen nonterminal = true from opened), if_pos opened]
    exact fail_state ..
  rw [if_neg (show ¬f.state.isOpen nonterminal = true from opened), if_neg opened]
  cases m.predict nonterminal (m.column? f.feed.lookahead) with
  | some row =>
    obtain ⟨id, p⟩ := row
    exact congrArg (fun row => Turn.next [row] _) (row_state (f.expand nonterminal p) (.expand id))
  | none =>
    cases closing : f.feed.lookahead.isEof with
    | true =>
      rw [tokens_closed closing]
      exact fail_state ..
    | false =>
      rw [tokens_open closing]
      exact fail_state ..

theorem stepEnd_state (m : Machine) (f : FedState) : m.stepEnd f.state = (f.stepEnd m).turn := by
  unfold Machine.stepEnd stepEnd
  cases closing : f.feed.lookahead.isEof with
  | true =>
    rw [tokens_closed closing, if_pos (Machine.column?_eq_endMarker.mpr closing)]
    exact congrArg (fun row => Turn.halt [row] _ _) (row_state f .accept)
  | false =>
    have column : m.column? f.feed.lookahead ≠ some .endMarker := by simp [Machine.column?_eq_endMarker, closing]
    rw [tokens_open closing, if_neg column]
    exact fail_state ..

/-- A step is one over the whole input. -/
theorem step_state (m : Machine) (f : FedState) : m.step f.state = (f.step m).turn := by
  unfold Machine.step step
  rw [show f.state.stack = f.stack from rfl]
  cases f.stack with
  | nil => rfl
  | cons top below =>
    cases top with
    | epsilon => rfl
    | endMarker => exact stepEnd_state m (f.pop below)
    | terminal t => exact stepTerminal_state m (f.pop below) t
    | nonterminal n => exact stepNonterminal_state m (f.pop below) n

/-! ### Runs -/

/-- Steps from a state until one halts. -/
def runFrom (m : Machine) (f : FedState) : Machine.Run :=
  match _step : f.step m with
  | .halt events outcome scope => ⟨events, outcome, scope⟩
  | .next events later => (later.runFrom m).preceded events
termination_by m.energy f.state
decreasing_by exact Machine.step_energy (by rw [step_state, _step]; rfl)

end FedState

/-- Parses a stream of tokens, which are asked for as the run goes. -/
def Machine.parseStream (m : Machine) (stream : List Token) (declared : Declarations) : Machine.Parse :=
  let first := FedState.entry m.grammar.start (.ofTokens stream) declared false
  m.report ((first.runFrom m).preceded [first.row .initial])

end Lookahead
