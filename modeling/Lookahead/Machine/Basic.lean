import Lookahead.Machine.Scope
import Lookahead.Prediction.Table

/-! The predictive parser as a stack machine: its parts, its states and one step. -/

namespace Lookahead

/-- A grammar with sets, a prediction table and settings. The table may stem from another grammar. -/
structure Machine where
  grammar : Grammar
  sets : Sets
  table : Table
  settings : Settings
  deriving DecidableEq, Repr

/-- The unread tokens, none of them a closing record, and the place where the input ends. -/
structure Input where
  tokens : List Token
  stop : Position
  deriving DecidableEq, Repr

namespace Input

/-- The end of a stream that stops without a closing record: where its last token stands. -/
def lastPos (tokens : List Token) : Position := (tokens.getLast?.map (·.pos)).getD .start

/-- The tokens before the first closing record, which gives the end of the input. -/
def ofTokens (stream : List Token) : Input where
  tokens := stream.takeWhile (!·.isEof)
  stop := match stream.find? (·.isEof) with
    | some t => t.pos
    | none => lastPos stream

/-- The text of the lookahead; at the end it is `$`. -/
def text (i : Input) : String :=
  match i.tokens with
  | [] => endMarkerName
  | t :: _ => t.source

/-- The place of the lookahead. -/
def pos (i : Input) : Position :=
  match i.tokens with
  | [] => i.stop
  | t :: _ => t.pos

end Input

/-- Whether a run took the whole input without a syntax fault. -/
inductive Outcome where
  | accept
  | reject
  deriving DecidableEq, Repr

/-- A state of a run. `opened` holds each nonterminal that was expanded since the last consumed token and whose
    expansion is still on the stack, with the number of symbols below it. -/
structure State where
  /-- The top comes first. -/
  stack : List Symbol
  input : Input
  opened : List (Nat × Nat)
  scope : Scope
  /-- Whether a syntax fault was reported. -/
  faulty : Bool
  deriving DecidableEq, Repr

namespace State

def row (s : State) (action : Action) : Event := .row ⟨s.stack, s.input.text, action⟩

/-- Takes the top off: an expansion at a greater height is complete. -/
def pop (s : State) (below : List Symbol) : State :=
  let height := below.length
  { s with stack := below, opened := s.opened.filter (·.2 ≤ height) }

/-- Whether the expansion of a nonterminal is still going on. -/
def isOpen (s : State) (nonterminal : Nat) : Bool := s.opened.any (·.1 = nonterminal)

/-- Puts the body of a nonterminal that was taken off in its place, with `ε` left out. -/
def expand (s : State) (nonterminal : Nat) (p : Production) : State :=
  { s with
    stack := p.body.filter (· ≠ .epsilon) ++ s.stack
    opened := (nonterminal, s.stack.length) :: s.opened }

/-- Behind a consumed token nothing is being expanded. -/
def advance (s : State) (rest : List Token) (scope : Scope) : State :=
  { s with input := { s.input with tokens := rest }, opened := [], scope }

/-- What is reported of a syntax fault before input is skipped. -/
def faultEvents (s : State) (fault : SyntaxFault) : List Event :=
  [.fault (.syntactic fault) s.input.pos, s.row (.error fault), s.row .panic]

end State

/-- What a step leads to. -/
inductive Turn where
  | halt (events : List Event) (outcome : Outcome) (scope : Scope)
  | next (events : List Event) (state : State)
  deriving DecidableEq, Repr

namespace Machine

/-- The parser of a grammar, with the sets and the table of that grammar. -/
def ofGrammar (grammar : Grammar) (settings : Settings) : Machine :=
  let sets := Sets.solve grammar
  ⟨grammar, sets, .build grammar sets, settings⟩

/-- The parts that a terminal plays. -/
def role (m : Machine) (terminal : Nat) : Role := m.settings.role (m.grammar.name (.terminal terminal))

/-- The column of a token: that of its class for identifiers and literals, that of its spelling otherwise. A token
    that the grammar does not know has none. -/
def column? (m : Machine) (t : Token) : Option Column :=
  match t.kind with
  | .eof => some .endMarker
  | .identifier => (m.grammar.terminal? m.settings.identifier).map .terminal
  | .integer | .float => (m.grammar.terminal? m.settings.constant).map .terminal
  | .invalid => none
  | .keyword | .operator | .punctuation => (m.grammar.terminal? t.source).map .terminal

/-- The column of the lookahead. -/
def lookahead? (m : Machine) (i : Input) : Option Column :=
  match i.tokens with
  | [] => some .endMarker
  | t :: _ => m.column? t

/-- Whether recovery stops behind a token. -/
def isSync (m : Machine) (t : Token) : Bool :=
  match m.column? t with
  | some (.terminal i) => (m.role i).isSync
  | _ => false

/-- The tokens behind the first synchronizing one. -/
def resync (m : Machine) : List Token → Option (List Token)
  | [] => none
  | t :: rest => if m.isSync t then some rest else m.resync rest

/-- The nonterminal to resume from: the first restart point, or with predictive restart the first one that predicts
    the lookahead if there is one, or the start if there are no restart points. -/
def restart (m : Machine) (lookahead : Option Column) : Nat :=
  let predicted := (lookahead.filter fun _ => m.settings.predictiveRestart).bind fun column =>
    m.grammar.restarts.find? (m.table.predicts · column)
  (predicted.or m.grammar.restarts.head?).getD m.grammar.start

/-- The columns that a nonterminal has a production for, as a message lists them. -/
def expected (m : Machine) (nonterminal : Nat) : String :=
  match m.table.row nonterminal with
  | [] => m.grammar.name (.nonterminal nonterminal)
  | cells => "' or '".intercalate (cells.map fun c => m.grammar.name c.column.toSymbol)

/-- The production that the table gives for a nonterminal on a column. -/
def predict (m : Machine) (nonterminal : Nat) (column : Option Column) : Option (Nat × Production) :=
  (column.bind (m.table.get? nonterminal)).bind fun id => (m.grammar.production? id).map (id, ·)

/-- Ready to derive the input from a nonterminal. -/
def entry (nonterminal : Nat) (input : Input) (declared : Declarations) (faulty : Bool) : State :=
  ⟨[.nonterminal nonterminal, .endMarker], input, [], .fresh declared, faulty⟩

/-- The first state of a run. -/
def initial (m : Machine) (input : Input) (declared : Declarations) : State :=
  entry m.grammar.start input declared false

/-- The state in which a run resumes before the rest of the input, with nothing kept but the declared names. -/
def resumed (m : Machine) (s : State) (rest : List Token) : State :=
  let input := { s.input with tokens := rest }
  entry (m.restart (m.lookahead? input)) input s.scope.declared true

/-- Reports a syntax fault and skips the input through the next synchronizing token, to resume there. -/
def fail (m : Machine) (s : State) (fault : SyntaxFault) : Turn :=
  match m.resync s.input.tokens with
  | none =>
    let ended := { s with input := { s.input with tokens := [] } }
    .halt (s.faultEvents fault ++ [ended.row .abort]) .reject s.scope
  | some rest => .next (s.faultEvents fault ++ [(m.resumed s rest).row .resume]) (m.resumed s rest)

/-- Consumes a token that matches a terminal. -/
def consume (m : Machine) (s : State) (terminal : Nat) (t : Token) (rest : List Token) : Turn :=
  let (scope, faults) := s.scope.observe m.settings (m.role terminal) t
  .next (s.row (.matched terminal) :: faults.map fun f => .fault (.semantic f) t.pos) (s.advance rest scope)

/-- A terminal on top must be the lookahead. -/
def stepTerminal (m : Machine) (s : State) (terminal : Nat) : Turn :=
  match s.input.tokens with
  | [] => m.fail s (.unexpectedEnd (m.grammar.name (.terminal terminal)))
  | t :: rest =>
    if m.column? t = some (.terminal terminal) then m.consume s terminal t rest
    else m.fail s (.mismatch (m.grammar.name (.terminal terminal)) t.source)

/-- A nonterminal on top is replaced by the body that the table gives. One that is still being expanded would come up
    for ever. -/
def stepNonterminal (m : Machine) (s : State) (nonterminal : Nat) : Turn :=
  if s.isOpen nonterminal then m.fail s (.expansionCycle (m.grammar.name (.nonterminal nonterminal)))
  else
    match m.predict nonterminal (m.lookahead? s.input) with
    | some (id, p) =>
      let expanded := s.expand nonterminal p
      .next [expanded.row (.expand id)] expanded
    | none =>
      match s.input.tokens with
      | [] => m.fail s (.unexpectedEnd (m.expected nonterminal))
      | t :: _ => m.fail s (.noProduction (m.grammar.name (.nonterminal nonterminal)) t.source)

/-- The end marker on top is the end of the input. -/
def stepEnd (m : Machine) (s : State) : Turn :=
  match s.input.tokens with
  | [] => .halt [s.row .accept] (if s.faulty then .reject else .accept) s.scope
  | t :: _ => m.fail s (.trailingInput t.source)

/-- One step: the top of the stack is taken off and dealt with. -/
def step (m : Machine) (s : State) : Turn :=
  match s.stack with
  | [] => .halt [] .reject s.scope
  | .epsilon :: below => .next [] (s.pop below)
  | .endMarker :: below => m.stepEnd (s.pop below)
  | .terminal t :: below => m.stepTerminal (s.pop below) t
  | .nonterminal n :: below => m.stepNonterminal (s.pop below) n

end Machine
end Lookahead
