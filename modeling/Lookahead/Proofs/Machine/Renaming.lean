import Lookahead.Proofs.Grammar.Renaming
import Lookahead.Proofs.Machine.Lockstep
import Mathlib.Data.List.Forall2

/-! Runs under new numbers. Two machines whose grammars and tables differ in their numbering go through the same stacks
under the new numbers. They report the same, but for the texts that a message at the end of the input lists. -/

namespace Lookahead

/-! ### Reports -/

def Action.renamed (ρ : Renaming) : Action → Action
  | .matched t => .matched (ρ.terminal t)
  | .expand id => .expand (ρ.production id)
  | .initial => .initial
  | .accept => .accept
  | .error fault => .error fault
  | .panic => .panic
  | .resume => .resume
  | .abort => .abort

section Reports
variable (ρ : Renaming) (alike : String → String → Prop)

/-- The same fault, or an end of the input with alike texts for what was expected. -/
inductive SyntaxFault.Alike : SyntaxFault → SyntaxFault → Prop
  | same (fault : SyntaxFault) : Alike fault fault
  | unexpectedEnd {a b : String} (listed : alike a b) : Alike (.unexpectedEnd a) (.unexpectedEnd b)

inductive Diagnostic.Alike : Diagnostic → Diagnostic → Prop
  | same (d : Diagnostic) : Alike d d
  | unexpectedEnd {a b : String} (pos : Position) (listed : alike a b) :
    Alike ⟨.syntactic, (SyntaxFault.unexpectedEnd a).message, pos⟩ ⟨.syntactic, (SyntaxFault.unexpectedEnd b).message, pos⟩

inductive Action.Renamed : Action → Action → Prop
  | same (action : Action) : Renamed action (action.renamed ρ)
  | error {fault fault' : SyntaxFault} (same : fault.Alike alike fault') : Renamed (.error fault) (.error fault')

structure Row.Renamed (r r' : Row) : Prop where
  stack : r'.stack = r.stack.map (.renamed ρ)
  lookahead : r'.lookahead = r.lookahead
  action : r.action.Renamed ρ alike r'.action

/-- One event is the other under new numbers. -/
inductive Event.Renamed : Event → Event → Prop
  | row {r r' : Row} (same : r.Renamed ρ alike r') : Renamed (.row r) (.row r')
  | syntactic {fault fault' : SyntaxFault} (pos : Position) (same : fault.Alike alike fault') :
    Renamed (.fault (.syntactic fault) pos) (.fault (.syntactic fault') pos)
  | semantic (fault : SemanticFault) (pos : Position) :
    Renamed (.fault (.semantic fault) pos) (.fault (.semantic fault) pos)

end Reports

section Events
variable {ρ : Renaming} {alike : String → String → Prop} {a b : List Event}

theorem rows_renamed (h : List.Forall₂ (Event.Renamed ρ alike) a b) :
    List.Forall₂ (Row.Renamed ρ alike) (a.filterMap Event.row?) (b.filterMap Event.row?) := by
  refine List.rel_filterMap (fun e e' same => ?_) h
  cases same with
  | row same => exact .some same
  | syntactic _ _ => exact .none
  | semantic _ _ => exact .none

theorem diagnostics_renamed (h : List.Forall₂ (Event.Renamed ρ alike) a b) :
    List.Forall₂ (Diagnostic.Alike alike) (a.filterMap Event.diagnostic?) (b.filterMap Event.diagnostic?) := by
  refine List.rel_filterMap (fun e e' same => ?_) h
  cases same with
  | row _ => exact .none
  | syntactic pos same =>
    cases same with
    | same fault => exact .some (.same _)
    | unexpectedEnd listed => exact .some (.unexpectedEnd pos listed)
  | semantic _ _ => exact .some (.same _)

end Events

/-! ### States -/

namespace State
variable {ρ : Renaming} (s : State)

def renamed (ρ : Renaming) (s : State) : State :=
  { s with stack := s.stack.map (.renamed ρ), opened := s.opened.map fun (n, height) => (ρ.nonterminal n, height) }

theorem pop_renamed (below : List Symbol) : (s.renamed ρ).pop (below.map (.renamed ρ)) = (s.pop below).renamed ρ := by
  simp [pop, renamed, List.filter_map, Function.comp_def]

theorem isOpen_renamed (n : Nat) : (s.renamed ρ).isOpen (ρ.nonterminal n) = s.isOpen n := by
  simp [isOpen, renamed, List.any_map, Function.comp_def]

theorem expand_renamed (n : Nat) (p : Production) :
    (s.renamed ρ).expand (ρ.nonterminal n) (p.renamed ρ) = (s.expand n p).renamed ρ := by
  have body : (p.renamed ρ).body.filter (· ≠ .epsilon) = (p.body.filter (· ≠ .epsilon)).map (.renamed ρ) :=
    erased_renamed p.body
  simp only [expand, renamed, body, List.map_append, List.map_cons, List.length_map]

theorem row_renamed {alike : String → String → Prop} {action action' : Action} (same : action.Renamed ρ alike action') :
    Event.Renamed ρ alike (s.row action) ((s.renamed ρ).row action') := .row ⟨rfl, rfl, same⟩

end State

/-- One turn is the other under new numbers. -/
abbrev Turn.Renamed (ρ : Renaming) (alike : String → String → Prop) : Turn → Turn → Prop :=
  Turn.Paired (List.Forall₂ (Event.Renamed ρ alike)) Eq fun s t => t = s.renamed ρ

/-- The texts that a message lists for the filled columns of a nonterminal; its own name stands for none. -/
def Grammar.alternatives (g : Grammar) (n : Nat) : List Column → List String
  | [] => [g.name (.nonterminal n)]
  | columns => columns.map fun c => g.name c.toSymbol

namespace Machine

theorem expected_eq (m : Machine) (n : Nat) :
    m.expected n = "' or '".intercalate (m.grammar.alternatives n ((m.table.row n).map (·.column))) := by
  unfold expected Grammar.alternatives
  cases m.table.row n with
  | nil => rfl
  | cons cell rest => simp [List.map_map, Function.comp_def]

/-- One machine is the other under new numbers. -/
structure Renamed (ρ : Renaming) (alike : String → String → Prop) (m m' : Machine) : Prop where
  grammar : m.grammar.Renamed ρ m'.grammar
  settings : m'.settings = m.settings
  terminal? : ∀ name, m'.grammar.terminal? name = (m.grammar.terminal? name).map ρ.terminal
  get? : ∀ n c, m'.table.get? (ρ.nonterminal n) (c.renamed ρ) = (m.table.get? n c).map ρ.production
  expected : ∀ n, alike (m.expected n) (m'.expected (ρ.nonterminal n))

namespace Renamed
variable {ρ : Renaming} {alike : String → String → Prop} {m m' : Machine}

/-! ### What a step asks -/

theorem column? (h : m.Renamed ρ alike m') (a : Token) : m'.column? a = (m.column? a).map (.renamed ρ) := by
  have known : ∀ name, (m'.grammar.terminal? name).map Column.terminal =
      ((m.grammar.terminal? name).map Column.terminal).map (.renamed ρ) := by
    intro name
    rw [h.terminal?, Option.map_map, Option.map_map]
    rfl
  unfold Machine.column?
  rw [h.settings]
  cases a.kind <;> first | rfl | exact known _

theorem lookahead? (h : m.Renamed ρ alike m') (i : Input) : m'.lookahead? i = (m.lookahead? i).map (.renamed ρ) := by
  unfold Machine.lookahead?
  cases i.tokens with
  | nil => rfl
  | cons a _ => exact h.column? a

theorem role (h : m.Renamed ρ alike m') (t : Nat) : m'.role (ρ.terminal t) = m.role t := by
  unfold Machine.role
  rw [h.settings]
  exact congrArg _ (h.grammar.name (.terminal t))

theorem isSync (h : m.Renamed ρ alike m') (a : Token) : m'.isSync a = m.isSync a := by
  unfold Machine.isSync
  rw [h.column?]
  cases m.column? a with
  | none => rfl
  | some c =>
    cases c with
    | terminal t => exact congrArg Role.isSync (h.role t)
    | endMarker => rfl

theorem resync (h : m.Renamed ρ alike m') (tokens : List Token) : m'.resync tokens = m.resync tokens := by
  induction tokens with
  | nil => rfl
  | cons a rest ih => rw [Machine.resync, Machine.resync, h.isSync, ih]

theorem predicts (h : m.Renamed ρ alike m') (n : Nat) (c : Column) :
    m'.table.predicts (ρ.nonterminal n) (c.renamed ρ) = m.table.predicts n c := by
  rw [Table.predicts, Table.predicts, h.get?, Option.isSome_map]

theorem predict (h : m.Renamed ρ alike m') (n : Nat) (look : Option Column) :
    m'.predict (ρ.nonterminal n) (look.map (.renamed ρ)) =
      (m.predict n look).map fun (id, p) => (ρ.production id, p.renamed ρ) := by
  unfold Machine.predict
  cases look with
  | none => rfl
  | some c =>
    rw [Option.map_some, Option.bind_some, Option.bind_some, h.get?]
    cases m.table.get? n c with
    | none => rfl
    | some id =>
      rw [Option.map_some, Option.bind_some, Option.bind_some, h.grammar.productions, Option.map_map, Option.map_map]
      rfl

theorem restart (h : m.Renamed ρ alike m') (look : Option Column) :
    m'.restart (look.map (.renamed ρ)) = ρ.nonterminal (m.restart look) := by
  have found : ∀ c : Column, m'.grammar.restarts.find? (m'.table.predicts · (c.renamed ρ)) =
      (m.grammar.restarts.find? (m.table.predicts · c)).map ρ.nonterminal := by
    intro c
    rw [h.grammar.restarts, List.find?_map]
    simp only [Function.comp_def, h.predicts]
  have first : m'.grammar.restarts.head? = m.grammar.restarts.head?.map ρ.nonterminal := by
    rw [h.grammar.restarts, List.head?_map]
  simp only [Machine.restart, h.settings, first, h.grammar.start]
  cases look with
  | none => cases m.grammar.restarts.head? <;> simp
  | some c =>
    cases m.settings.predictiveRestart with
    | false => cases m.grammar.restarts.head? <;> simp
    | true =>
      simp only [Option.map_some, Option.filter_some, if_true, Option.bind_some, found]
      cases m.grammar.restarts.find? (m.table.predicts · c) with
      | none => cases m.grammar.restarts.head? <;> simp
      | some n => simp

/-! ### Steps and runs -/

theorem resumed (h : m.Renamed ρ alike m') (s : State) (rest : List Token) :
    m'.resumed (s.renamed ρ) rest = (m.resumed s rest).renamed ρ := by
  simp only [Machine.resumed, h.lookahead?, h.restart, State.renamed, entry, List.map_cons, List.map_nil, Symbol.renamed]

theorem fail (h : m.Renamed ρ alike m') (s : State) {fault fault' : SyntaxFault} (same : fault.Alike alike fault') :
    (m.fail s fault).Renamed ρ alike (m'.fail (s.renamed ρ) fault') := by
  have failed : List.Forall₂ (Event.Renamed ρ alike) (s.faultEvents fault) ((s.renamed ρ).faultEvents fault') :=
    .cons (.syntactic s.input.pos same) (.cons (s.row_renamed (.error same)) (.cons (s.row_renamed (.same .panic)) .nil))
  unfold Machine.fail
  rw [h.resync, show (s.renamed ρ).input = s.input from rfl]
  split
  · exact .halt _ (List.rel_append failed (.cons (.row ⟨rfl, rfl, .same .abort⟩) .nil)) rfl
  · rename_i rest _
    rw [h.resumed]
    exact .next (List.rel_append failed (.cons (State.row_renamed _ (.same .resume)) .nil)) rfl

theorem stepTerminal (h : m.Renamed ρ alike m') (s : State) (t : Nat) :
    (m.stepTerminal s t).Renamed ρ alike (m'.stepTerminal (s.renamed ρ) (ρ.terminal t)) := by
  have named : m'.grammar.name (.terminal (ρ.terminal t)) = m.grammar.name (.terminal t) := h.grammar.name (.terminal t)
  unfold Machine.stepTerminal
  rw [show (s.renamed ρ).input = s.input from rfl, named]
  split
  · exact h.fail s (.same _)
  · rename_i a rest _
    have matches_iff : m'.column? a = some (.terminal (ρ.terminal t)) ↔ m.column? a = some (.terminal t) := by
      rw [h.column?]
      exact (Option.map_injective Column.renamed_injective).eq_iff (b := some (.terminal t))
    simp only [matches_iff]
    split
    · unfold consume
      rw [h.settings, h.role, show (s.renamed ρ).scope = s.scope from rfl]
      refine .next (.cons (s.row_renamed (.same (.matched t))) ?_) rfl
      rw [List.forall₂_map_left_iff, List.forall₂_map_right_iff, List.forall₂_same]
      exact fun fault _ => .semantic fault a.pos
    · exact h.fail s (.same _)

theorem stepNonterminal (h : m.Renamed ρ alike m') (s : State) (n : Nat) :
    (m.stepNonterminal s n).Renamed ρ alike (m'.stepNonterminal (s.renamed ρ) (ρ.nonterminal n)) := by
  have named : m'.grammar.name (.nonterminal (ρ.nonterminal n)) = m.grammar.name (.nonterminal n) :=
    h.grammar.name (.nonterminal n)
  unfold Machine.stepNonterminal
  rw [s.isOpen_renamed, named, h.lookahead?, h.predict, show (s.renamed ρ).input = s.input from rfl]
  split
  · exact h.fail s (.same _)
  · cases m.predict n (m.lookahead? s.input) with
    | some found =>
      obtain ⟨id, p⟩ := found
      simp only [Option.map_some, s.expand_renamed]
      exact .next (.cons (State.row_renamed _ (.same (.expand id))) .nil) rfl
    | none =>
      simp only [Option.map_none]
      split
      · exact h.fail s (.unexpectedEnd (h.expected n))
      · exact h.fail s (.same _)

theorem step (h : m.Renamed ρ alike m') (s : State) :
    (m.step s).Renamed ρ alike (m'.step (s.renamed ρ)) := by
  unfold Machine.step
  rw [show (s.renamed ρ).stack = s.stack.map (.renamed ρ) from rfl]
  cases s.stack with
  | nil => exact .halt .reject .nil rfl
  | cons top below =>
    cases top with
    | epsilon => exact .next .nil (s.pop_renamed below)
    | endMarker =>
      simp only [List.map_cons, Symbol.renamed, s.pop_renamed]
      unfold stepEnd
      rw [show ((s.pop below).renamed ρ).input = (s.pop below).input from rfl]
      split
      · exact .halt _ (.cons (State.row_renamed _ (.same .accept)) .nil) rfl
      · exact h.fail _ (.same _)
    | terminal t =>
      simp only [List.map_cons, Symbol.renamed, s.pop_renamed]
      exact h.stepTerminal _ t
    | nonterminal n =>
      simp only [List.map_cons, Symbol.renamed, s.pop_renamed]
      exact h.stepNonterminal _ n

theorem lockstep (h : m.Renamed ρ alike m') :
    Lockstep (List.Forall₂ (Event.Renamed ρ alike)) Eq (fun s t => t = s.renamed ρ) m m' where
  joined first later := List.rel_append first later
  steps := by
    rintro s _ rfl
    exact h.step s

/-- A parse under new numbers. -/
theorem parse (h : m.Renamed ρ alike m') (stream : List Token) (known : Declarations) :
    (m.parse stream known).outcome = (m'.parse stream known).outcome ∧
    (m.parse stream known).declared = (m'.parse stream known).declared ∧
    List.Forall₂ (Row.Renamed ρ alike) (m.parse stream known).trace (m'.parse stream known).trace ∧
    List.Forall₂ (Diagnostic.Alike alike) (m.parse stream known).diagnostics (m'.parse stream known).diagnostics := by
  let first := m.initial (.ofTokens stream) known
  have begins : m'.initial (.ofTokens stream) known = first.renamed ρ := by
    simp only [first, initial, entry, h.grammar.start, State.renamed, List.map_cons, List.map_nil, Symbol.renamed]
  obtain ⟨outcome, reported, scope⟩ := h.lockstep.runFrom begins
  have events : List.Forall₂ (Event.Renamed ρ alike) (m.run (.ofTokens stream) known).events
      (m'.run (.ofTokens stream) known).events := by
    unfold Machine.run
    refine List.rel_append (.cons ?_ .nil) reported
    rw [begins]
    exact first.row_renamed (.same .initial)
  refine ⟨outcome, congrArg Scope.declared scope, ?_, diagnostics_renamed events⟩
  simp only [Machine.parse, report, h.settings]
  split
  · exact rows_renamed events
  · exact .nil

end Renamed
end Machine
end Lookahead
