import Lookahead.Proofs.Machine.Lockstep
import Lookahead.Proofs.Machine.Resumption
import Mathlib.Data.List.Forall2

/-! What a run is blind to. Of a token the stack only ever sees the column, so that neither places nor declared names nor
the settings for declarations and assignments tell in the outcome, the trace or the syntax faults. Two runs over tokens of
the same columns go through the same stacks. Where the tokens have the same texts too, they report the same rows. -/

namespace Lookahead

/-- The settings that a run reads apart from its scope and its trace. -/
structure Settings.SameSyntax (a b : Settings) : Prop where
  identifier : a.identifier = b.identifier
  constant : a.constant = b.constant
  syncTerminals : a.syncTerminals = b.syncTerminals
  predictiveRestart : a.predictiveRestart = b.predictiveRestart

/-- Events that expand the same productions. If `texts` holds, they have the same rows and the same syntax faults as well,
    but for the places of the faults. -/
def SameSyntax (texts : Prop) (a b : List Event) : Prop :=
  expansions a = expansions b ∧ (texts → a.filterMap Event.row? = b.filterMap Event.row? ∧
    (syntaxFaults a).map (·.1) = (syntaxFaults b).map (·.1))

namespace SameSyntax
variable {texts : Prop} {a b c d : List Event}

theorem append (first : SameSyntax texts a b) (second : SameSyntax texts c d) : SameSyntax texts (a ++ c) (b ++ d) := by
  obtain ⟨expanded, told⟩ := first
  obtain ⟨expanded', told'⟩ := second
  refine ⟨by simp [expanded, expanded'], fun h => ?_⟩
  obtain ⟨rows, faults⟩ := told h
  obtain ⟨rows', faults'⟩ := told' h
  simp [rows, rows', faults, faults']

theorem row {s t : State} {action action' : Action} (stack : s.stack = t.stack)
    (expanded : action.production? = action'.production?) (told : texts → s.input.text = t.input.text ∧ action = action') :
    SameSyntax texts [s.row action] [t.row action'] := by
  refine ⟨by simp [expansions, State.row, Event.row?, List.filterMap_cons, expanded], fun h => ?_⟩
  obtain ⟨text, rfl⟩ := told h
  simp [State.row, Event.row?, stack, text, syntaxFaults, Event.syntaxFault?]

end SameSyntax

namespace Machine
variable {m : Machine} {other : Settings} {texts : Prop} {s t : State}

/-- The machine under other settings. -/
def under (m : Machine) (other : Settings) : Machine := { m with settings := other }

/-! ### Tokens of the same column -/

/-- Two tokens of the same column. If `texts` holds, they have the same text as well. -/
def SameToken (m : Machine) (texts : Prop) (a b : Token) : Prop :=
  m.column? a = m.column? b ∧ (texts → a.source = b.source)

section Parts
variable (agree : m.settings.SameSyntax other)
include agree

theorem column?_under (a : Token) : (m.under other).column? a = m.column? a := by
  unfold column?
  simp only [under, agree.identifier, agree.constant]

theorem isSync_under {a b : Token} (same : m.SameToken texts a b) : (m.under other).isSync b = m.isSync a := by
  unfold isSync
  rw [column?_under agree, same.1]
  simp only [role, Settings.role, under, agree.syncTerminals]

theorem lookahead?_under {i j : Input} (same : List.Forall₂ (m.SameToken texts) i.tokens j.tokens) :
    (m.under other).lookahead? j = m.lookahead? i := by
  unfold lookahead?
  generalize i.tokens = as, j.tokens = bs at same ⊢
  cases same with
  | nil => rfl
  | cons here _ => exact (column?_under agree _).trans here.1.symm

theorem restart_under (look : Option Column) : (m.under other).restart look = m.restart look := by
  simp only [restart, under, agree.predictiveRestart]

theorem resync_under {as bs : List Token} (same : List.Forall₂ (m.SameToken texts) as bs) :
    Option.Rel (List.Forall₂ (m.SameToken texts)) (m.resync as) ((m.under other).resync bs) := by
  induction same with
  | nil => exact .none
  | cons here later ih =>
    rw [resync, resync, isSync_under agree here]
    split
    · exact .some later
    · exact ih

end Parts

theorem text_eq {i j : Input} (same : List.Forall₂ (m.SameToken texts) i.tokens j.tokens) (h : texts) : i.text = j.text := by
  unfold Input.text
  generalize i.tokens = as, j.tokens = bs at same ⊢
  cases same with
  | nil => rfl
  | cons here _ => exact here.2 h

/-! ### States with the same stack -/

/-- Two states that differ at most in their scopes and in what their tokens are apart from the column. -/
structure Alike (m : Machine) (texts : Prop) (s t : State) : Prop where
  stack : s.stack = t.stack
  opened : s.opened = t.opened
  faulty : s.faulty = t.faulty
  tokens : List.Forall₂ (m.SameToken texts) s.input.tokens t.input.tokens

theorem Alike.pop (alike : m.Alike texts s t) (below : List Symbol) : m.Alike texts (s.pop below) (t.pop below) where
  stack := rfl
  opened := by simp only [State.pop, alike.opened]
  faulty := alike.faulty
  tokens := alike.tokens

/-- Two turns that report the same syntax and lead to states that are alike. -/
abbrev AlikeTurn (m : Machine) (texts : Prop) : Turn → Turn → Prop :=
  Turn.Paired (SameSyntax texts) (fun _ _ => True) (m.Alike texts)

section Steps
variable (agree : m.settings.SameSyntax other)
include agree

theorem fail_alike (alike : m.Alike texts s t) {fault fault' : SyntaxFault} (same : texts → fault = fault') :
    m.AlikeTurn texts (m.fail s fault) ((m.under other).fail t fault') := by
  have failed : SameSyntax texts (s.faultEvents fault) (t.faultEvents fault') := by
    refine ⟨rfl, fun h => ?_⟩
    obtain rfl := same h
    simp only [State.faultEvents, State.row, alike.stack, text_eq alike.tokens h]
    exact ⟨rfl, rfl⟩
  have resynced := resync_under agree alike.tokens
  unfold fail
  generalize m.resync s.input.tokens = found at resynced ⊢
  generalize (m.under other).resync t.input.tokens = found' at resynced ⊢
  cases resynced with
  | none => exact .halt .reject (failed.append (.row alike.stack rfl fun _ => ⟨rfl, rfl⟩)) trivial
  | @some rest rest' later =>
    have resumed : m.Alike texts (m.resumed s rest) ((m.under other).resumed t rest') := by
      have look : (m.under other).lookahead? { t.input with tokens := rest' } =
        m.lookahead? { s.input with tokens := rest } := lookahead?_under agree later
      refine ⟨?_, rfl, rfl, later⟩
      simp only [resumed, entry, restart_under agree, look]
    exact .next (failed.append (.row resumed.stack rfl fun h => ⟨text_eq resumed.tokens h, rfl⟩)) resumed

theorem stepTerminal_alike (alike : m.Alike texts s t) (n : Nat) :
    m.AlikeTurn texts (m.stepTerminal s n) ((m.under other).stepTerminal t n) := by
  have tokens := alike.tokens
  unfold stepTerminal
  cases read : s.input.tokens with
  | nil =>
    rw [read] at tokens
    rw [List.forall₂_nil_left_iff.mp tokens]
    exact fail_alike agree alike fun _ => rfl
  | cons a rest =>
    rw [read] at tokens
    obtain ⟨b, rest', here, later, read'⟩ := List.forall₂_cons_left_iff.mp tokens
    simp only [read', column?_under agree, ← here.1]
    split
    · unfold consume
      refine .next ?_ ⟨alike.stack, rfl, alike.faulty, later⟩
      refine ⟨by rw [expansions_matched, expansions_matched], fun h => ?_⟩
      rw [syntaxFaults_match, syntaxFaults_match]
      simp only [State.row, List.filterMap_cons, Event.row?, rows_semantic, alike.stack, text_eq alike.tokens h, and_self]
    · exact fail_alike agree alike fun h => by rw [here.2 h]; rfl

theorem stepNonterminal_alike (alike : m.Alike texts s t) (n : Nat) :
    m.AlikeTurn texts (m.stepNonterminal s n) ((m.under other).stepNonterminal t n) := by
  have going : t.isOpen n = s.isOpen n := by rw [State.isOpen, State.isOpen, alike.opened]
  unfold stepNonterminal
  rw [going, lookahead?_under agree alike.tokens, show (m.under other).predict n = m.predict n from rfl]
  split
  · exact fail_alike agree alike fun _ => rfl
  · split
    · rename_i id p _
      have expanded : m.Alike texts (s.expand n p) (t.expand n p) :=
        ⟨by simp only [State.expand, alike.stack], by simp only [State.expand, alike.stack, alike.opened], alike.faulty,
          alike.tokens⟩
      exact .next (.row expanded.stack rfl fun h => ⟨text_eq expanded.tokens h, rfl⟩) expanded
    · have tokens := alike.tokens
      generalize s.input.tokens = as, t.input.tokens = bs at tokens ⊢
      cases tokens with
      | nil => exact fail_alike agree alike fun _ => rfl
      | cons here _ => exact fail_alike agree alike fun h => by rw [here.2 h]; rfl

theorem step_alike (alike : m.Alike texts s t) :
    m.AlikeTurn texts (m.step s) ((m.under other).step t) := by
  unfold step
  rw [← alike.stack]
  split
  · exact .halt .reject ⟨rfl, fun _ => ⟨rfl, rfl⟩⟩ trivial
  · exact .next ⟨rfl, fun _ => ⟨rfl, rfl⟩⟩ (alike.pop _)
  · rename_i below _
    have tokens := (alike.pop below).tokens
    unfold stepEnd
    cases read : (s.pop below).input.tokens with
    | nil =>
      rw [read] at tokens
      rw [List.forall₂_nil_left_iff.mp tokens, show (t.pop below).faulty = (s.pop below).faulty from alike.faulty.symm]
      exact .halt _ (.row rfl rfl fun h => ⟨text_eq (alike.pop below).tokens h, rfl⟩) trivial
    | cons a rest =>
      rw [read] at tokens
      obtain ⟨b, rest', here, -, read'⟩ := List.forall₂_cons_left_iff.mp tokens
      rw [read']
      exact fail_alike agree (alike.pop below) fun h => by rw [here.2 h]
  · exact stepTerminal_alike agree (alike.pop _) _
  · exact stepNonterminal_alike agree (alike.pop _) _

theorem lockstep_alike : Lockstep (SameSyntax texts) (fun _ _ => True) (m.Alike texts) m (m.under other) where
  joined := .append
  steps := step_alike agree

/-! ### Runs over tokens of the same columns -/

theorem run_alike {i j : Input} (same : List.Forall₂ (m.SameToken texts) i.tokens j.tokens) (known known' : Declarations) :
    (m.run i known).outcome = ((m.under other).run j known').outcome ∧
      SameSyntax texts (m.run i known).events ((m.under other).run j known').events := by
  have first : m.Alike texts (m.initial i known) ((m.under other).initial j known') := ⟨rfl, rfl, rfl, same⟩
  obtain ⟨outcome, reported, -⟩ := (lockstep_alike agree).runFrom first
  exact ⟨outcome, SameSyntax.append (.row rfl rfl fun h => ⟨text_eq same h, rfl⟩) reported⟩

end Steps

theorem column?_congr {a b : Token} (kind : a.kind = b.kind) (source : a.source = b.source) : m.column? a = m.column? b := by
  unfold column?
  rw [kind, source]

theorem sameToken_of_unplaced {as bs : List Token}
    (same : List.Forall₂ (fun a b : Token => a.kind = b.kind ∧ a.source = b.source) as bs) :
    List.Forall₂ (m.SameToken True) (as.takeWhile (!·.isEof)) (bs.takeWhile (!·.isEof)) := by
  induction same with
  | nil => exact .nil
  | @cons a b as bs here _ ih =>
    have closing : a.isEof = b.isEof := by rw [Token.isEof, Token.isEof, here.1]
    cases ended : b.isEof with
    | true => simp [closing, ended]
    | false =>
      simp only [List.takeWhile_cons, closing, ended, Bool.not_false, if_true]
      exact .cons ⟨column?_congr here.1 here.2, fun _ => here.2⟩ ih

theorem sameToken_of_columns {as bs : List Token} (same : as.map m.column? = bs.map m.column?) :
    List.Forall₂ (m.SameToken False) as bs := by
  rw [← List.forall₂_eq_eq_eq, List.forall₂_map_left_iff, List.forall₂_map_right_iff] at same
  exact same.imp fun _ _ here => ⟨here, False.elim⟩

/-! ### Whether the trace is kept -/

/-- The machine without a trace. -/
def untraced (m : Machine) : Machine := m.under { m.settings with trace := false }

theorem observe_untraced (settings : Settings) (role : Role) (scope : Scope) (a : Token) :
    scope.observe { settings with trace := false } role a = scope.observe settings role a := by
  unfold Scope.observe Scope.identifier Scope.constant Scope.resolve Scope.operandFault Scope.nextAssignment
  rfl

theorem resync_untraced (m : Machine) (tokens : List Token) : m.untraced.resync tokens = m.resync tokens := by
  induction tokens with
  | nil => rfl
  | cons a rest ih => rw [resync, resync, ih, show m.untraced.isSync a = m.isSync a from rfl]

theorem step_untraced (m : Machine) (s : State) : m.untraced.step s = m.step s := by
  have fails : ∀ s fault, m.untraced.fail s fault = m.fail s fault := by
    intro s fault
    simp only [fail, resync_untraced]
    rfl
  have consumes : ∀ s n a rest, m.untraced.consume s n a rest = m.consume s n a rest := by
    intro s n a rest
    have observed := observe_untraced m.settings (m.role n) s.scope a
    simp only [consume, show m.untraced.settings = { m.settings with trace := false } from rfl,
      show m.untraced.role n = m.role n from rfl, observed]
  unfold step
  split
  · rfl
  · rfl
  · simp only [stepEnd, fails]
  · simp only [stepTerminal, fails, consumes]
    rfl
  · simp only [stepNonterminal, fails]
    rfl

theorem parse_untraced (m : Machine) (stream : List Token) (known : Declarations) :
    m.untraced.parse stream known = { m.parse stream known with trace := [] } := by
  have whole : m.untraced.run (.ofTokens stream) known = m.run (.ofTokens stream) known :=
    congrArg (Run.preceded · _) (runFrom_congr m.step_untraced _)
  rw [parse, parse, whole]
  rfl

/-! ### What a parse is blind to -/

/-- Two machines with the same grammar, sets and table whose settings agree on identifiers, literals, recovery and the
    trace cannot be told apart by the outcome, the trace and the syntax faults, whatever is declared at first and wherever
    the tokens stand. For one machine the columns up to the closing record tell the outcome and the expansions, and without
    a trace nothing else is missing. -/
theorem parse_blind (m : Machine) :
    (∀ other, m.settings.SameSyntax other → other.trace = m.settings.trace → ∀ stream stream' known known',
      List.Forall₂ (fun a b : Token => a.kind = b.kind ∧ a.source = b.source) stream stream' →
      (m.parse stream known).outcome = ((m.under other).parse stream' known').outcome ∧
      (m.parse stream known).trace = ((m.under other).parse stream' known').trace ∧
      (Diagnostic.ofSeverity .syntactic (m.parse stream known).diagnostics).map (·.message) =
        (Diagnostic.ofSeverity .syntactic ((m.under other).parse stream' known').diagnostics).map (·.message)) ∧
    (∀ stream stream' known known',
      (stream.takeWhile (!·.isEof)).map m.column? = (stream'.takeWhile (!·.isEof)).map m.column? →
      (m.parse stream known).outcome = (m.parse stream' known').outcome ∧
      expansions (m.run (.ofTokens stream) known).events = expansions (m.run (.ofTokens stream') known').events) ∧
    ∀ stream known, m.untraced.parse stream known = { m.parse stream known with trace := [] } := by
  refine ⟨fun other agree kept stream stream' known known' unplaced => ?_, fun stream stream' known known' columns => ?_,
    m.parse_untraced⟩
  · have alike := sameToken_of_unplaced (m := m) unplaced
    obtain ⟨outcome, -, told⟩ := run_alike agree (i := .ofTokens stream) (j := .ofTokens stream') alike known known'
    obtain ⟨rows, faults⟩ := told trivial
    refine ⟨outcome, ?_, ?_⟩
    · simp only [parse, report, rows, show (m.under other).settings.trace = m.settings.trace from kept]
    · have messages : ∀ events : List Event,
          (Diagnostic.ofSeverity .syntactic (events.filterMap Event.diagnostic?)).map (·.message) =
            ((syntaxFaults events).map (·.1)).map (·.message) := by
        intro events
        rw [ofSeverity_syntactic, List.map_map, List.map_map]
        rfl
      rw [parse, parse, report, report, messages, messages, faults]
  · have alike := sameToken_of_columns columns
    have agree : m.settings.SameSyntax m.settings := ⟨rfl, rfl, rfl, rfl⟩
    obtain ⟨outcome, expanded, -⟩ := run_alike agree (i := .ofTokens stream) (j := .ofTokens stream') alike known known'
    exact ⟨outcome, expanded⟩

/-- Settings under which nothing of `int ; b ;` declares anything. -/
def undeclaring : Settings :=
  { typeKeywords := ["float"], declarationEnds := [], separators := [";"], assignmentOperators := ["ID"], integralTypes := [] }

/-- `int ; b ;` all in one place is parsed like `int ; b ;` in a line, also if `b` is declared before and type keywords
    are others. -/
theorem parse_blind_listing :
    (ofGrammar .listing {}).settings.SameSyntax undeclaring ∧
    let other := ((ofGrammar .listing {}).under undeclaring).parse (unfinished.map fun a => { a with pos := .start })
      (Declarations.empty.insertNew "b" (some "float") ⟨9, 9⟩)
    other.outcome = .reject ∧ other.trace = ((ofGrammar .listing {}).parse unfinished .empty).trace ∧
      (Diagnostic.ofSeverity .syntactic other.diagnostics).map (·.message) = [(SyntaxFault.noProduction "S" ";").message] ∧
      (Diagnostic.ofSeverity .semantic other.diagnostics) = [] ∧
      ((ofGrammar .listing {}).untraced.parse unfinished .empty).trace = [] := by
  have agree : (ofGrammar .listing {}).settings.SameSyntax undeclaring := ⟨rfl, rfl, rfl, rfl⟩
  obtain ⟨blind, -, untraced⟩ := parse_blind (ofGrammar .listing {})
  obtain ⟨outcome, trace, messages⟩ := blind undeclaring agree rfl unfinished (unfinished.map fun a => { a with pos := .start })
    .empty (Declarations.empty.insertNew "b" (some "float") ⟨9, 9⟩)
    (List.forall₂_map_right_iff.mpr (List.forall₂_same.mpr fun _ _ => ⟨rfl, rfl⟩))
  refine ⟨agree, ?_, trace.symm, ?_, by decide +kernel, by rw [untraced]⟩
  · rw [← outcome]
    decide +kernel
  · rw [← messages]
    decide +kernel

end Machine
end Lookahead
