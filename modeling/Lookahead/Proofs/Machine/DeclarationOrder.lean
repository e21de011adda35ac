import Lookahead.Proofs.Grammar.DeclaredFirst
import Lookahead.Proofs.Machine.Renaming
import Lookahead.Proofs.Prediction.Renaming

/-! The order in which names are declared. It gives names their numbers, and sets and rows of a table list their symbols by
number. By name nothing changes, with conflicts and without, but the order in which a message at the end of the input lists
what was expected. -/

namespace Lookahead

/-- Two lists of alternatives, as a message joins them, with the same texts in whatever order. -/
def SameAlternatives (a b : String) : Prop :=
  ∃ names names' : List String, names.Perm names' ∧ a = "' or '".intercalate names ∧ b = "' or '".intercalate names'

/-- The same action by names. Productions have the same numbers. -/
inductive Action.SameByNames (g g' : Grammar) : Action → Action → Prop
  | matched {t t' : Nat} (named : g.name (.terminal t) = g'.name (.terminal t')) : SameByNames g g' (.matched t) (.matched t')
  | error {fault fault' : SyntaxFault} (same : fault.Alike SameAlternatives fault') :
    SameByNames g g' (.error fault) (.error fault')
  | other (action : Action) (unmatched : ∀ t, action ≠ .matched t) : SameByNames g g' action action

/-- The same row by names: the symbols of the stack are of the same kinds and have the same names. -/
structure Row.SameByNames (g g' : Grammar) (r r' : Row) : Prop where
  stack : r.stack.map (fun s => (s.rank.1, g.name s)) = r'.stack.map fun s => (s.rank.1, g'.name s)
  lookahead : r.lookahead = r'.lookahead
  action : r.action.SameByNames g g' r'.action

section Names
variable {g g' : Grammar} {ρ : Renaming} {σ τ : Equiv.Perm Nat}

theorem Grammar.Renamed.perm_alternatives (h : g.Renamed ρ g') {columns columns' : List Column}
    (perm : List.Perm (columns.map (Column.renamed ρ)) columns') (n : Nat) :
    (g.alternatives n columns).Perm (g'.alternatives (ρ.nonterminal n) columns') := by
  have named : g'.name (.nonterminal (ρ.nonterminal n)) = g.name (.nonterminal n) := h.name (.nonterminal n)
  cases columns with
  | nil =>
    obtain rfl := List.nil_perm.mp perm
    simp only [alternatives, named]
    exact .refl _
  | cons c rest =>
    have spelled : (c :: rest).map (fun c => g.name c.toSymbol) =
        ((c :: rest).map (Column.renamed ρ)).map fun c => g'.name c.toSymbol := by
      simp only [List.map_map, Function.comp_def, Column.toSymbol_renamed, h.name]
    cases columns' with
    | nil => cases List.perm_nil.mp perm
    | cons c' rest' =>
      simp only [alternatives, spelled]
      exact perm.map _

theorem Action.Renamed.sameByNames (h : g.Renamed (.ofNames σ τ) g') {a a' : Action}
    (renamed : a.Renamed (.ofNames σ τ) SameAlternatives a') : a.SameByNames g g' a' := by
  cases renamed with
  | same _ =>
    cases a with
    | matched t => exact .matched (h.name (.terminal t)).symm
    | expand id => exact .other (.expand id) nofun
    | initial => exact .other .initial nofun
    | accept => exact .other .accept nofun
    | error fault => exact .error (.same fault)
    | panic => exact .other .panic nofun
    | resume => exact .other .resume nofun
    | abort => exact .other .abort nofun
  | error same => exact .error same

theorem Row.Renamed.sameByNames (h : g.Renamed (.ofNames σ τ) g') {r r' : Row}
    (renamed : r.Renamed (.ofNames σ τ) SameAlternatives r') : r.SameByNames g g' r' where
  stack := by
    have kind : ∀ s : Symbol, (s.renamed (.ofNames σ τ)).rank.1 = s.rank.1 := fun s => by cases s <;> rfl
    simp only [renamed.stack, List.map_map, Function.comp_def, h.name, kind]
  lookahead := renamed.lookahead.symm
  action := renamed.action.sameByNames h

end Names

/-- `S → i S E | x` and `E → ε | e S` with the names declared backwards. -/
def Grammar.danglingBackwards : Grammar where
  terminals := ["x", "e", "i"]
  nonterminals := ["E", "S"]
  productions := [
    ⟨1, [.terminal 2, .nonterminal 1, .nonterminal 0]⟩,
    ⟨1, [.terminal 0]⟩,
    ⟨0, [.epsilon]⟩,
    ⟨0, [.terminal 1, .nonterminal 1]⟩]
  start := 1
  restarts := []

namespace Machine
variable {g g' : Grammar}

theorem renamed_ofNames {σ τ : Equiv.Perm Nat} (h : g.Renamed (.ofNames σ τ) g') (built : g.Built) (built' : g'.Built)
    (settings : Settings) :
    (ofGrammar g settings).Renamed (.ofNames σ τ) SameAlternatives (ofGrammar g' settings) where
  grammar := h
  settings := rfl
  terminal? := h.terminal? built.distinct.1 built'.distinct.1
  get? n c := (h.get?_ofNames built.declared n c).trans Option.map_id'.symm
  expected n := by
    have filled : ∀ n c, (Table.build g' (Sets.solve g')).predicts (τ n) (c.renamed (.ofNames σ τ)) =
        (Table.build g (Sets.solve g)).predicts n c := fun n c => congrArg Option.isSome (h.get?_ofNames built.declared n c)
    rw [expected_eq, expected_eq]
    exact ⟨_, _, h.perm_alternatives (Table.perm_row (.ofNames σ τ) filled n) n, rfl, rfl⟩

/-- Two grammars that declare the same names in different orders before the same rules are parsed alike. By names they
    have the same trace, and the findings are the same but for the order of what is expected at the end of the input. -/
theorem parse_sameByNames (same : g.SameByNames g') (first : g.DeclaredFirst) (first' : g'.DeclaredFirst)
    (settings : Settings) (stream : List Token) (known : Declarations) :
    let parse := (ofGrammar g settings).parse stream known
    let parse' := (ofGrammar g' settings).parse stream known
    parse.outcome = parse'.outcome ∧ parse.declared = parse'.declared ∧
      List.Forall₂ (Row.SameByNames g g') parse.trace parse'.trace ∧
      List.Forall₂ (Diagnostic.Alike SameAlternatives) parse.diagnostics parse'.diagnostics := by
  obtain ⟨σ, τ, renamed⟩ := same.renamed first first'
  have machines := renamed_ofNames renamed first.built first'.built settings
  obtain ⟨outcome, declared, rows, findings⟩ := machines.parse stream known
  exact ⟨outcome, declared, rows.imp fun _ _ row => row.sameByNames renamed, findings⟩

/-- Behind `i` either an `i` or an `x` is missing, and each grammar lists the two in the order of its declarations. The
    table has conflicts. -/
theorem parse_sameByNames_dangling :
    Grammar.dangling.SameByNames .danglingBackwards ∧ Grammar.dangling.DeclaredFirst ∧ Grammar.danglingBackwards.DeclaredFirst ∧
    (Table.build .dangling (Sets.solve .dangling)).isLL1 = false ∧
    let parse := (ofGrammar .dangling {}).parse [⟨.keyword, "i", ⟨1, 1⟩⟩] .empty
    let parse' := (ofGrammar .danglingBackwards {}).parse [⟨.keyword, "i", ⟨1, 1⟩⟩] .empty
    parse'.outcome = .reject ∧ List.Forall₂ (Row.SameByNames .dangling .danglingBackwards) parse.trace parse'.trace ∧
      parse.diagnostics = [⟨.syntactic, (SyntaxFault.unexpectedEnd "i' or 'x").message, ⟨1, 1⟩⟩] ∧
      parse'.diagnostics = [⟨.syntactic, (SyntaxFault.unexpectedEnd "x' or 'i").message, ⟨1, 1⟩⟩] := by
  have first : Grammar.dangling.DeclaredFirst :=
    ⟨[.terminal "i", .terminal "e", .terminal "x", .nonterminal "S", .nonterminal "E"],
      [.start "S", .production "S" ["i", "S", "E"], .production "S" ["x"], .production "E" [],
        .production "E" ["e", "S"]], by decide, by decide, rfl⟩
  have first' : Grammar.danglingBackwards.DeclaredFirst :=
    ⟨[.nonterminal "E", .terminal "x", .nonterminal "S", .terminal "e", .terminal "i"],
      [.production "S" ["i", "S", "E"], .production "S" ["x"], .production "E" ["ε"], .production "E" ["e", "S"],
        .start "S"], by decide, by decide, rfl⟩
  have same : Grammar.dangling.SameByNames .danglingBackwards := by
    refine ⟨fun name => ?_, fun name => ?_, rfl, rfl, rfl⟩
    · simp only [Grammar.dangling, Grammar.danglingBackwards, List.mem_cons, List.not_mem_nil]
      tauto
    · simp only [Grammar.dangling, Grammar.danglingBackwards, List.mem_cons, List.not_mem_nil]
      tauto
  obtain ⟨outcome, -, rows, -⟩ := parse_sameByNames same first first' {} [⟨.keyword, "i", ⟨1, 1⟩⟩] .empty
  refine ⟨same, first, first', by decide +kernel, ?_, rows, by decide +kernel, by decide +kernel⟩
  rw [← outcome]
  decide +kernel

end Machine
end Lookahead
