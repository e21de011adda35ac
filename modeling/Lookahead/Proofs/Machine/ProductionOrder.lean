import Lookahead.Proofs.Machine.Renaming
import Lookahead.Proofs.Machine.Resumption
import Lookahead.Proofs.Prediction.Renaming

/-! The order of productions. The sets and the filled cells of a grammar do not tell it, nor how many conflicts a cell
has. Without conflicts it shows in the trace only, where expansions record the places of their productions. -/

namespace Lookahead

/-- The grammar with other productions, or with its own in another order. -/
def Grammar.withProductions (g : Grammar) (rules : List Production) : Grammar := { g with productions := rules }

def Action.renumbered (π : Equiv.Perm Nat) : Action → Action
  | .expand id => .expand (π id)
  | action => action

/-- A parse whose expansions record new numbers. -/
def Machine.Parse.renumbered (π : Equiv.Perm Nat) (p : Parse) : Parse :=
  { p with trace := p.trace.map fun r => { r with action := r.action.renumbered π } }

section Equal
variable {π : Equiv.Perm Nat}

theorem SyntaxFault.Alike.eq {a b : SyntaxFault} (h : a.Alike Eq b) : a = b := by
  cases h with
  | same _ => rfl
  | unexpectedEnd listed => rw [listed]

theorem Diagnostic.Alike.eq {a b : Diagnostic} (h : a.Alike Eq b) : a = b := by
  cases h with
  | same _ => rfl
  | unexpectedEnd _ listed => rw [listed]

theorem Action.Renamed.eq {a a' : Action} (h : a.Renamed (.ofProductions π) Eq a') : a.renumbered π = a' := by
  cases h with
  | same _ => cases a <;> rfl
  | error same => rw [same.eq]; rfl

theorem Row.Renamed.eq {r r' : Row} (h : r.Renamed (.ofProductions π) Eq r') :
    { r with action := r.action.renumbered π } = r' := by
  have stack := h.stack
  rw [funext (Symbol.renamed_ofProductions π), List.map_id'] at stack
  rw [← stack, ← h.lookahead, h.action.eq]

end Equal

namespace Machine
variable {g : Grammar} {rules : List Production} {π : Equiv.Perm Nat}

theorem renamed_withProductions (places : ∀ id, (g.withProductions rules).production? (π id) = g.production? id) :
    g.Renamed (.ofProductions π) (g.withProductions rules) where
  terminals _ := rfl
  nonterminals _ := rfl
  productions id := by
    rw [funext (Production.renamed_ofProductions π), Option.map_id']
    exact places id
  start := rfl
  restarts := (List.map_id _).symm

theorem solve_withProductions (declared : g.Declared) (shuffled : g.productions.Perm rules) :
    Sets.solve (g.withProductions rules) = Sets.solve g := by
  obtain ⟨π, places⟩ := exists_places shuffled
  exact (Sets.solve_of_renamed (renamed_withProductions places) declared rfl rfl).symm

/-- A cell is written equally often. -/
theorem length_writes_withProductions (declared : g.Declared) (shuffled : g.productions.Perm rules) (n : Nat) (c : Column) :
    (Table.writes (Table.predictions (g.withProductions rules) (Sets.solve (g.withProductions rules))) n c).length =
      (Table.writes (Table.predictions g (Sets.solve g)) n c).length := by
  have same : g.productions.Perm (g.withProductions rules).productions := shuffled
  rw [solve_withProductions declared shuffled, Table.length_writes_perm same]

theorem predicts_withProductions (declared : g.Declared) (shuffled : g.productions.Perm rules) (n : Nat) (c : Column) :
    (Table.build (g.withProductions rules) (Sets.solve (g.withProductions rules))).predicts n c =
      (Table.build g (Sets.solve g)).predicts n c := by
  rw [Bool.eq_iff_iff, Table.predicts_iff, Table.predicts_iff, length_writes_withProductions declared shuffled]

theorem isLL1_withProductions (declared : g.Declared) (shuffled : g.productions.Perm rules) :
    (Table.build (g.withProductions rules) (Sets.solve (g.withProductions rules))).isLL1 =
      (Table.build g (Sets.solve g)).isLL1 := by
  rw [Bool.eq_iff_iff, Table.isLL1_iff, Table.isLL1_iff]
  simp only [length_writes_withProductions declared shuffled]

/-- The machine of the grammar with its productions in another order. -/
theorem renamed_ofGrammar (declared : g.Declared) (shuffled : g.productions.Perm rules)
    (places : ∀ id, (g.withProductions rules).production? (π id) = g.production? id)
    (ll1 : (Table.build g (Sets.solve g)).isLL1 = true) (settings : Settings) :
    (ofGrammar g settings).Renamed (.ofProductions π) Eq (ofGrammar (g.withProductions rules) settings) where
  grammar := renamed_withProductions places
  settings := rfl
  terminal? _ := Option.map_id'.symm
  get? := (renamed_withProductions places).get?_of_isLL1 declared ll1 ((isLL1_withProductions declared shuffled).trans ll1)
  expected n := by
    have columns := Table.row_eq (predicts_withProductions declared shuffled) n
    rw [expected_eq, expected_eq]
    exact congrArg (fun columns => "' or '".intercalate (g.alternatives n columns)) columns.symm

/-- A grammar with its productions in another order has the same sets, fills the same cells, and each cell has as many
    conflicts. Without conflicts each cell holds the new place of its production, and parses differ in the numbers of the
    expanded productions only. -/
theorem parse_withProductions (built : g.Built) (shuffled : g.productions.Perm rules) :
    let g' := g.withProductions rules
    let table := Table.build g (Sets.solve g)
    let table' := Table.build g' (Sets.solve g')
    Sets.solve g' = Sets.solve g ∧
    (∀ n c, table'.predicts n c = table.predicts n c ∧
      (table'.conflictsAt n c).length = (table.conflictsAt n c).length) ∧
    table'.isLL1 = table.isLL1 ∧
    (∃ π : Equiv.Perm Nat, ∀ id, g'.production? (π id) = g.production? id) ∧
    (table.isLL1 = true → ∀ π : Equiv.Perm Nat, (∀ id, g'.production? (π id) = g.production? id) →
      (∀ n c, table'.get? n c = (table.get? n c).map π) ∧
      ∀ settings stream known,
        (ofGrammar g' settings).parse stream known = ((ofGrammar g settings).parse stream known).renumbered π) := by
  intro g' table table'
  have declared := built.declared
  refine ⟨solve_withProductions declared shuffled, fun n c => ⟨predicts_withProductions declared shuffled n c, ?_⟩,
    isLL1_withProductions declared shuffled, exists_places shuffled, fun ll1 π places => ⟨fun n c => ?_, ?_⟩⟩
  · rw [Table.length_conflictsAt, Table.length_conflictsAt, length_writes_withProductions declared shuffled]
  · have cell := (renamed_ofGrammar declared shuffled places ll1 {}).get? n c
    rwa [Column.renamed_ofProductions] at cell
  · intro settings stream known
    obtain ⟨outcome, names, rows, findings⟩ := (renamed_ofGrammar declared shuffled places ll1 settings).parse stream known
    have trace : ((ofGrammar g settings).parse stream known).trace.map (fun r => { r with action := r.action.renumbered π }) =
        ((ofGrammar g' settings).parse stream known).trace := by
      rw [← List.forall₂_eq_eq_eq, List.forall₂_map_left_iff]
      exact rows.imp fun _ _ same => same.eq
    have diagnostics : ((ofGrammar g settings).parse stream known).diagnostics =
        ((ofGrammar g' settings).parse stream known).diagnostics := by
      rw [← List.forall₂_eq_eq_eq]
      exact findings.imp fun _ _ same => same.eq
    rw [Parse.renumbered, outcome, names, trace, diagnostics]

/-- With `S → ε` before `S → ID ; S`, a parse of `int ; b ;` expands the last rule before the second. -/
theorem parse_withProductions_listing : ∃ rules : List Production,
    Grammar.listing.productions.Perm rules ∧ (Table.build .listing (Sets.solve .listing)).isLL1 = true ∧
    Sets.solve (Grammar.listing.withProductions rules) = Sets.solve .listing ∧
    let parse := (ofGrammar (Grammar.listing.withProductions rules) {}).parse unfinished .empty
    parse.outcome = .reject ∧ parse.trace.filterMap (·.action.production?) = [0, 2, 1] ∧
      parse.diagnostics = ((ofGrammar .listing {}).parse unfinished .empty).diagnostics := by
  let rules : List Production :=
    [⟨0, [.terminal 0, .nonterminal 1]⟩, ⟨1, [.epsilon]⟩, ⟨1, [.terminal 1, .terminal 2, .nonterminal 1]⟩]
  have shuffled : Grammar.listing.productions.Perm rules := .cons _ (.swap _ _ _)
  have ll1 : (Table.build .listing (Sets.solve .listing)).isLL1 = true := by decide +kernel
  have places : ∀ id, (Grammar.listing.withProductions rules).production? (Equiv.swap 1 2 id) =
      Grammar.listing.production? id := by
    intro id
    match id with
    | 0 => rfl
    | 1 => rfl
    | 2 => rfl
    | id + 3 =>
      rw [Equiv.swap_apply_of_ne_of_ne (by omega) (by omega)]
      rfl
  obtain ⟨sets, -, -, -, once⟩ := parse_withProductions Grammar.listing_built shuffled
  obtain ⟨-, same⟩ := once ll1 (Equiv.swap 1 2) places
  refine ⟨rules, shuffled, ll1, sets, ?_⟩
  rw [same {} unfinished .empty]
  decide +kernel

end Machine
end Lookahead
