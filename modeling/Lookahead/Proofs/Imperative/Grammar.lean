import Lookahead.Imperative.Grammar
import Lookahead.Proofs.Machine.Correctness

/-! The grammar of the language as it is built: it reads as it was written down, and its table has no conflicts. -/

namespace Lookahead

/-- The productions of a grammar by names. -/
def Grammar.named (g : Grammar) : List (String × List String) :=
  g.productions.map fun p => (g.name (.nonterminal p.head), p.body.map g.name)

namespace Imperative

/-- What is relied on of the language's grammar. -/
structure IsLanguage (g : Grammar) : Prop where
  built : g.Built
  start : g.name (.nonterminal g.start) = "program"
  terminals : g.terminals = outline.terminals
  productions : g.named = outline.productions
  plain : ∀ p ∈ g.productions, .endMarker ∉ p.body
  ll1 : (Table.build g (Sets.solve g)).isLL1 = true

theorem IsLanguage.predictive {g : Grammar} (language : IsLanguage g) : g.Predictive :=
  ⟨language.built.declared, language.plain, language.ll1⟩

theorem grammar_isLanguage : ∃ g, grammar = .ok g ∧ IsLanguage g := by
  -- One evaluation of the grammar and its table tells all but how the grammar was built.
  have evaluated : (match grammar with
      | .ok g => decide (g.name (.nonterminal g.start) = "program" ∧ g.terminals = outline.terminals ∧
          g.named = outline.productions ∧ (∀ p ∈ g.productions, .endMarker ∉ p.body) ∧
          (Table.build g (Sets.solve g)).isLL1 = true)
      | .error _ => false) = true := by
    decide +kernel
  cases result : grammar with
  | error defect =>
    rw [result] at evaluated
    cases evaluated
  | ok g =>
    rw [result] at evaluated
    obtain ⟨start, terminals, productions, plain, ll1⟩ := of_decide_eq_true evaluated
    exact ⟨g, rfl, Grammar.built_of_outline result, start, terminals, productions, plain, ll1⟩

end Imperative
end Lookahead
