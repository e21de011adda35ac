import Lookahead.Proofs.Grammar.DeclaredFirst

/-! What edits add to a draft. One that goes through adds what it asks for, and none takes anything away: each name, number,
rule and restart point stays what it was. -/

namespace Lookahead

namespace Draft
variable {d d' d'' : Draft} {e : Edit} {n : Option Nat}

/-- What an edit asks for is there, under the number that it is given. -/
def Grants (d : Draft) : Edit → Option Nat → Prop
  | .terminal name, n => ∃ i, n = some i ∧ d.terminals[i]? = some name
  | .nonterminal name, n => ∃ i, n = some i ∧ d.nonterminals[i]? = some name
  | .production head body, n => ∃ i p, n = some i ∧ d.productions[i]? = some p ∧ d.name (.nonterminal p.head) = head ∧
      p.body.map d.name = if body = [] then [epsilonName] else body
  | .start name, _ => ∃ i, d.start = some i ∧ d.name (.nonterminal i) = name
  | .restart name, _ => ∃ i ∈ d.restarts, d.name (.nonterminal i) = name

/-- All that a draft holds, the start aside, is in the other at its place. -/
structure Extends (d d' : Draft) : Prop where
  terminals : d.terminals <+: d'.terminals
  nonterminals : d.nonterminals <+: d'.nonterminals
  productions : d.productions <+: d'.productions
  restarts : d.restarts <+: d'.restarts

namespace Extends

theorem refl (d : Draft) : d.Extends d := ⟨List.prefix_rfl, List.prefix_rfl, List.prefix_rfl, List.prefix_rfl⟩

theorem trans (h : d.Extends d') (h' : d'.Extends d'') : d.Extends d'' where
  terminals := h.terminals.trans h'.terminals
  nonterminals := h.nonterminals.trans h'.nonterminals
  productions := h.productions.trans h'.productions
  restarts := h.restarts.trans h'.restarts

theorem name {s : Symbol} (h : d.Extends d') (declared : d.Declares s) : d'.name s = d.name s := by
  have kept : ∀ {names names' : List String} {i : Nat}, names <+: names' → i < names.length →
      names'.getD i "<unknown>" = names.getD i "<unknown>" := by
    intro names names' i extended bound
    obtain ⟨more, rfl⟩ := extended
    rw [List.getD_eq_getElem?_getD, List.getD_eq_getElem?_getD, List.getElem?_append_left bound]
  cases s with
  | terminal i => exact kept h.terminals declared
  | nonterminal i => exact kept h.nonterminals declared
  | epsilon => rfl
  | endMarker => rfl

end Extends

/-! ### What an edit does -/

namespace Change

/-- A change adds what is asked for. -/
theorem grants (change : d.Change e n d') : d'.Grants e n := by
  cases change with
  | terminal declared => exact ⟨_, rfl, (getElem?_declare declared).2⟩
  | nonterminal declared => exact ⟨_, rfl, (getElem?_declare declared).2⟩
  | @production _ _ _ symbols found spelled _ =>
    refine ⟨_, _, rfl, List.getElem?_concat_length, Vocabulary.name_of_find? found, ?_⟩
    subst spelled
    cases symbols <;> rfl
  | start found => exact ⟨_, rfl, Vocabulary.name_of_find? found⟩
  | @restart _ i found =>
    refine ⟨i, ?_, ?_⟩
    · split
      · exact List.contains_iff_mem.mp ‹_›
      · exact List.mem_concat_self
    · split <;> exact Vocabulary.name_of_find? found

/-- A change takes nothing away. -/
theorem extended (change : d.Change e n d') : d.Extends d' := by
  cases change with
  | terminal declared => exact { Extends.refl d with terminals := (getElem?_declare declared).1 }
  | nonterminal declared => exact { Extends.refl d with nonterminals := (getElem?_declare declared).1 }
  | production _ _ _ => exact { Extends.refl d with productions := List.prefix_append .. }
  | start _ => exact { Extends.refl d with }
  | restart _ =>
    split
    · exact .refl d
    · exact { Extends.refl d with restarts := List.prefix_append .. }

end Change

theorem extends_attempt (d : Draft) (e : Edit) : d.Extends (d.attempt e) := attempt_of_change (.refl d) Change.extended

theorem extends_foldl (d : Draft) (edits : List Edit) : d.Extends (edits.foldl Draft.attempt d) := by
  induction edits generalizing d with
  | nil => exact .refl d
  | cons e rest ih => exact (d.extends_attempt e).trans (ih (d.attempt e))

/-- A nonterminal that takes the name of a terminal stands for it in later rules and not in earlier ones. -/
example : ([.terminal "a", .nonterminal "S", .production "S" ["a"], .nonterminal "a", .production "S" ["a"],
    .production "S" ["b"], .nonterminal "$"].foldl Draft.attempt .empty).productions =
      [⟨0, [.terminal 0]⟩, ⟨0, [.nonterminal 1]⟩] := by decide

end Draft
end Lookahead
