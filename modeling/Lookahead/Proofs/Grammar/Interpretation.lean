import Lookahead.Proofs.Grammar.Derivation
import Mathlib.Data.List.Forall2

/-! Meanings of symbols. A form means what its symbols mean, one after another. Where each body means nothing but what its
head does, all that is read from a form has the meaning of the form. -/

namespace Lookahead

/-- A sequence that is made up of parts, one with the meaning of each symbol of a form. -/
inductive Composed {σ α : Type} (meaning : σ → List α → Prop) : List σ → List α → Prop
  | nil : Composed meaning [] []
  | cons {symbol : σ} {form : List σ} {part later : List α} (here : meaning symbol part)
    (there : Composed meaning form later) : Composed meaning (symbol :: form) (part ++ later)

namespace Composed
variable {σ τ α : Type} {meaning : σ → List α → Prop} {symbol : σ} {a b : List σ} {items first second : List α}

theorem nil_iff : Composed meaning [] items ↔ items = [] := by
  constructor
  · intro h
    cases h
    rfl
  · rintro rfl
    exact .nil

theorem cons_iff : Composed meaning (symbol :: a) items ↔
    ∃ part later, items = part ++ later ∧ meaning symbol part ∧ Composed meaning a later := by
  constructor
  · intro h
    cases h with
    | cons here there => exact ⟨_, _, rfl, here, there⟩
  · rintro ⟨part, later, rfl, here, there⟩
    exact .cons here there

theorem singleton_iff : Composed meaning [symbol] items ↔ meaning symbol items := by
  simp [cons_iff, nil_iff]

theorem append_inv (h : Composed meaning (a ++ b) items) :
    ∃ first second, items = first ++ second ∧ Composed meaning a first ∧ Composed meaning b second := by
  induction a generalizing items with
  | nil => exact ⟨[], items, rfl, .nil, h⟩
  | cons symbol a ih =>
    cases h with
    | cons here there =>
      obtain ⟨first, second, rfl, left, right⟩ := ih there
      exact ⟨_, second, (List.append_assoc ..).symm, .cons here left, right⟩

theorem map (f : τ → σ) {form : List τ} (h : Composed (fun s => meaning (f s)) form items) :
    Composed meaning (form.map f) items := by
  induction h with
  | nil => exact .nil
  | cons here _ ih => exact .cons here ih

end Composed

namespace Grammar
variable {g : Grammar} {α : Type} {meaning : Symbol → List α → Prop} {form : List Symbol} {ids : List Nat}
  {word : List Column} {items : List α}

/-- Where `ε` means the empty sequence, it makes no difference in a form. -/
theorem composed_of_erased (empty : meaning .epsilon []) (h : Composed meaning (erased form) items) :
    Composed meaning form items := by
  induction form generalizing items with
  | nil => exact h
  | cons symbol form ih =>
    by_cases vanishes : symbol = .epsilon
    · subst vanishes
      exact .cons empty (ih h)
    · rw [erased, List.filter_cons_of_pos (by simpa using vanishes)] at h
      cases h with
      | cons here there => exact .cons here (ih there)

/-- What is read from a form has the meaning of the form. -/
theorem composed_of_yields (empty : meaning .epsilon [])
    (bodies : ∀ p ∈ g.productions, ∀ items, Composed meaning p.body items → meaning (.nonterminal p.head) items)
    (h : g.Yields form ids word) (columns : List.Forall₂ (fun c item => meaning c.toSymbol [item]) word items) :
    Composed meaning form items := by
  induction h generalizing items with
  | nil =>
    cases columns
    exact .nil
  | terminal t _ ih =>
    cases columns with
    | cons here there => exact .cons here (ih there)
  | endMarker _ ih =>
    cases columns with
    | cons here there => exact .cons here (ih there)
  | @expand n id p rest _ _ found head _ ih =>
    subst head
    obtain ⟨first, second, rfl, body, later⟩ := (ih columns).append_inv
    exact .cons (bodies p (List.mem_of_getElem? found) first (composed_of_erased empty body)) later

end Grammar
end Lookahead
