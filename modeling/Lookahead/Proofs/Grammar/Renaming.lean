import Lookahead.Proofs.Grammar.Derivation
import Mathlib.Algebra.Group.End
import Mathlib.Data.List.Nodup
import Mathlib.Logic.Equiv.Basic

/-! Grammars that differ in nothing but the numbers of their names and productions. What one of them derives, the other
derives under the new numbers. A list that was put into another order gives its elements such numbers. -/

namespace Lookahead

/-- New numbers for terminals, nonterminals and productions. -/
structure Renaming where
  terminal : Equiv.Perm Nat
  nonterminal : Equiv.Perm Nat
  production : Equiv.Perm Nat

namespace Renaming

def symm (ρ : Renaming) : Renaming := ⟨ρ.terminal.symm, ρ.nonterminal.symm, ρ.production.symm⟩

/-- Only productions are given new numbers. -/
def ofProductions (π : Equiv.Perm Nat) : Renaming := ⟨.refl Nat, .refl Nat, π⟩

/-- Only names are given new numbers. -/
def ofNames (terminal nonterminal : Equiv.Perm Nat) : Renaming := ⟨terminal, nonterminal, .refl Nat⟩

end Renaming

variable {ρ : Renaming}

def Symbol.renamed (ρ : Renaming) : Symbol → Symbol
  | .terminal i => .terminal (ρ.terminal i)
  | .nonterminal i => .nonterminal (ρ.nonterminal i)
  | .epsilon => .epsilon
  | .endMarker => .endMarker

def Column.renamed (ρ : Renaming) : Column → Column
  | .terminal i => .terminal (ρ.terminal i)
  | .endMarker => .endMarker

def Production.renamed (ρ : Renaming) (p : Production) : Production := ⟨ρ.nonterminal p.head, p.body.map (.renamed ρ)⟩

/-! ### Symbols, columns and bodies -/

@[simp] theorem Symbol.renamed_symm (s : Symbol) : (s.renamed ρ).renamed ρ.symm = s := by
  cases s <;> simp [renamed, Renaming.symm]

@[simp] theorem Symbol.renamed_of_symm (s : Symbol) : (s.renamed ρ.symm).renamed ρ = s := by
  cases s <;> simp [renamed, Renaming.symm]

@[simp] theorem Symbol.renamed_ofProductions (π : Equiv.Perm Nat) (s : Symbol) : s.renamed (.ofProductions π) = s := by
  cases s <;> rfl

@[simp] theorem Symbol.renamed_eq_epsilon {s : Symbol} : s.renamed ρ = .epsilon ↔ s = .epsilon := by
  cases s <;> simp [renamed]

@[simp] theorem Column.renamed_symm (c : Column) : (c.renamed ρ).renamed ρ.symm = c := by
  cases c <;> simp [renamed, Renaming.symm]

@[simp] theorem Column.renamed_of_symm (c : Column) : (c.renamed ρ.symm).renamed ρ = c := by
  cases c <;> simp [renamed, Renaming.symm]

@[simp] theorem Column.renamed_ofProductions (π : Equiv.Perm Nat) (c : Column) : c.renamed (.ofProductions π) = c := by
  cases c <;> rfl

theorem Column.renamed_injective : Function.Injective (Column.renamed ρ) :=
  Function.LeftInverse.injective renamed_symm

@[simp] theorem Column.toSymbol_renamed (c : Column) : (c.renamed ρ).toSymbol = c.toSymbol.renamed ρ := by
  cases c <;> rfl

@[simp] theorem map_renamed_symm (a : List Symbol) : (a.map (.renamed ρ)).map (.renamed ρ.symm) = a := by
  simp [List.map_map, Function.comp_def]

@[simp] theorem map_renamed_of_symm (a : List Symbol) : (a.map (.renamed ρ.symm)).map (.renamed ρ) = a := by
  simp [List.map_map, Function.comp_def]

@[simp] theorem erased_renamed (a : List Symbol) : erased (a.map (.renamed ρ)) = (erased a).map (.renamed ρ) := by
  induction a with
  | nil => rfl
  | cons s rest ih => cases s <;> simp [Symbol.renamed, ih]

@[simp] theorem Production.renamed_symm (p : Production) : (p.renamed ρ).renamed ρ.symm = p := by
  simp only [renamed, map_renamed_symm]
  simp [Renaming.symm]

@[simp] theorem Production.renamed_of_symm (p : Production) : (p.renamed ρ.symm).renamed ρ = p := by
  simp only [renamed, map_renamed_of_symm]
  simp [Renaming.symm]

@[simp] theorem Production.renamed_ofProductions (π : Equiv.Perm Nat) (p : Production) :
    p.renamed (.ofProductions π) = p := by
  have same : Symbol.renamed (.ofProductions π) = id := funext (Symbol.renamed_ofProductions π)
  simp only [renamed, same, List.map_id]
  rfl

/-! ### Lists in another order -/

section Places
variable {α : Type} {l l' : List α}

/-- Everything behind the first place moves as if the first place were not there. -/
def behindFirst (σ : Equiv.Perm Nat) : Equiv.Perm Nat where
  toFun
    | 0 => 0
    | i + 1 => σ i + 1
  invFun
    | 0 => 0
    | i + 1 => σ.symm i + 1
  left_inv i := by cases i <;> simp
  right_inv i := by cases i <;> simp

/-- A list in another order has its elements at other places. -/
theorem exists_places (h : l.Perm l') : ∃ σ : Equiv.Perm Nat, ∀ i, l'[σ i]? = l[i]? := by
  induction h with
  | nil => exact ⟨.refl Nat, fun _ => rfl⟩
  | cons a _ ih =>
    obtain ⟨σ, places⟩ := ih
    refine ⟨behindFirst σ, fun i => ?_⟩
    cases i with
    | zero => rfl
    | succ i => exact places i
  | swap a b rest =>
    refine ⟨Equiv.swap 0 1, fun i => ?_⟩
    match i with
    | 0 => simp
    | 1 => simp
    | i + 2 => rw [Equiv.swap_apply_of_ne_of_ne (by omega) (by omega)]; rfl
  | trans _ _ ih ih' =>
    obtain ⟨σ, places⟩ := ih
    obtain ⟨σ', places'⟩ := ih'
    exact ⟨σ.trans σ', fun i => (places' (σ i)).trans (places i)⟩

theorem idxOf?_places {names names' : List String} {σ : Equiv.Perm Nat} (distinct : names.Nodup) (distinct' : names'.Nodup)
    (places : ∀ i, names'[σ i]? = names[i]?) (name : String) : names'.idxOf? name = (names.idxOf? name).map σ := by
  refine Option.ext fun j => ?_
  rw [idxOf?_eq_some distinct', Option.map_eq_some_iff]
  constructor
  · intro here
    refine ⟨σ.symm j, (idxOf?_eq_some distinct).mpr ?_, σ.apply_symm_apply j⟩
    rw [← places, σ.apply_symm_apply, here]
  · rintro ⟨i, here, rfl⟩
    rw [places, (idxOf?_eq_some distinct).mp here]

end Places

/-! ### Names -/

/-- The names of one vocabulary are those of the other under new numbers. -/
structure Vocabulary.Renamed (ρ : Renaming) (v v' : Vocabulary) : Prop where
  terminals : ∀ i, v'.terminals[ρ.terminal i]? = v.terminals[i]?
  nonterminals : ∀ i, v'.nonterminals[ρ.nonterminal i]? = v.nonterminals[i]?

namespace Vocabulary.Renamed
variable {v v' : Vocabulary}

theorem name (h : v.Renamed ρ v') (s : Symbol) : v'.name (s.renamed ρ) = v.name s := by
  cases s with
  | terminal i => simp only [Symbol.renamed, Vocabulary.name, List.getD_eq_getElem?_getD, h.terminals]
  | nonterminal i => simp only [Symbol.renamed, Vocabulary.name, List.getD_eq_getElem?_getD, h.nonterminals]
  | epsilon => rfl
  | endMarker => rfl

theorem declares (h : v.Renamed ρ v') {s : Symbol} (known : v.Declares s) : v'.Declares (s.renamed ρ) := by
  have inside : ∀ {names names' : List String} {i j}, names'[j]? = names[i]? → i < names.length → j < names'.length := by
    intro names names' i j same bound
    by_contra outside
    rw [List.getElem?_eq_none (Nat.le_of_not_lt outside), List.getElem?_eq_getElem bound] at same
    cases same
  cases s with
  | terminal i => exact inside (h.terminals i) known
  | nonterminal i => exact inside (h.nonterminals i) known
  | epsilon => trivial
  | endMarker => trivial

end Vocabulary.Renamed

namespace Grammar
variable {g g' : Grammar} {a b : List Symbol}

/-! ### Grammars under new numbers -/

/-- One grammar is the other under new numbers. -/
structure Renamed (ρ : Renaming) (g g' : Grammar) : Prop extends Vocabulary.Renamed ρ g.toVocabulary g'.toVocabulary where
  productions : ∀ id, g'.production? (ρ.production id) = (g.production? id).map (.renamed ρ)
  start : g'.start = ρ.nonterminal g.start
  restarts : g'.restarts = g.restarts.map ρ.nonterminal

namespace Renamed

theorem symm (h : g.Renamed ρ g') : g'.Renamed ρ.symm g where
  terminals i := by rw [← h.terminals]; simp [Renaming.symm]
  nonterminals i := by rw [← h.nonterminals]; simp [Renaming.symm]
  productions id := by
    have found := h.productions (ρ.symm.production id)
    rw [show ρ.production (ρ.symm.production id) = id from ρ.production.apply_symm_apply id] at found
    rw [found, Option.map_map]
    simp [Function.comp_def]
  start := by rw [h.start]; simp [Renaming.symm]
  restarts := by rw [h.restarts]; simp [Renaming.symm, List.map_map, Function.comp_def]

theorem mem_productions (h : g.Renamed ρ g') {p : Production} (member : p ∈ g.productions) :
    p.renamed ρ ∈ g'.productions := by
  obtain ⟨id, found⟩ := List.mem_iff_getElem?.mp member
  refine List.mem_iff_getElem?.mpr ⟨ρ.production id, (h.productions id).trans ?_⟩
  rw [production?, found]
  rfl

theorem declared (h : g.Renamed ρ g') (declared : g.Declared) : g'.Declared := by
  have origin : ∀ p ∈ g'.productions, ∃ q ∈ g.productions, p = q.renamed ρ := fun p member =>
    ⟨_, h.symm.mem_productions member, (Production.renamed_of_symm p).symm⟩
  refine ⟨?_, fun p member => ?_, fun p member s hs => ?_⟩
  · rw [h.start]
    exact h.declares (s := .nonterminal g.start) declared.start
  · obtain ⟨q, hq, rfl⟩ := origin p member
    exact h.declares (s := .nonterminal q.head) (declared.heads q hq)
  · obtain ⟨q, hq, rfl⟩ := origin p member
    obtain ⟨t, ht, rfl⟩ := List.mem_map.mp hs
    exact h.declares (declared.bodies q hq t ht)

/-! ### Derivations -/

theorem produces (h : g.Renamed ρ g') (step : g.Produces a b) :
    g'.Produces (a.map (.renamed ρ)) (b.map (.renamed ρ)) := by
  cases step with
  | rewrite before after member =>
    have step := Produces.rewrite (before.map (.renamed ρ)) (after.map (.renamed ρ)) (h.mem_productions member)
    simpa only [List.map_append, List.map_cons, Symbol.renamed, Production.renamed, erased_renamed] using step

theorem derives (h : g.Renamed ρ g') (derived : g.Derives a b) :
    g'.Derives (a.map (.renamed ρ)) (b.map (.renamed ρ)) := by
  induction derived with
  | refl => exact .refl _
  | tail _ step ih => exact Relation.ReflTransGen.tail ih (h.produces step)

end Renamed
end Grammar
end Lookahead
