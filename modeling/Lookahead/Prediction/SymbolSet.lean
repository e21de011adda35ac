import Lookahead.Grammar.Symbol

/-! Finite sets of symbols, kept as strictly increasing lists so that equal sets are equal values. -/

namespace Lookahead

/-- A set of symbols. The operations below keep the list strictly increasing. -/
structure SymbolSet where
  elements : List Symbol
  deriving DecidableEq, Repr

namespace SymbolSet

def empty : SymbolSet := ⟨[]⟩

def singleton (s : Symbol) : SymbolSet := ⟨[s]⟩

instance : Membership Symbol SymbolSet := ⟨fun set s => s ∈ set.elements⟩

instance (s : Symbol) (set : SymbolSet) : Decidable (s ∈ set) := inferInstanceAs (Decidable (s ∈ set.elements))

/-- Puts a symbol at its place in an increasing list, once. -/
def place (s : Symbol) : List Symbol → List Symbol
  | [] => [s]
  | x :: rest =>
    if s = x then x :: rest
    else if s.precedes x then s :: x :: rest
    else x :: place s rest

def insert (set : SymbolSet) (s : Symbol) : SymbolSet := ⟨place s set.elements⟩

/-- Adds all symbols of a list. -/
def insertAll (set : SymbolSet) (symbols : List Symbol) : SymbolSet := symbols.foldl insert set

def union (a b : SymbolSet) : SymbolSet := a.insertAll b.elements

/-- The symbols of a set but `ε`. -/
def withoutEpsilon (set : SymbolSet) : SymbolSet := ⟨set.elements.filter (· ≠ .epsilon)⟩

/-- The columns of a set's terminals and end marker, in order. -/
def columns (set : SymbolSet) : List Column := set.elements.filterMap Symbol.column?

theorem mem_place {s x : Symbol} {l : List Symbol} : x ∈ place s l ↔ x = s ∨ x ∈ l := by
  induction l with
  | nil => simp [place]
  | cons y rest ih =>
    unfold place
    split
    · subst_vars; simp
    · split
      · simp
      · simp only [List.mem_cons, ih]; exact or_left_comm

@[simp] theorem mem_insert {set : SymbolSet} {s x : Symbol} : x ∈ set.insert s ↔ x = s ∨ x ∈ set := mem_place

end SymbolSet
end Lookahead
