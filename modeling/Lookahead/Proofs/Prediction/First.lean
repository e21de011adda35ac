import Lookahead.Prediction.First
import Lookahead.Prediction.Follow
import Lookahead.Proofs.Grammar.Derivation
import Lookahead.Proofs.Prediction.SymbolSet
import Lookahead.Proofs.Prediction.Stabilize

/-! The solved FIRST sets are those of the derivations. What a pass adds can begin a derived form, by induction over the
passes. The last pass adds nothing, so that a step of a derivation takes nothing out of FIRST of a form, and what begins a
derived form was in FIRST of the first one. -/

namespace Lookahead

/-- What a symbol says as a member of FIRST of a form: a terminal or `$` begins a form that is derived from it, and `ε`
    is for the empty form. -/
def Grammar.Begins (g : Grammar) (form : List Symbol) : Symbol → Prop
  | .terminal t => ∃ rest, g.Derives form (.terminal t :: rest)
  | .endMarker => ∃ rest, g.Derives form (.endMarker :: rest)
  | .epsilon => g.Derives form []
  | .nonterminal _ => False

namespace Grammar.Begins
variable {g : Grammar} {a b : List Symbol} {x : Symbol}

theorem of_derives (h : g.Derives a b) (begins : g.Begins b x) : g.Begins a x := by
  cases x with
  | terminal t =>
    obtain ⟨rest, later⟩ := begins
    exact ⟨rest, h.trans later⟩
  | endMarker =>
    obtain ⟨rest, later⟩ := begins
    exact ⟨rest, h.trans later⟩
  | epsilon => exact h.trans begins
  | nonterminal n => exact begins

theorem append_right (after : List Symbol) (visible : x ≠ .epsilon) (begins : g.Begins a x) : g.Begins (a ++ after) x := by
  cases x with
  | terminal t =>
    obtain ⟨rest, h⟩ := begins
    exact ⟨rest ++ after, h.append_right after⟩
  | endMarker =>
    obtain ⟨rest, h⟩ := begins
    exact ⟨rest ++ after, h.append_right after⟩
  | epsilon => exact absurd rfl visible
  | nonterminal n => exact begins

theorem append_left (vanishes : g.Derives a []) (begins : g.Begins b x) : g.Begins (a ++ b) x :=
  of_derives (vanishes.append_right b) begins

end Grammar.Begins

namespace FirstSets
variable {g : Grammar} {f : FirstSets} {a b : List Symbol} {s x : Symbol}

/-! ### FIRST of a sequence -/

theorem mem_ofSequence_cons : x ∈ f.ofSequence (s :: a) ↔
    (x ∈ f.ofSymbol s ∧ x ≠ .epsilon) ∨ (.epsilon ∈ f.ofSymbol s ∧ x ∈ f.ofSequence a) := by
  simp only [ofSequence]
  split
  · rename_i vanishes
    rw [SymbolSet.mem_union, SymbolSet.mem_withoutEpsilon]
    exact or_congr_right (by simp [vanishes])
  · rename_i visible
    constructor
    · intro member
      exact Or.inl ⟨member, fun same => visible (same ▸ member)⟩
    · rintro (⟨member, -⟩ | ⟨vanishes, -⟩)
      · exact member
      · exact absurd vanishes visible

theorem mem_ofSequence_nil : x ∈ f.ofSequence [] ↔ x = .epsilon := SymbolSet.mem_singleton

theorem mem_ofSequence_singleton : x ∈ f.ofSequence [s] ↔ x ∈ f.ofSymbol s := by
  rw [mem_ofSequence_cons, mem_ofSequence_nil]
  constructor
  · rintro (⟨member, -⟩ | ⟨member, rfl⟩) <;> exact member
  · intro member
    by_cases here : x = .epsilon
    · exact Or.inr ⟨here ▸ member, here⟩
    · exact Or.inl ⟨member, here⟩

theorem mem_ofSequence_append : x ∈ f.ofSequence (a ++ b) ↔
    (x ∈ f.ofSequence a ∧ x ≠ .epsilon) ∨ (.epsilon ∈ f.ofSequence a ∧ x ∈ f.ofSequence b) := by
  induction a generalizing x with
  | nil => simp [mem_ofSequence_nil]
  | cons s rest ih =>
    rw [List.cons_append, mem_ofSequence_cons, ih, mem_ofSequence_cons, mem_ofSequence_cons]
    by_cases here : x = .epsilon <;> simp [here, and_or_left, or_assoc, and_assoc]

theorem mem_ofSequence_erased : x ∈ f.ofSequence (erased a) ↔ x ∈ f.ofSequence a := by
  induction a with
  | nil => rfl
  | cons s rest ih =>
    cases s with
    | epsilon =>
      rw [erased_cons_epsilon, mem_ofSequence_cons, ih]
      simp [ofSymbol]
    | terminal t => rw [erased_cons_terminal, mem_ofSequence_cons, mem_ofSequence_cons, ih]
    | nonterminal n => rw [erased_cons_nonterminal, mem_ofSequence_cons, mem_ofSequence_cons, ih]
    | endMarker => rw [erased_cons_endMarker, mem_ofSequence_cons, mem_ofSequence_cons, ih]

/-! ### Every member begins a derived form -/

/-- Each set holds only what can begin a form derived from its nonterminal. -/
def Sound (g : Grammar) (f : FirstSets) : Prop :=
  ∀ n, ∀ x ∈ f.ofSymbol (.nonterminal n), g.Begins [.nonterminal n] x

namespace Sound

theorem ofSymbol (sound : Sound g f) (member : x ∈ f.ofSymbol s) : g.Begins (erased [s]) x := by
  cases s with
  | terminal t =>
    simp only [FirstSets.ofSymbol] at member
    split at member
    · rw [SymbolSet.mem_singleton.mp member]
      exact ⟨[], .refl _⟩
    · exact absurd member SymbolSet.not_mem_empty
  | nonterminal n => exact sound n x member
  | epsilon =>
    rw [SymbolSet.mem_singleton.mp member]
    exact .refl _
  | endMarker =>
    rw [SymbolSet.mem_singleton.mp member]
    exact ⟨[], .refl _⟩

theorem ofSequence (sound : Sound g f) (member : x ∈ f.ofSequence a) : g.Begins (erased a) x := by
  induction a with
  | nil =>
    rw [mem_ofSequence_nil.mp member]
    exact .refl _
  | cons s rest ih =>
    rw [← List.singleton_append, erased_append]
    rcases mem_ofSequence_cons.mp member with ⟨here, visible⟩ | ⟨vanishes, later⟩
    · exact (sound.ofSymbol here).append_right _ visible
    · exact .append_left (sound.ofSymbol vanishes) (ih later)

theorem extend (sound : Sound g f) {p : Production} (member : p ∈ g.productions) :
    Sound g (f.extend p.head (f.ofSequence p.body)) := by
  intro n x hx
  rcases SymbolSet.mem_getD_modify.mp hx with old | ⟨rfl, -, new⟩
  · exact sound n x old
  · exact .of_derives (.of_production member) (sound.ofSequence new)

theorem initial : Sound g (FirstSets.initial g) := by
  intro n x hx
  have empty : (FirstSets.initial g).ofSymbol (.nonterminal n) = .empty := by
    simp only [FirstSets.initial, FirstSets.ofSymbol, List.getD_eq_getElem?_getD, List.getElem?_map]
    cases g.nonterminals[n]? <;> rfl
  rw [empty] at hx
  exact absurd hx SymbolSet.not_mem_empty

theorem solve : Sound g (FirstSets.solve g) :=
  stabilize_keeps (Sound g) (fun _ sound => foldl_keeps (fun _ _ hp sound => sound.extend hp) sound) _ .initial

end Sound

/-! ### A pass over the solved sets adds nothing -/

/-- The symbols that FIRST sets are made of. -/
def stock (g : Grammar) : List Symbol := (List.range g.terminals.length).map .terminal ++ [.epsilon, .endMarker]

/-- What every pass keeps: one set for each nonterminal, with elements from the stock. -/
structure Fits (g : Grammar) (f : FirstSets) : Prop where
  terminals : f.terminals = g.terminals.length
  length : f.sets.length = g.nonterminals.length
  within : SymbolSet.Within (stock g) f.sets

namespace Fits

theorem ofSymbol (fits : Fits g f) (member : x ∈ f.ofSymbol s) : x ∈ stock g := by
  cases s with
  | terminal t =>
    simp only [FirstSets.ofSymbol, fits.terminals] at member
    split at member
    · rename_i bound
      rw [SymbolSet.mem_singleton.mp member]
      exact List.mem_append_left _ (List.mem_map_of_mem (List.mem_range.mpr bound))
    · exact absurd member SymbolSet.not_mem_empty
  | nonterminal n => exact fits.within.mem_stock member
  | epsilon => rw [SymbolSet.mem_singleton.mp member]; simp [stock]
  | endMarker => rw [SymbolSet.mem_singleton.mp member]; simp [stock]

theorem ofSequence (fits : Fits g f) (member : x ∈ f.ofSequence a) : x ∈ stock g := by
  induction a with
  | nil => rw [mem_ofSequence_nil.mp member]; simp [stock]
  | cons s rest ih =>
    rcases mem_ofSequence_cons.mp member with ⟨here, -⟩ | ⟨-, later⟩
    · exact fits.ofSymbol here
    · exact ih later

theorem extend (fits : Fits g f) (n : Nat) (a : List Symbol) : Fits g (f.extend n (f.ofSequence a)) where
  terminals := fits.terminals
  length := (List.length_modify ..).trans fits.length
  within := fits.within.modify fun _ => fits.ofSequence

theorem pass (fits : Fits g f) : Fits g (FirstSets.pass g f) :=
  foldl_keeps (fun _ p _ fits => fits.extend p.head p.body) fits

theorem initial : Fits g (FirstSets.initial g) where
  terminals := rfl
  length := List.length_map ..
  within := by
    intro set member
    obtain ⟨_, -, rfl⟩ := List.mem_map.mp member
    exact ⟨SymbolSet.increasing_empty, fun _ h => nomatch h⟩

theorem solve : Fits g (FirstSets.solve g) := stabilize_keeps (Fits g) (fun _ => pass) _ initial

theorem mem_column (fits : Fits g f) {c : Column} (known : g.Declares c.toSymbol) :
    c.toSymbol ∈ f.ofSequence (c.toSymbol :: a) := by
  refine mem_ofSequence_cons.mpr (Or.inl ?_)
  cases c with
  | terminal t =>
    have bound : t < g.terminals.length := known
    simp [Column.toSymbol, FirstSets.ofSymbol, fits.terminals, bound]
  | endMarker => simp [Column.toSymbol, FirstSets.ofSymbol]

/-- The bound of the solver is one more than all sets can hold. -/
theorem total_lt (fits : Fits g f) : SymbolSet.total f.sets < bound g := by
  have most := fits.within.total_le
  have size : (stock g).length = g.terminals.length + 2 := by simp [stock]
  rw [fits.length, size] at most
  exact Nat.lt_succ_of_le most

end Fits

theorem extend_grows (f : FirstSets) (p : Production) :
    f.extend p.head (f.ofSequence p.body) = f ∨
      SymbolSet.total f.sets < SymbolSet.total (f.extend p.head (f.ofSequence p.body)).sets := by
  rcases SymbolSet.modify_grows f.sets p.head (f.ofSequence p.body) with same | more
  · exact Or.inl (by rw [extend, same])
  · exact Or.inr more

theorem pass_solve : pass g (solve g) = solve g := by
  refine stabilize_fixed (Fits g) (fun f => SymbolSet.total f.sets) (fun _ => Fits.pass) (fun f => ?_)
    (fun f fits => Nat.le_of_lt_succ fits.total_lt) _ Fits.initial (Nat.lt_add_left _ (Nat.lt_succ_self _))
  exact foldl_grows extend_grows _ f

/-! ### Order -/

theorem increasing_ofSymbol (s : Symbol) : ((solve g).ofSymbol s).Increasing := by
  cases s with
  | terminal t =>
    simp only [ofSymbol]
    split
    · exact SymbolSet.increasing_singleton
    · exact SymbolSet.increasing_empty
  | nonterminal i => exact Fits.solve.within.increasing i
  | epsilon => exact SymbolSet.increasing_singleton
  | endMarker => exact SymbolSet.increasing_singleton

theorem increasing_ofSequence (a : List Symbol) : ((solve g).ofSequence a).Increasing := by
  cases a with
  | nil => exact SymbolSet.increasing_singleton
  | cons s rest =>
    simp only [ofSequence]
    split
    · exact (increasing_ofSymbol s).withoutEpsilon.union
    · exact increasing_ofSymbol s

theorem Fits.ext {g' : Grammar} {f' : FirstSets} (fits : Fits g f) (fits' : Fits g' f')
    (terminals : g.terminals.length = g'.terminals.length) (nonterminals : g.nonterminals.length = g'.nonterminals.length)
    (same : ∀ i < g.nonterminals.length, ∀ x, x ∈ f.ofSymbol (.nonterminal i) ↔ x ∈ f'.ofSymbol (.nonterminal i)) :
    f = f' := by
  have sets : f.sets = f'.sets := fits.within.ext fits'.within (by rw [fits.length, fits'.length, nonterminals])
    fun i bound => same i (fits.length ▸ bound)
  have counts : f.terminals = f'.terminals := by rw [fits.terminals, fits'.terminals, terminals]
  obtain ⟨_, _⟩ := f
  obtain ⟨_, _⟩ := f'
  exact congrArg₂ FirstSets.mk counts sets

/-! ### Derivations take nothing out of FIRST -/

/-- FIRST of each body is in the set of its head. -/
def Closed (g : Grammar) (f : FirstSets) : Prop :=
  ∀ p ∈ g.productions, ∀ x ∈ f.ofSequence p.body, x ∈ f.ofSymbol (.nonterminal p.head)

theorem closed_solve (declared : g.Declared) : Closed g (solve g) := by
  intro p hp x hx
  have same := foldl_fixed extend_grows pass_solve p hp
  have bound : p.head < (solve g).sets.length := Fits.solve.length ▸ declared.heads p hp
  have member : x ∈ ((solve g).extend p.head ((solve g).ofSequence p.body)).ofSymbol (.nonterminal p.head) :=
    SymbolSet.mem_getD_modify.mpr (Or.inr ⟨rfl, bound, hx⟩)
  rwa [same] at member

namespace Closed

theorem of_produces (closed : Closed g f) (step : g.Produces a b) (member : x ∈ f.ofSequence b) : x ∈ f.ofSequence a := by
  cases step with
  | rewrite before after hp =>
    rw [mem_ofSequence_append, mem_ofSequence_append, mem_ofSequence_erased] at member
    rw [mem_ofSequence_append, mem_ofSequence_cons]
    rcases member with here | ⟨vanishes, ⟨here, visible⟩ | ⟨vanishes', later⟩⟩
    · exact Or.inl here
    · exact Or.inr ⟨vanishes, Or.inl ⟨closed _ hp x here, visible⟩⟩
    · exact Or.inr ⟨vanishes, Or.inr ⟨closed _ hp _ (mem_ofSequence_erased.mp vanishes'), later⟩⟩

theorem of_derives (closed : Closed g f) (h : g.Derives a b) (member : x ∈ f.ofSequence b) : x ∈ f.ofSequence a := by
  induction h with
  | refl => exact member
  | tail _ step ih => exact ih (closed.of_produces step member)

end Closed

theorem mem_solve_of_begins (declared : g.Declared) (known : ∀ s ∈ a, g.Declares s) (begins : g.Begins (erased a) x) :
    x ∈ (solve g).ofSequence a := by
  have closed := closed_solve declared
  rw [← mem_ofSequence_erased]
  have column : ∀ {c : Column} {rest}, g.Derives (erased a) (c.toSymbol :: rest) →
      c.toSymbol ∈ (solve g).ofSequence (erased a) := fun h =>
    closed.of_derives h
      (Fits.solve.mem_column (h.declares declared (fun s hs => known s (mem_erased.mp hs).1) _ List.mem_cons_self))
  cases x with
  | terminal t =>
    obtain ⟨rest, h⟩ := begins
    exact column (c := .terminal t) h
  | endMarker =>
    obtain ⟨rest, h⟩ := begins
    exact column (c := .endMarker) h
  | epsilon => exact closed.of_derives begins (mem_ofSequence_nil.mpr rfl)
  | nonterminal n => exact begins.elim

theorem mem_solve_ofSequence (declared : g.Declared) (known : ∀ s ∈ a, g.Declares s) :
    x ∈ (solve g).ofSequence a ↔ g.Begins (erased a) x :=
  ⟨Sound.solve.ofSequence, mem_solve_of_begins declared known⟩

end FirstSets

/-- The solved FIRST sets are exact, for sequences and for single symbols, and the nullable symbols are those that derive
    the empty form. -/
theorem Sets.mem_first_iff {g : Grammar} (built : g.Built) :
    (∀ form : List Symbol, (∀ s ∈ form, g.Declares s) →
      ∀ x, x ∈ (Sets.solve g).first.ofSequence form ↔ g.Begins (erased form) x) ∧
    ∀ s, g.Declares s →
      (∀ x, x ∈ (Sets.solve g).first.ofSymbol s ↔ g.Begins (erased [s]) x) ∧
      ((Sets.solve g).first.isNullable s = true ↔ g.Derives (erased [s]) []) := by
  have single : ∀ s, g.Declares s → ∀ x, x ∈ (FirstSets.solve g).ofSymbol s ↔ g.Begins (erased [s]) x := by
    intro s known x
    rw [← FirstSets.mem_ofSequence_singleton]
    exact FirstSets.mem_solve_ofSequence built.declared fun _ hs => List.mem_singleton.mp hs ▸ known
  refine ⟨fun form known x => FirstSets.mem_solve_ofSequence built.declared known, fun s known => ⟨single s known, ?_⟩⟩
  exact decide_eq_true_iff.trans (single s known .epsilon)

/-- Behind the vanishing `A` it is `b` that begins what `S` derives, though `S` comes up again before any `b`. -/
theorem Sets.mem_first_leftRecursive :
    Grammar.leftRecursive.Built ∧ Grammar.leftRecursive.Begins [.nonterminal 0, .terminal 0] (.terminal 1) ∧
      ¬Grammar.leftRecursive.Begins [.nonterminal 0] (.terminal 0) ∧
      Grammar.leftRecursive.Derives [.nonterminal 1] [] := by
  have solved := Sets.mem_first_iff Grammar.leftRecursive_built
  refine ⟨Grammar.leftRecursive_built, ?_, ?_, ?_⟩
  · exact (solved.1 [.nonterminal 0, .terminal 0] (by decide) _).mp (by decide +kernel)
  · exact fun begins => absurd ((solved.1 [.nonterminal 0] (by decide) _).mpr begins) (by decide +kernel)
  · exact (solved.2 (.nonterminal 1) (by decide)).2.mp (by decide +kernel)

end Lookahead
