import Lookahead.Proofs.Prediction.Table

/-! Forms that can begin with a word of columns. It is enough to expand a form from the left until the word stands there,
and nothing has to be known of what is behind it, which may not derive any word at all. Where FOLLOW knows what stands
behind the nonterminals of a form, and the table has no conflicts, each of these expansions is by the production that the
table holds for the next column. -/

namespace Lookahead
namespace Grammar
variable {g : Grammar} {a b form rest : List Symbol} {word : List Column} {c : Column} {n id : Nat} {p : Production}

/-! ### Opening a form -/

/-- A form comes to begin with a word when its first nonterminal is expanded again and again. -/
inductive Opens (g : Grammar) : List Symbol → List Column → Prop
  | done (form : List Symbol) : Opens g form []
  | terminal (t : Nat) {rest : List Symbol} {word : List Column} (later : Opens g rest word) :
    Opens g (.terminal t :: rest) (.terminal t :: word)
  | endMarker {rest : List Symbol} {word : List Column} (later : Opens g rest word) :
    Opens g (.endMarker :: rest) (.endMarker :: word)
  | expand {n id : Nat} {p : Production} {rest : List Symbol} {c : Column} {word : List Column}
    (found : g.production? id = some p) (head : p.head = n) (later : Opens g (erased p.body ++ rest) (c :: word)) :
    Opens g (.nonterminal n :: rest) (c :: word)

namespace Opens

theorem column (c : Column) (h : g.Opens rest word) : g.Opens (c.toSymbol :: rest) (c :: word) := by
  cases c with
  | terminal t => exact h.terminal t
  | endMarker => exact h.endMarker

theorem of_columns (word : List Column) (rest : List Symbol) : g.Opens (word.map Column.toSymbol ++ rest) word := by
  induction word with
  | nil => exact .done _
  | cons c word ih => exact ih.column c

/-- A step that comes first can be put off until its nonterminal is the first one, or left out if the word stands there
    before that. -/
theorem of_produces (step : g.Produces a b) (h : g.Opens b word) : g.Opens a word := by
  cases step with
  | @rewrite before after p member =>
    obtain ⟨id, found⟩ := List.mem_iff_getElem?.mp member
    generalize form : before ++ (erased p.body ++ after) = whole at h
    induction h generalizing before with
    | done => exact .done _
    | terminal t later ih =>
      cases before with
      | nil => exact .expand found rfl (form ▸ later.terminal t)
      | cons s before =>
        cases form
        exact (ih before rfl).terminal t
    | endMarker later ih =>
      cases before with
      | nil => exact .expand found rfl (form ▸ later.endMarker)
      | cons s before =>
        cases form
        exact (ih before rfl).endMarker
    | @expand _ _ q _ _ _ found' head later ih =>
      cases before with
      | nil => exact .expand found rfl (form ▸ later.expand found' head)
      | cons s before =>
        cases form
        have put := ih (erased q.body ++ before) (List.append_assoc ..)
        rw [List.append_assoc] at put
        exact put.expand found' head

theorem of_derives (h : g.Derives form (word.map Column.toSymbol ++ rest)) : g.Opens form word := by
  induction h using Relation.ReflTransGen.head_induction_on with
  | refl => exact of_columns word rest
  | head step _ ih => exact of_produces step ih

theorem of_begins (h : g.Begins form c.toSymbol) : g.Opens form [c] := by
  cases c with
  | terminal t =>
    obtain ⟨rest, h⟩ := h
    exact of_derives h
  | endMarker =>
    obtain ⟨rest, h⟩ := h
    exact of_derives h

theorem append (h : g.Opens form word) (behind : List Symbol) : g.Opens (form ++ behind) word := by
  induction h with
  | done form => exact .done _
  | terminal t _ ih => exact ih.terminal t
  | endMarker _ ih => exact ih.endMarker
  | expand found head _ ih =>
    rw [List.append_assoc] at ih
    exact ih.expand found head

theorem derives (h : g.Opens form word) : ∃ rest, g.Derives form (word.map Column.toSymbol ++ rest) := by
  induction h with
  | done form => exact ⟨form, .refl form⟩
  | terminal t _ ih =>
    obtain ⟨rest, later⟩ := ih
    exact ⟨rest, later.append_left [.terminal t]⟩
  | endMarker _ ih =>
    obtain ⟨rest, later⟩ := ih
    exact ⟨rest, later.append_left [.endMarker]⟩
  | @expand _ _ _ behind _ _ found head _ ih =>
    subst head
    obtain ⟨rest, later⟩ := ih
    exact ⟨rest, ((Derives.of_production (List.mem_of_getElem? found)).append_right behind).trans later⟩

/-- The first column comes from the first part of a form, or that part vanishes. -/
theorem append_inv (h : g.Opens (a ++ b) (c :: word)) : g.Opens a [c] ∨ g.Derives a [] ∧ g.Opens b (c :: word) := by
  generalize form : a ++ b = whole at h
  generalize next : c :: word = columns at h
  induction h generalizing a with
  | done => cases next
  | terminal t later =>
    cases next
    cases a with
    | nil =>
      subst form
      exact Or.inr ⟨.refl _, later.terminal t⟩
    | cons s a =>
      cases form
      exact Or.inl (.terminal t (.done a))
  | endMarker later =>
    cases next
    cases a with
    | nil =>
      subst form
      exact Or.inr ⟨.refl _, later.endMarker⟩
    | cons s a =>
      cases form
      exact Or.inl (.endMarker (.done a))
  | @expand _ _ p _ _ _ found head later ih =>
    cases next
    cases a with
    | nil =>
      subst form
      exact Or.inr ⟨.refl _, later.expand found head⟩
    | cons s a =>
      cases form
      rcases ih (a := erased p.body ++ a) (List.append_assoc ..) rfl with here | ⟨vanishes, behind⟩
      · exact Or.inl (here.expand found head)
      · subst head
        have step := (Derives.of_production (List.mem_of_getElem? found)).append_right a
        exact Or.inr ⟨step.trans vanishes, behind⟩

theorem mem_first (declared : g.Declared) (known : ∀ s ∈ form, g.Declares s) (h : g.Opens form (c :: word)) :
    c.toSymbol ∈ (FirstSets.solve g).ofSequence form := by
  obtain ⟨rest, derived⟩ := h.derives
  have declares : g.Declares c.toSymbol := derived.declares declared known _ List.mem_cons_self
  exact (FirstSets.closed_solve declared).of_derives derived (FirstSets.Fits.solve.mem_column declares)

end Opens

/-! ### Forms that FOLLOW foresees -/

/-- Whatever stands behind a nonterminal of the form is in its FOLLOW set. -/
structure Foreseen (g : Grammar) (form : List Symbol) : Prop where
  known : ∀ s ∈ form, g.Declares s
  covers : FollowSets.Covers (.solve g) (.solve g (.solve g)) (fun _ => False) form

namespace Foreseen

theorem single (declared : n < g.nonterminals.length) : g.Foreseen [.nonterminal n] where
  known := by
    intro s hs
    rw [List.mem_singleton.mp hs]
    exact declared
  covers := FollowSets.covers_single n

theorem pair (declared : n < g.nonterminals.length) (known : g.Declares c.toSymbol)
    (follows : c.toSymbol ∈ (Sets.solve g).follow.ofNonterminal n) : g.Foreseen [.nonterminal n, c.toSymbol] where
  known := by
    intro s hs
    rcases List.mem_cons.mp hs with rfl | last
    · exact declared
    · rw [List.mem_singleton.mp last]
      exact known
  covers := FollowSets.covers_pair follows

theorem start (declared : g.Declared) : g.Foreseen [.nonterminal g.start, .endMarker] :=
  pair (c := .endMarker) declared.start trivial (FollowSets.Fits.solve declared .solve).start

theorem tail {s : Symbol} (h : g.Foreseen (s :: rest)) : g.Foreseen rest where
  known := fun x hx => h.known x (List.mem_cons_of_mem _ hx)
  covers := (FollowSets.covers_append (a := [s]).mp h.covers).2

theorem expand (declared : g.Declared) (found : g.production? id = some p)
    (h : g.Foreseen (.nonterminal p.head :: rest)) : g.Foreseen (erased p.body ++ rest) := by
  have step : g.Produces (.nonterminal p.head :: rest) (erased p.body ++ rest) :=
    .rewrite [] rest (List.mem_of_getElem? found)
  refine ⟨Derives.declares declared (Relation.ReflTransGen.single step) h.known, ?_⟩
  exact h.covers.of_produces (FollowSets.closed_solve declared .solve) (FirstSets.closed_solve declared) step

/-- The next column is one that the production by which a form opens is written to. -/
theorem ahead (declared : g.Declared) (found : g.production? id = some p)
    (foreseen : g.Foreseen (.nonterminal p.head :: rest)) (h : g.Opens (erased p.body ++ rest) (c :: word)) :
    (Sets.solve g).first.Ahead p.body (· ∈ (Sets.solve g).follow.ofNonterminal p.head) c.toSymbol := by
  have known : ∀ s ∈ p.body, g.Declares s := declared.bodies p (List.mem_of_getElem? found)
  rcases h.append_inv with here | ⟨vanishes, behind⟩
  · have member := here.mem_first declared fun s hs => known s (mem_erased.mp hs).1
    exact Or.inl ⟨FirstSets.mem_ofSequence_erased.mp member, c.toSymbol_ne_epsilon⟩
  · have vanishing : .epsilon ∈ (FirstSets.solve g).ofSequence p.body :=
      FirstSets.mem_solve_of_begins declared known (x := .epsilon) vanishes
    have member := behind.mem_first declared foreseen.tail.known
    exact Or.inr ⟨vanishing, foreseen.covers.1 _ (Or.inl ⟨member, c.toSymbol_ne_epsilon⟩)⟩

/-- The production by which a form opens is the one that the table holds for the next column. -/
theorem predicted (declared : g.Declared) (ll1 : (Table.build g (Sets.solve g)).isLL1 = true)
    (found : g.production? id = some p) (foreseen : g.Foreseen (.nonterminal p.head :: rest))
    (h : g.Opens (erased p.body ++ rest) (c :: word)) : (Table.build g (Sets.solve g)).get? p.head c = some id :=
  Table.get?_of_predicted ll1 found (foreseen.ahead declared found h)

end Foreseen
end Grammar
end Lookahead
